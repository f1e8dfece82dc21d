/-
Handing a buffer to the other process (`LorieBuffer_sendHandleToUnixSocket`,
`LorieBuffer_recvHandleFromUnixSocket` in `buffer.c`).

The server writes its whole `LorieBuffer`, and the descriptor or the hardware buffer after
it.  The receiver resets what is its own before it reads the bytes over it, so that only
what it replaces afterwards is really its own.

* `recvHandle_spec` — what the receiver makes of a message;
* `recvHandle_reset_iff` — when the new buffer is in the state of a buffer just made.
-/
import KaliGui.Lorie.Buffer

namespace Lorie.Buffer

/-- A buffer in the socket, with the file of the descriptor or the hardware buffer that
comes with it. -/
structure Message where
  buffer : LorieBuffer
  fd : Option ℕ
  hardware : Option AHardwareBuffer

/-- `LorieBuffer_sendHandleToUnixSocket` -/
def lorieBufferSendHandleToUnixSocket (os : Os) (b : LorieBuffer) : Message where
  buffer := b
  fd := if b.desc.type = .fd then b.fd else none
  hardware := if b.desc.type = .ahardwarebuffer ∧ os.api26 then b.desc.buffer else none

/-- `LorieBuffer_recvHandleFromUnixSocket`; `none` when no buffer comes of it. -/
def lorieBufferRecvHandleFromUnixSocket (os : Os) (msg : Message) : Option LorieBuffer :=
  -- `read` goes over the fields that were reset, the reference count among them
  let buffer := { msg.buffer with image := none }
  let received : Option LorieBuffer :=
    match buffer.desc.type with
    | .fd =>
      let size := os.bytes buffer.desc.stride buffer.desc.height
      msg.fd.bind fun file => (os.mmap size file 0).map fun data =>
        { buffer with fd := some file, desc.data := some data }
    | .ahardwarebuffer =>
      -- a handle that does not come leaves the sender's pointer
      some { buffer with
        desc.buffer := if os.api26 then msg.hardware <|> buffer.desc.buffer
          else buffer.desc.buffer }
    | _ => some buffer
  (received.filter fun _ => os.callocBuffer).map fun b => { b with listed := false }

/-! ### What arrives -/

/-- The fields that tell the same in both processes. -/
structure SameImage (b r : LorieBuffer) : Prop where
  id : r.desc.id = b.desc.id
  width : r.desc.width = b.desc.width
  height : r.desc.height = b.desc.height
  stride : r.desc.stride = b.desc.stride
  format : r.desc.format = b.desc.format
  type : r.desc.type = b.desc.type

/-- The state of a buffer that its process has just made: one release frees it. -/
structure JustMade (r : LorieBuffer) : Prop where
  refcount : r.refcount = 1
  unlocked : r.locked = 0 ∧ r.lockedData = none
  gpuCopyPending : r.gpuCopyPending = 0
  gl : r.image = none ∧ r.id = 0
  listed : r.listed = false
  released : lorieBufferRelease r = none

theorem lorieBufferRelease_eq_none {b : LorieBuffer} :
    lorieBufferRelease b = none ↔ b.refcount = 1 := by
  rw [lorieBufferRelease]
  split
  · next h => exact iff_of_true rfl h
  · next h => exact iff_of_false nofun h

variable {os : Os} {msg : Message} {b r : LorieBuffer}

/-- The receiver's own are the `EGLImage`, the list and where the pixels are; all else is
the sender's. -/
theorem recvHandle_spec (h : lorieBufferRecvHandleFromUnixSocket os msg = some r) :
    SameImage msg.buffer r ∧
      (r.refcount = msg.buffer.refcount ∧ r.locked = msg.buffer.locked ∧
        r.lockedData = msg.buffer.lockedData ∧
        r.gpuCopyPending = msg.buffer.gpuCopyPending ∧ r.id = msg.buffer.id) ∧
      (r.image = none ∧ r.listed = false) ∧
      (msg.buffer.desc.type = .fd → ∃ file data, msg.fd = some file ∧
        os.mmap (os.bytes msg.buffer.desc.stride msg.buffer.desc.height) file 0 = some data ∧
        r.desc.data = some data) := by
  obtain ⟨received, hreceived, rfl⟩ := Option.map_eq_some_iff.mp h
  have hbuffer := (Option.filter_eq_some_iff.mp hreceived).1
  dsimp only at hbuffer
  split at hbuffer
  · obtain ⟨file, hfile, hmap⟩ := Option.bind_eq_some_iff.mp hbuffer
    obtain ⟨data, hdata, rfl⟩ := Option.map_eq_some_iff.mp hmap
    exact ⟨⟨rfl, rfl, rfl, rfl, rfl, rfl⟩, ⟨rfl, rfl, rfl, rfl, rfl⟩, ⟨rfl, rfl⟩,
      fun _ => ⟨file, data, hfile, hdata, rfl⟩⟩
  · next htype =>
    obtain rfl := Option.some.inj hbuffer
    exact ⟨⟨rfl, rfl, rfl, rfl, rfl, rfl⟩, ⟨rfl, rfl, rfl, rfl, rfl⟩, ⟨rfl, rfl⟩,
      fun hfd => absurd (htype.symm.trans hfd) (by decide)⟩
  · next hfd _ =>
    obtain rfl := Option.some.inj hbuffer
    exact ⟨⟨rfl, rfl, rfl, rfl, rfl, rfl⟩, ⟨rfl, rfl, rfl, rfl, rfl⟩, ⟨rfl, rfl⟩,
      fun htype => absurd htype hfd⟩

/-- The received buffer is as just made exactly when the sender's was in all that is not
replaced. -/
theorem recvHandle_reset_iff {server activity : Os}
    (h : lorieBufferRecvHandleFromUnixSocket activity
      (lorieBufferSendHandleToUnixSocket server b) = some r) :
    SameImage b r ∧ JustMade r ↔
      b.refcount = 1 ∧ (b.locked = 0 ∧ b.lockedData = none) ∧ b.gpuCopyPending = 0 ∧
        b.id = 0 := by
  obtain ⟨hsame, ⟨hrefcount, hlocked, hdata, hpending, hid⟩, ⟨himage, hlisted⟩, -⟩ :=
    recvHandle_spec h
  constructor
  · rintro ⟨-, hmade⟩
    exact ⟨hrefcount.symm.trans hmade.refcount,
      ⟨hlocked.symm.trans hmade.unlocked.1, hdata.symm.trans hmade.unlocked.2⟩,
      hpending.symm.trans hmade.gpuCopyPending, hid.symm.trans hmade.gl.2⟩
  · rintro ⟨hone, ⟨hunlocked, hnone⟩, hzero, hname⟩
    exact ⟨hsame, {
      refcount := hrefcount.trans hone
      unlocked := ⟨hlocked.trans hunlocked, hdata.trans hnone⟩
      gpuCopyPending := hpending.trans hzero
      gl := ⟨himage, hid.trans hname⟩
      listed := hlisted
      released := lorieBufferRelease_eq_none.mpr (hrefcount.trans hone) }⟩

/-- A root buffer of one pixel. -/
def rootBuffer : LorieBuffer :=
  { initial 0 1 1 1 formatR8G8B8X8 .fd none (some 0) 4096 0 with
    desc.data := some ⟨.file 0, 0, 4096⟩ }

/-- The same in the other process. -/
def receivedRoot : LorieBuffer := { rootBuffer with desc.data := some ⟨.file 0, 0, 4⟩ }

theorem recvHandle_reset_iff_root :
    SameImage rootBuffer receivedRoot ∧ JustMade receivedRoot ↔
      rootBuffer.refcount = 1 ∧ (rootBuffer.locked = 0 ∧ rootBuffer.lockedData = none) ∧
        rootBuffer.gpuCopyPending = 0 ∧ rootBuffer.id = 0 :=
  recvHandle_reset_iff (show lorieBufferRecvHandleFromUnixSocket Os.granting
    (lorieBufferSendHandleToUnixSocket Os.granting rootBuffer) = some receivedRoot from rfl)

/-- `lorieCreatePixmap` locks the buffers it makes, so that they are announced locked. -/
theorem recvHandle_not_reset :
    ¬ ∀ (server activity : Os) (b r : LorieBuffer),
      lorieBufferRecvHandleFromUnixSocket activity
          (lorieBufferSendHandleToUnixSocket server b) = some r →
        SameImage b r ∧ JustMade r := by
  intro hall
  let b := lorieBufferLock Os.granting rootBuffer
  obtain ⟨-, hmade⟩ := hall Os.granting Os.granting b
    { b with desc.data := some ⟨.file 0, 0, 4⟩ } rfl
  exact absurd hmade.unlocked.1 (by decide)

end Lorie.Buffer
