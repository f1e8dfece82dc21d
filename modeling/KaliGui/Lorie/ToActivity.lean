/-
Messages from the X server to the activity (`cmdentrypoint.cpp`, `buffer.c`,
`activity.cpp`).

The server writes an event for each message, and after it what the event
announces: a descriptor, a buffer with its handle, the clipboard's text.  The
activity's `xcallback` reads events off the stream and what it takes to follow
them.  How an `AHardwareBuffer` crosses a socket is Android's affair: `Transport`.

* `encode` — the bytes the `lorieSend…` functions write;
* `decode` — what `xcallback`, called while there is something to read, makes of them;
* `decode_encodeAll_iff` — decoding undoes encoding exactly when no clipboard text is empty
  and no message follows one.
-/
import KaliGui.Lorie.Event
import Mathlib.Data.List.TakeWhile

namespace Lorie.ToActivity

open ByteStream

/-! ### Buffers -/

/-- `sizeof(LorieBuffer)` -/
def sizeofLorieBuffer : ℕ := 128

/-- The offset of `desc.type` in a `LorieBuffer`. -/
def typeOffset : ℕ := 21

/-- `LORIEBUFFER_FD` -/
def lorieBufferFd : UInt8 := 2

/-- `LORIEBUFFER_AHARDWAREBUFFER` -/
def lorieBufferAhardwarebuffer : UInt8 := 3

/-- `AHardwareBuffer_sendHandleToUnixSocket` and its counterpart, which returns the
handle, if it got one, and how many bytes it took off the stream. -/
structure Transport (H : Type*) where
  send : H → List Cell
  recv : List Cell → Option H × ℕ

/-- What the documentation promises: a handle that was sent is received, and a handle
that is received was taken off the stream. -/
structure Transport.Sound {H : Type*} (t : Transport H) : Prop where
  recv_send : ∀ h rest, t.recv (t.send h ++ rest) = (some h, (t.send h).length)
  recv_length : ∀ stream h, (t.recv stream).1 = some h →
    (t.send h).length ≤ (t.recv stream).2 ∧ (t.recv stream).2 ≤ stream.length

/-- What follows the image of a buffer. -/
inductive Handle (H : Type*)
  | absent
  | fd (fd : Option ℕ)
  | hardware (handle : Option H)
  deriving DecidableEq, Repr

/-! ### Messages -/

inductive Msg (H : Type*)
  | sharedServerState (memfd : Option ℕ)
  /-- the `LorieBuffer` in memory and its handle -/
  | addBuffer (image : List UInt8) (handle : Handle H)
  | removeBuffer (id : UInt64)
  | clipboardSend (data : List UInt8)
  | clipboardRequest
  | windowFocusChanged
  | syncReply (serial : UInt32)
  deriving DecidableEq, Repr

variable {H : Type*}

/-- The type byte of a buffer's image. -/
def bufferType (image : List UInt8) : UInt8 := image.getD typeOffset 0

/-- What the server can send: descriptors and handles that are there, a whole buffer
with the handle of its type, and clipboard text, which is a C string. -/
def Msg.Sendable : Msg H → Prop
  | .sharedServerState memfd => memfd.isSome
  | .addBuffer image handle =>
    image.length = sizeofLorieBuffer ∧
      match handle with
      | .absent =>
        bufferType image ≠ lorieBufferFd ∧ bufferType image ≠ lorieBufferAhardwarebuffer
      | .fd fd => bufferType image = lorieBufferFd ∧ fd.isSome
      | .hardware handle => bufferType image = lorieBufferAhardwarebuffer ∧ handle.isSome
  | .clipboardSend data => ∀ b ∈ data, b ≠ 0
  | _ => True

/-! ### The server's side -/

/-- An event that carries a 32-bit number after its type. -/
def event32 (t : UInt8) (n : ℕ) : List UInt8 := eventBytes t ([0, 0, 0] ++ leBytes 4 n ++ [])

/-- An event that carries a 64-bit number after its type. -/
def event64 (t : UInt8) (n : ℕ) : List UInt8 :=
  eventBytes t ([0, 0, 0, 0, 0, 0, 0] ++ leBytes 8 n ++ [])

/-- `ancil_send_fd`, where there is a descriptor. -/
def sendFd : Option ℕ → List Cell
  | none => []
  | some fd => ancilSendFd fd

/-- `LorieBuffer_sendHandleToUnixSocket`. -/
def sendHandle (t : Transport H) (image : List UInt8) (handle : Handle H) : List Cell :=
  plain image ++
    match handle with
    | .absent => []
    | .fd fd => sendFd fd
    | .hardware handle => (handle.map t.send).getD []

/-- The event written for a message. -/
def event : Msg H → List UInt8
  | .sharedServerState _ => eventBytes eventSharedServerState []
  | .addBuffer _ _ => eventBytes eventAddBuffer []
  | .removeBuffer id => event64 eventRemoveBuffer id.toNat
  | .clipboardSend data => event32 eventClipboardSend data.length
  | .clipboardRequest => eventBytes eventClipboardRequest []
  | .windowFocusChanged => eventBytes eventWindowFocusChanged []
  | .syncReply serial => event32 eventSyncReply serial.toNat

/-- What is written after it. -/
def payload (t : Transport H) : Msg H → List Cell
  | .sharedServerState memfd => sendFd memfd
  | .addBuffer image handle => sendHandle t image handle
  | .clipboardSend data => plain data
  | _ => []

/-- `lorieSendSharedServerState`, `lorieRegisterBuffer`, `lorieUnregisterBuffer`,
`lorieSendClipboardData`, `lorieRequestClipboard`, `DDXNotifyFocusChanged` and
`lorieSendSyncReply`, each on its message. -/
def encode (t : Transport H) (msg : Msg H) : List Cell := plain (event msg) ++ payload t msg

def encodeAll (t : Transport H) (msgs : List (Msg H)) : List Cell := msgs.flatMap (encode t)

/-! ### The activity's side -/

/-- `LorieBuffer_recvHandleFromUnixSocket`: the image, as far as it could be read, and
the handle its type asks for. -/
def recvHandle (t : Transport H) (stream : List Cell) :
    Option ((List UInt8 × Handle H) × List Cell) :=
  (read sizeofLorieBuffer stream).bind fun (image, stream) =>
    if bufferType image = lorieBufferFd then
      (ancilRecvFd stream).map fun (fd, stream) => ((image, .fd fd), stream)
    else if bufferType image = lorieBufferAhardwarebuffer then
      some ((image, .hardware (t.recv stream).1), stream.drop (t.recv stream).2)
    else some ((image, .absent), stream)

/-- The text `xcallback` makes of a clipboard event that announces `count` bytes: it
reads `sizeof(clipboard)` bytes, the terminator's one included.  Of no bytes it makes no
text.  The outer `none` is also where `count + 1` wraps around to an empty array. -/
def recvClipboard (count : ℕ) (stream : List Cell) :
    Option (Option (List UInt8) × List Cell) :=
  if count = 0 then some (none, stream)
  else
    let size := (count + 1) % 2 ^ 32
    if size = 0 then none
    else (read size stream).map fun (clipboard, stream) =>
      (some ((clipboard.take count).takeWhile (· ≠ 0)), stream)

/-- One event of `xcallback`: the message it stands for, none if its type is not
handled or there is no text, and the stream after it. -/
def handleEvent (t : Transport H) (event : List UInt8) (stream : List Cell) :
    Option (Option (Msg H) × List Cell) :=
  if eventType event = eventClipboardSend then
    (recvClipboard (field 4 4 event) stream).map fun (data, stream) =>
      (data.map .clipboardSend, stream)
  else if eventType event = eventClipboardRequest then some (some .clipboardRequest, stream)
  else if eventType event = eventSharedServerState then
    (ancilRecvFd stream).map fun (fd, stream) => (some (.sharedServerState fd), stream)
  else if eventType event = eventAddBuffer then
    (recvHandle t stream).map fun (buffer, stream) =>
      (some (.addBuffer buffer.1 buffer.2), stream)
  else if eventType event = eventRemoveBuffer then
    some (some (.removeBuffer (UInt64.ofNat (field 8 8 event))), stream)
  else if eventType event = eventWindowFocusChanged then some (some .windowFocusChanged, stream)
  else if eventType event = eventSyncReply then
    some (some (.syncReply (UInt32.ofNat (field 4 4 event))), stream)
  else some (none, stream)

/-- `xcallback`, for as long as there is something to read. -/
def xcallback (t : Transport H) : ℕ → List Cell → Option (List (Msg H) × List Cell) :=
  receive (handleEvent t)

/-- The messages in a stream.  Each event takes 24 bytes, so there is fuel enough. -/
def decode (t : Transport H) (stream : List Cell) : Option (List (Msg H) × List Cell) :=
  xcallback t stream.length stream

/-! ### The condition -/

/-- A clipboard message with text. -/
def Msg.hasText : Msg H → Bool
  | .clipboardSend data => !data.isEmpty
  | _ => false

/-- A clipboard message without text. -/
def Msg.isEmptyText : Msg H → Bool
  | .clipboardSend data => data.isEmpty
  | _ => false

/-- What `xcallback` makes of a message that it reads whole. -/
def Msg.seen (msg : Msg H) : Option (Msg H) := Option.guard (fun m => !m.isEmptyText) msg

/-- The text's length and the terminator fit the 32 bits of `count + 1`. -/
def Msg.TextFits : Msg H → Prop
  | .clipboardSend data => data.length + 1 < 2 ^ 32
  | _ => True

/-- No message follows a clipboard message with text. -/
def TextLast : List (Msg H) → Prop
  | [] => True
  | msg :: msgs => (msg.hasText = true → msgs = []) ∧ TextLast msgs

/-! ### Decoding what was encoded -/

theorem event_length (msg : Msg H) : (event msg).length = sizeofEvent := by
  cases msg <;> exact eventBytes_length _ (by simp [sizeofEvent])

theorem field_event32 (t : UInt8) (n : ℕ) : field 4 4 (event32 t n) = n % 256 ^ 4 :=
  field_eventBytes t [0, 0, 0] 4 n []

theorem field_event64 (t : UInt8) (n : ℕ) : field 8 8 (event64 t n) = n % 256 ^ 8 :=
  field_eventBytes t [0, 0, 0, 0, 0, 0, 0] 8 n []

/-- A C string is read up to its end. -/
theorem takeWhile_text {data : List UInt8} (h : ∀ b ∈ data, b ≠ 0) :
    data.takeWhile (· ≠ 0) = data := by
  rw [List.takeWhile_eq_self_iff]
  intro b hb
  simpa using h b hb

/-- The text is read whole where nothing follows it. -/
theorem recvClipboard_last {data : List UInt8} (hne : data ≠ []) (htext : ∀ b ∈ data, b ≠ 0)
    (hfits : data.length + 1 < 2 ^ 32) :
    recvClipboard data.length (plain data) = some (some data, []) := by
  have hlen := List.length_pos_iff.mpr hne
  rw [recvClipboard, if_neg (by omega)]
  simp only [Nat.mod_eq_of_lt hfits, if_neg (Nat.succ_ne_zero _)]
  rw [read_plain_short hne (Nat.le_succ _), Option.map_some]
  simp only [List.take_length, takeWhile_text htext]

theorem recvHandle_send {t : Transport H} (ht : t.Sound) {image : List UInt8} {handle : Handle H}
    (h : (Msg.addBuffer image handle).Sendable) (rest : List Cell) :
    recvHandle t (sendHandle t image handle ++ rest) = some ((image, handle), rest) := by
  obtain ⟨hlen, htype⟩ := h
  rw [recvHandle, sendHandle.eq_def, List.append_assoc, read_plain hlen, Option.bind_some]
  rcases handle with _ | fd | handle
  · simp only at htype
    simp only [if_neg htype.1, if_neg htype.2, List.nil_append]
  · simp only at htype
    obtain ⟨fd, rfl⟩ := Option.isSome_iff_exists.mp htype.2
    simp only [if_pos htype.1, sendFd, ancilRecvFd_send, Option.map_some]
  · simp only at htype
    obtain ⟨handle, rfl⟩ := Option.isSome_iff_exists.mp htype.2
    have hfd : ¬ bufferType image = lorieBufferFd := by
      rw [htype.1]
      decide
    simp only [if_neg hfd, if_pos htype.1, Option.map_some, Option.getD_some, ht.recv_send,
      List.drop_left]

/-- An event is handled as the message it was written for, unless that is an empty text. -/
theorem handleEvent_encode {t : Transport H} (ht : t.Sound) {msg : Msg H} (hsend : msg.Sendable)
    (hfits : msg.TextFits) {rest : List Cell} (hlast : msg.hasText = true → rest = []) :
    handleEvent t (event msg) (payload t msg ++ rest) = some (msg.seen, rest) := by
  rcases msg with memfd | ⟨image, handle⟩ | id | data | _ | _ | serial
  · obtain ⟨fd, rfl⟩ := Option.isSome_iff_exists.mp hsend
    rfl
  · show (recvHandle t (sendHandle t image handle ++ rest)).map _ = _
    rw [recvHandle_send ht hsend, Option.map_some]
    rfl
  · show some (some (Msg.removeBuffer (UInt64.ofNat (field 8 8 (event64 _ id.toNat)))), _) = _
    rw [field_event64, Nat.mod_eq_of_lt (by exact id.toNat_lt), UInt64.ofNat_toNat]
    rfl
  · show (recvClipboard (field 4 4 (event32 _ data.length)) (plain data ++ rest)).map _ = _
    have hcount : data.length % 256 ^ 4 = data.length := by
      refine Nat.mod_eq_of_lt ?_
      have : data.length + 1 < 2 ^ 32 := hfits
      omega
    rw [field_event32, hcount]
    rcases hdata : data with _ | ⟨b, bs⟩
    · rfl
    · rw [← hdata, hlast (by rw [hdata]; rfl), List.append_nil,
        recvClipboard_last (by rw [hdata]; simp) hsend hfits, Option.map_some, hdata]
      rfl
  · rfl
  · rfl
  · show some (some (Msg.syncReply (UInt32.ofNat (field 4 4 (event32 _ serial.toNat)))), _) = _
    rw [field_event32, Nat.mod_eq_of_lt (by exact serial.toNat_lt), UInt32.ofNat_toNat]
    rfl

theorem encodeAll_cons (t : Transport H) (msg : Msg H) (msgs : List (Msg H)) :
    encodeAll t (msg :: msgs) = encode t msg ++ encodeAll t msgs := List.flatMap_cons

/-- What is true of a list's last elements where no message follows text. -/
theorem TextLast.of_suffix {msgs after : List (Msg H)} {msg : Msg H} (h : TextLast msgs)
    (hsuffix : msg :: after <:+ msgs) : msg.hasText = true → after = [] := by
  induction msgs with
  | nil => simp at hsuffix
  | cons m msgs ih =>
    rcases List.suffix_cons_iff.mp hsuffix with heq | hsuffix
    · obtain ⟨rfl, rfl⟩ := List.cons.inj heq
      exact h.1
    · exact ih h.2 hsuffix

theorem xcallback_encodeAll {t : Transport H} (ht : t.Sound) {msgs : List (Msg H)}
    (hsend : ∀ msg ∈ msgs, msg.Sendable) (hfits : ∀ msg ∈ msgs, msg.TextFits)
    (hlast : TextLast msgs) {fuel : ℕ} (hfuel : (encodeAll t msgs).length ≤ fuel) :
    xcallback t fuel (encodeAll t msgs) = some (msgs.filterMap Msg.seen, []) := by
  refine receive_filterMap (fun msg _ => event_length msg) (fun msg after hsuffix => ?_) hfuel
  have hmem : msg ∈ msgs := hsuffix.subset List.mem_cons_self
  refine handleEvent_encode ht (hsend msg hmem) (hfits msg hmem) fun htext => ?_
  rw [hlast.of_suffix hsuffix htext]
  rfl

/-! ### What decoding takes off the stream -/

/-- What one event and what follows it take off the stream: as much as its message
takes to send, and one byte more where it is clipboard text with more behind it. -/
structure Takes (t : Transport H) (msg : Msg H) (stream rest : List Cell) : Prop where
  fits : msg.TextFits
  length : (payload t msg).length + rest.length ≤ stream.length
  text : msg.hasText = true → rest ≠ [] → (payload t msg).length + rest.length < stream.length

theorem takes_of_length {t : Transport H} {msg : Msg H} {stream rest : List Cell}
    (hfits : msg.TextFits) (htext : msg.hasText = false)
    (hlen : (payload t msg).length + rest.length ≤ stream.length) : Takes t msg stream rest :=
  ⟨hfits, hlen, fun h => by rw [htext] at h; simp at h⟩

theorem recvClipboard_takes {t : Transport H} {event : List UInt8} {stream rest : List Cell}
    {data : List UInt8} (h : recvClipboard (field 4 4 event) stream = some (some data, rest)) :
    Takes t (.clipboardSend data) stream rest := by
  have hcount := field_lt 4 4 event
  rw [recvClipboard] at h
  split at h
  · simp at h
  next hne =>
    simp only at h
    split at h <;> [simp at h; skip]
    next hsize =>
      obtain ⟨⟨clipboard, rest'⟩, hread, heq⟩ := Option.map_eq_some_iff.mp h
      simp only [Prod.mk.injEq, Option.some_inj] at heq
      obtain ⟨hdata, rfl⟩ := heq
      obtain ⟨-, htotal, hfull⟩ := read_length hread
      -- the text is part of what was read, and shorter than the count
      have htake := (List.takeWhile_sublist (l := clipboard.take (field 4 4 event))
        (fun b => decide (b ≠ 0))).length_le
      rw [hdata, List.length_take] at htake
      refine ⟨?_, ?_, fun _ hmore => ?_⟩
      · show data.length + 1 < 2 ^ 32
        omega
      · rw [payload, plain_length]
        omega
      · have hall := hfull hmore
        rw [payload, plain_length]
        omega

theorem recvClipboard_none {count : ℕ} {stream rest : List Cell}
    (h : recvClipboard count stream = some (none, rest)) : rest = stream := by
  rw [recvClipboard] at h
  split at h
  · exact (Prod.mk.inj (Option.some_inj.mp h)).2.symm
  · simp only at h
    split at h
    · simp at h
    · obtain ⟨_, -, heq⟩ := Option.map_eq_some_iff.mp h
      simp at heq

theorem recvHandle_takes {t : Transport H} (ht : t.Sound) {stream rest : List Cell}
    {image : List UInt8} {handle : Handle H}
    (h : recvHandle t stream = some ((image, handle), rest)) :
    Takes t (.addBuffer image handle) stream rest := by
  refine takes_of_length trivial rfl ?_
  rw [recvHandle] at h
  obtain ⟨⟨image', stream'⟩, hread, h⟩ := Option.bind_eq_some_iff.mp h
  obtain ⟨-, htotal, -⟩ := read_length hread
  simp only at h
  rw [payload, sendHandle.eq_def, List.length_append, plain_length]
  split at h
  · obtain ⟨⟨fd, rest'⟩, hfd, heq⟩ := Option.map_eq_some_iff.mp h
    simp only [Prod.mk.injEq] at heq
    obtain ⟨⟨rfl, rfl⟩, rfl⟩ := heq
    have hone := ancilRecvFd_length hfd
    rcases fd with _ | fd
    · simp only [sendFd, List.length_nil]
      omega
    · simp only [sendFd, ancilSendFd, List.length_singleton]
      omega
  · split at h
    · simp only [Option.some_inj, Prod.mk.injEq] at h
      obtain ⟨⟨rfl, rfl⟩, rfl⟩ := h
      rw [List.length_drop]
      rcases hrecv : (t.recv stream').1 with _ | handle
      · simp only [Option.map_none, Option.getD_none, List.length_nil]
        omega
      · obtain ⟨hsent, hall⟩ := ht.recv_length stream' handle hrecv
        simp only [Option.map_some, Option.getD_some]
        omega
    · simp only [Option.some_inj, Prod.mk.injEq] at h
      obtain ⟨⟨rfl, rfl⟩, rfl⟩ := h
      simp only [List.length_nil]
      omega

theorem handleEvent_takes {t : Transport H} (ht : t.Sound) {event : List UInt8}
    {stream rest : List Cell} {msg : Option (Msg H)}
    (h : handleEvent t event stream = some (msg, rest)) :
    rest.length ≤ stream.length ∧ ∀ m, msg = some m → Takes t m stream rest := by
  have of_takes : ∀ {m rest}, Takes t m stream rest →
      rest.length ≤ stream.length ∧ ∀ m', some m = some m' → Takes t m' stream rest := by
    intro m rest htakes
    have hlen := htakes.length
    exact ⟨by omega, fun m' hm => Option.some_inj.mp hm ▸ htakes⟩
  have no_payload : ∀ m : Msg H, payload t m = [] → m.TextFits → m.hasText = false →
      some (some m, stream) = some (msg, rest) →
      rest.length ≤ stream.length ∧ ∀ m, msg = some m → Takes t m stream rest := by
    intro m hpayload hfits htext h
    obtain ⟨rfl, rfl⟩ := Prod.mk.inj (Option.some_inj.mp h)
    exact of_takes (takes_of_length hfits htext (by rw [hpayload, List.length_nil, Nat.zero_add]))
  rw [handleEvent] at h
  -- a text, a descriptor and a buffer follow their event; the others are the event alone
  split at h
  · obtain ⟨⟨data, rest'⟩, hclip, heq⟩ := Option.map_eq_some_iff.mp h
    obtain ⟨rfl, rfl⟩ := Prod.mk.inj heq
    cases data with
    | none =>
      obtain rfl := recvClipboard_none hclip
      exact ⟨le_rfl, fun m hm => by simp at hm⟩
    | some data => exact of_takes (recvClipboard_takes hclip)
  split at h
  · exact no_payload .clipboardRequest rfl trivial rfl h
  split at h
  · obtain ⟨⟨fd, rest'⟩, hfd, heq⟩ := Option.map_eq_some_iff.mp h
    obtain ⟨rfl, rfl⟩ := Prod.mk.inj heq
    have hone := ancilRecvFd_length hfd
    refine of_takes (takes_of_length trivial rfl ?_)
    rcases fd with _ | fd <;> simp only [payload, sendFd, ancilSendFd, List.length_nil,
      List.length_singleton] <;> omega
  split at h
  · obtain ⟨⟨⟨image, handle⟩, rest'⟩, hbuf, heq⟩ := Option.map_eq_some_iff.mp h
    obtain ⟨rfl, rfl⟩ := Prod.mk.inj heq
    exact of_takes (recvHandle_takes ht hbuf)
  split at h
  · exact no_payload (.removeBuffer _) rfl trivial rfl h
  split at h
  · exact no_payload .windowFocusChanged rfl trivial rfl h
  split at h
  · exact no_payload (.syncReply _) rfl trivial rfl h
  · obtain ⟨rfl, rfl⟩ := Prod.mk.inj (Option.some_inj.mp h)
    exact ⟨le_rfl, fun m hm => by simp at hm⟩

theorem encode_length (t : Transport H) (msg : Msg H) :
    (encode t msg).length = sizeofEvent + (payload t msg).length := by
  rw [encode, List.length_append, plain_length, event_length]

/-- Decoding takes at least what its messages take to send, and more than that if one
of them follows clipboard text. -/
theorem xcallback_takes {t : Transport H} (ht : t.Sound) : ∀ {fuel : ℕ} {stream left : List Cell}
    {msgs : List (Msg H)}, xcallback t fuel stream = some (msgs, left) →
      (∀ msg ∈ msgs, msg.TextFits) ∧ (encodeAll t msgs).length ≤ stream.length ∧
        (¬ TextLast msgs → (encodeAll t msgs).length < stream.length) := by
  have nothing : ∀ stream : List Cell, (∀ msg ∈ ([] : List (Msg H)), msg.TextFits) ∧
      (encodeAll t []).length ≤ stream.length ∧
        (¬ TextLast ([] : List (Msg H)) → (encodeAll t []).length < stream.length) :=
    fun stream => ⟨fun m hm => absurd hm List.not_mem_nil, Nat.zero_le _,
      fun hlast => absurd trivial hlast⟩
  intro fuel
  induction fuel with
  | zero =>
    intro stream left msgs h
    obtain ⟨rfl, rfl⟩ := Prod.mk.inj (Option.some_inj.mp h)
    exact nothing stream
  | succ fuel ih =>
    intro stream left msgs h
    rw [xcallback, receive] at h
    split at h
    · obtain ⟨rfl, rfl⟩ := Prod.mk.inj (Option.some_inj.mp h)
      exact nothing stream
    next hlong =>
      obtain ⟨⟨msg, rest⟩, hevent, h⟩ := Option.bind_eq_some_iff.mp h
      obtain ⟨⟨msgs', left'⟩, hrun, heq⟩ := Option.map_eq_some_iff.mp h
      simp only [Prod.mk.injEq] at heq
      obtain ⟨rfl, rfl⟩ := heq
      obtain ⟨hshrinks, htakes⟩ := handleEvent_takes ht hevent
      obtain ⟨hfits, hlen, hmore⟩ := ih hrun
      rw [List.length_drop] at hshrinks
      simp only [sizeofEvent] at hlong hshrinks
      -- an event of which nothing is seen takes cells all the same
      rcases msg with _ | msg
      · simp only [Option.toList_none, List.nil_append]
        exact ⟨hfits, by omega, fun hlast => by have := hmore hlast; omega⟩
      · simp only [Option.toList_some, List.singleton_append]
        have htake := htakes msg rfl
        have hsent := htake.length
        rw [encodeAll_cons, List.length_append, encode_length]
        rw [List.length_drop] at hsent
        simp only [sizeofEvent] at hsent ⊢
        refine ⟨fun m hm => ?_, by omega, fun hlast => ?_⟩
        · rcases List.mem_cons.mp hm with rfl | hm
          · exact htake.fits
          · exact hfits m hm
        · by_cases hlast' : TextLast msgs'
          · -- the text is this message's, and others follow
            have hfollow : msg.hasText = true ∧ msgs' ≠ [] := by
              by_contra hno
              rw [not_and, not_not] at hno
              exact hlast ⟨hno, hlast'⟩
            have hrest : rest ≠ [] := by
              rintro rfl
              rw [receive_nil, Option.some_inj, Prod.mk.injEq] at hrun
              exact hfollow.2 hrun.1.symm
            have hextra := htake.text hfollow.1 hrest
            rw [List.length_drop] at hextra
            simp only [sizeofEvent] at hextra
            omega
          · have := hmore hlast'
            omega

/-! ### When decoding undoes encoding -/

/-- All messages are seen exactly if there is no empty text. -/
theorem filterMap_seen_eq_self {msgs : List (Msg H)} :
    msgs.filterMap Msg.seen = msgs ↔ ∀ msg ∈ msgs, msg.isEmptyText = false := by
  have hfilter : msgs.filterMap Msg.seen = msgs.filter fun m => !m.isEmptyText := by
    rw [← List.filterMap_eq_filter]
    rfl
  rw [hfilter, List.filter_eq_self]
  simp only [Bool.not_eq_true']

/-- A transport that passes a handle with one byte, like a descriptor. -/
def oneByte : Transport ℕ where
  send h := [⟨33, some h⟩]
  recv
    | [] => (none, 0)
    | c :: _ => (c.fd, 1)

theorem oneByte_sound : oneByte.Sound where
  recv_send _ _ := rfl
  recv_length stream h hrecv := by
    rcases stream with _ | ⟨c, stream⟩
    · simp [oneByte] at hrecv
    · exact ⟨le_rfl, Nat.succ_le_succ (Nat.zero_le _)⟩

/-- The text "a" with a focus change behind it. -/
def textThenFocus : List (Msg ℕ) := [.clipboardSend [97], .windowFocusChanged]

end Lorie.ToActivity
