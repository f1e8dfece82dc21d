/-
The buffers of pixmaps: made, converted and imported (`InitOutput.c`).

A pixmap's rows are `devKind` bytes apart, and `fb` takes them in words.  An import over
DRI3 has the rows and the place in the file that the client says, and its buffer a stride
in words and a size worked out of that.

* `lorieCreatePixmap`, `lorieEnsureGpuSampleable`, `loriePixmapFromFds` — the code;
* `loriePixmapFromFds_inside_iff` — when the mapping holds the pixels of an import;
* `sameBytes_iff` — when both processes find a pixel at the same bytes of the file.
-/
import KaliGui.Lorie.BufferConvert
import KaliGui.Lorie.BufferHandover

namespace Lorie.Buffer

/-! ### Pixmaps -/

/-- `depths` and `bpp` of `InitOutput` -/
def formats : List (ℕ × ℕ) :=
  [(1, 1), (4, 8), (8, 8), (15, 16), (16, 16), (24, 32), (32, 32)]

/-- `BitsPerPixel` -/
def bitsPerPixel (depth : ℕ) : ℕ := (formats.lookup depth).getD 0

/-- `PixmapBytePad`: rows are padded to 32 bits. -/
def pixmapBytePad (width depth : ℕ) : ℕ := (width * bitsPerPixel depth + 31) / 32 * 4

/-- `LoriePixmapPriv` -/
structure LoriePixmapPriv where
  buffer : Option LorieBuffer := none
  flipped : Bool := false
  wasLocked : Bool := false
  imported : Bool := false
  locked : Option Region := none
  mem : Option Region := none

structure Pixmap where
  width : ℕ
  height : ℕ
  depth : ℕ
  bitsPerPixel : ℕ
  devKind : Int32
  priv : LoriePixmapPriv

/-- `ModifyPixmapHeader` of EXA, which is `lorieModifyPixmapHeader` and then
`miModifyPixmapHeader`, for the depth and the bits per pixel as they are. -/
def modifyPixmapHeader (p : Pixmap) (width height : ℕ) (devKind : Int32) (data : Option Region) :
    Pixmap :=
  let w := if 0 < width then width else p.width
  { p with
    width := w
    height := if 0 < height then height else p.height
    devKind :=
      if 0 < devKind then devKind
      else if devKind < 0 ∧ 0 < width then Int32.ofNat (pixmapBytePad w p.depth)
      else p.devKind
    priv.mem := data <|> p.priv.mem }

/-- `lorieCreatePixmap`, with the pitch. -/
def lorieCreatePixmap (os : Os) (id : UInt64) (width height : ℕ) (backed legacyDrawing : Bool) :
    Option (LoriePixmapPriv × Int32) :=
  if ¬ os.callocPriv then none
  else if width = 0 ∨ height = 0 then some ({}, 0)
  else
    let type := if ¬ backed then BufferType.regular
      else if legacyDrawing then .fd else .ahardwarebuffer
    (lorieBufferAllocate os id (Int32.ofNat width) (Int32.ofNat height) formatR8G8B8X8 type).map
      fun buffer =>
        let buffer := lorieBufferLock os buffer
        ({ buffer := some buffer, locked := buffer.lockedData }, buffer.desc.stride * 4)

/-- `CreatePixmap`, as `exaCreatePixmap_driver` makes them. -/
def createPixmap (os : Os) (id : UInt64) (width height depth : ℕ) (backed legacyDrawing : Bool) :
    Option Pixmap :=
  if 32767 < width ∨ 32767 < height then none
  else
    (lorieCreatePixmap os id width height backed legacyDrawing).map fun (priv, pitch) =>
      modifyPixmapHeader
        { width := 0, height := 0, depth, bitsPerPixel := bitsPerPixel depth, devKind := 0, priv }
        width height pitch none

/-- A pixmap without pixels has no buffer. -/
theorem createPixmap_empty {os : Os} {id : UInt64} {depth : ℕ} {backed legacyDrawing : Bool}
    {p : Pixmap} (h : createPixmap os id 0 0 depth backed legacyDrawing = some p) :
    p = { width := 0, height := 0, depth, bitsPerPixel := bitsPerPixel depth, devKind := 0,
          priv := {} } := by
  rw [createPixmap, if_neg (by decide)] at h
  obtain ⟨⟨priv, pitch⟩, hpriv, rfl⟩ := Option.map_eq_some_iff.mp h
  by_cases hcalloc : os.callocPriv = true
  · rw [lorieCreatePixmap, if_neg (not_not_intro hcalloc), if_pos (Or.inl rfl)] at hpriv
    obtain ⟨rfl, rfl⟩ := Prod.mk.inj (Option.some.inj hpriv)
    rfl
  · rw [lorieCreatePixmap, if_pos hcalloc] at hpriv
    contradiction

/-- `lorieEnsureGpuSampleable`: the buffer, if it is of the type then. -/
def lorieEnsureGpuSampleable (os : Os) (m : Memory) (p : Pixmap) (type : BufferType) :
    Option LorieBuffer × Pixmap × Memory :=
  match p.priv.buffer, p.priv.mem with
  | some b, none =>
    let (b', m') :=
      if b.desc.type = .regular then lorieBufferConvert os m b type formatR8G8B8X8 else (b, m)
    let p' :=
      -- the type tells whether the conversion was done
      if b.desc.type = .regular ∧ b'.desc.type ≠ .regular then
        let locked := lorieBufferLock os b'
        let p := modifyPixmapHeader p 0 0 (b'.desc.stride * 4) none
        { p with priv := { p.priv with buffer := some locked, locked := locked.lockedData } }
      else { p with priv := { p.priv with buffer := some b' } }
    (if b'.desc.type = type then p'.priv.buffer else none, p', m')
  | _, _ => (none, p, m)

section Ensure

variable {os : Os} {m : Memory} {p : Pixmap} {b : LorieBuffer} {type : BufferType}

/-- Nothing happens to a buffer that is not in the heap, or whose new storage is not given. -/
theorem lorieEnsureGpuSampleable_kept (hb : p.priv.buffer = some b) (hmem : p.priv.mem = none)
    (hkept : b.desc.type ≠ .regular ∨
      ∃ src, b.desc.data = some src ∧ target os b type formatR8G8B8X8 = none) :
    lorieEnsureGpuSampleable os m p type = (if b.desc.type = type then some b else none, p, m) := by
  have hsame : { p with priv := { p.priv with buffer := some b } } = p := by rw [← hb]
  by_cases htype : b.desc.type = .regular
  · obtain ⟨src, hsrc, ht⟩ := hkept.resolve_left (not_not_intro htype)
    have hconvert : lorieBufferConvert os m b type formatR8G8B8X8 = _ :=
      lorieBufferConvert_eq htype hsrc
    simp only [ht] at hconvert
    rw [lorieEnsureGpuSampleable, hb, hmem]
    simp only [htype, if_true, hconvert, ne_eq, not_true_eq_false, and_false, if_false, hsame, hb]
  · rw [lorieEnsureGpuSampleable, hb, hmem]
    simp only [htype, if_false, false_and, hsame, hb]

/-- A buffer in the heap that gets its new storage. -/
theorem lorieEnsureGpuSampleable_moved {src : Region} {t : Target} (hb : p.priv.buffer = some b)
    (hmem : p.priv.mem = none) (htype : b.desc.type = .regular) (hsrc : b.desc.data = some src)
    (ht : target os b type formatR8G8B8X8 = some t) :
    lorieEnsureGpuSampleable os m p type =
      (some (lorieBufferLock os (b.moved formatR8G8B8X8 t)),
        { modifyPixmapHeader p 0 0 ((b.moved formatR8G8B8X8 t).desc.stride * 4) none with
          priv := { p.priv with
            buffer := some (lorieBufferLock os (b.moved formatR8G8B8X8 t))
            locked := (lorieBufferLock os (b.moved formatR8G8B8X8 t)).lockedData } },
        (m.moved os b src t).free (some src)) := by
  have hconvert : lorieBufferConvert os m b type formatR8G8B8X8 = _ :=
    lorieBufferConvert_eq htype hsrc
  simp only [ht] at hconvert
  have hne : ¬ type = .regular := moved_type ht ▸ moved_ne_regular t
  rw [lorieEnsureGpuSampleable, hb, hmem]
  simp only [htype, if_true, hconvert, moved_type ht, ne_eq, hne, not_false_eq_true, and_self]
  rfl

end Ensure

/-! ### Imports -/

/-- What the descriptor of a client refers to: a file, or a socket that a hardware buffer
comes out of. -/
inductive ClientFd
  | file (file : ℕ)
  | socket (hands : Option AHardwareBuffer)
  deriving DecidableEq

/-- `DRM_FORMAT_MOD_INVALID`: the build's `drm_fourcc.h` has `-1`, here as a `CARD64`. -/
def drmFormatModInvalid : UInt64 := 0xffffffffffffffff

/-- `DRM_FORMAT_MOD_LINEAR` -/
def drmFormatModLinear : UInt64 := 0

/-- `RAW_MMAPPABLE_FD` -/
def rawMmappableFd : UInt64 := 1274

/-- `AHARDWAREBUFFER_SOCKET_FD` -/
def ahardwarebufferSocketFd : UInt64 := 1255

/-- `AHARDWAREBUFFER_FLIPPED_SOCKET_FD` -/
def ahardwarebufferFlippedSocketFd : UInt64 := 1256

/-- The arguments of an import, as the request handlers let them through. -/
structure Import where
  numFds : ℕ
  /-- `fds[0]` -/
  fd : ClientFd
  width : ℕ
  height : ℕ
  /-- `strides[0]` -/
  stride : UInt32
  /-- `offsets[0]` -/
  offset : UInt32
  depth : ℕ
  modifier : UInt64
  width_bounds : 0 < width ∧ width ≤ 32767
  height_bounds : 0 < height ∧ height ≤ 32767

/-- The modifiers whose descriptor is mapped. -/
def Import.Raw (i : Import) : Prop :=
  i.modifier = drmFormatModInvalid ∨ i.modifier = drmFormatModLinear ∨ i.modifier = rawMmappableFd

instance (i : Import) : Decidable i.Raw := inferInstanceAs (Decidable (_ ∨ _))

/-- An offset as an `off_t`, which has the bits of a `size_t`. -/
def Os.offT (os : Os) (offset : UInt32) : ℤ :=
  if os.sizeBits = 32 then offset.toInt32.toInt else offset.toNat

/-- `loriePixmapFromFds` -/
def loriePixmapFromFds (os : Os) (id : UInt64) (legacyDrawing : Bool) (i : Import) :
    Option Pixmap :=
  if 1 < i.numFds then none
  else if ¬ i.Raw ∧ i.modifier ≠ ahardwarebufferSocketFd ∧
      i.modifier ≠ ahardwarebufferFlippedSocketFd then none
  else
    (createPixmap os id 0 0 i.depth false legacyDrawing).bind fun pixmap =>
      let priv := { pixmap.priv with imported := true }
      if i.Raw then
        match i.fd with
        | .file file =>
          (lorieBufferWrapFileDescriptor os id (Int32.ofNat i.width) (i.stride / 4).toInt32
            (Int32.ofNat i.height) formatB8G8R8A8 file (os.offT i.offset)).map fun buffer =>
              modifyPixmapHeader { pixmap with priv := { priv with buffer := some buffer } }
                i.width i.height i.stride.toInt32 none
        -- sockets cannot be mapped
        | .socket _ => none
      else
        match i.fd with
        | .socket (some a) =>
          if os.api26 ∧ (a.format = 1 ∨ a.format = 2 ∨ a.format = 5) then
            (lorieBufferWrapAHardwareBuffer os id a).map fun buffer =>
              modifyPixmapHeader
                { pixmap with
                  priv := { priv with
                    flipped := i.modifier = ahardwarebufferFlippedSocketFd
                    buffer := some buffer } }
                a.width.toNat a.height.toNat (a.stride * 4).toInt32 none
          else none
        | _ => none

section Import

variable {os : Os} {id : UInt64} {legacyDrawing : Bool} {i : Import} {p : Pixmap}

/-- The stride of the buffer of an import, in pixels. -/
theorem importStride_toInt (i : Import) :
    (i.stride / 4).toInt32.toInt = (i.stride.toNat / 4 : ℕ) := by
  have hlt := i.stride.toNat_lt
  have hdiv : (i.stride / 4).toNat = i.stride.toNat / 4 := UInt32.toNat_div _ _
  have hint : (i.stride / 4).toInt32.toInt = (i.stride / 4).toNat :=
    BitVec.toInt_eq_toNat_of_lt (show 2 * (i.stride / 4).toNat < 2 ^ 32 by omega)
  rw [hint, hdiv]

theorem importHeight_toInt (i : Import) : (Int32.ofNat i.height).toInt = i.height := by
  have := i.height_bounds
  exact Int32.toInt_ofNat_of_lt (by omega)

/-- The pixmap of an import that is mapped. -/
theorem loriePixmapFromFds_raw (h : loriePixmapFromFds os id legacyDrawing i = some p)
    (hraw : i.Raw) :
    ∃ file data, i.fd = .file file ∧
      os.mmap (os.bytes (i.stride / 4).toInt32 (Int32.ofNat i.height)) file
        (os.offT i.offset) = some data ∧
      p.priv.buffer = some
        { initial id (Int32.ofNat i.width) (i.stride / 4).toInt32 (Int32.ofNat i.height)
            formatB8G8R8A8 .fd none (some file)
            (os.bytes (i.stride / 4).toInt32 (Int32.ofNat i.height)) (os.offT i.offset) with
          desc.data := some data } ∧
      (p.width = i.width ∧ p.height = i.height ∧ p.bitsPerPixel = bitsPerPixel i.depth) ∧
      p.devKind =
        if 0 < i.stride.toInt32 then i.stride.toInt32
        else if i.stride.toInt32 < 0 then Int32.ofNat (pixmapBytePad i.width i.depth) else 0 := by
  have hwidth := i.width_bounds.1
  have hheight := i.height_bounds.1
  have hfds : ¬ 1 < i.numFds := fun hmany => by
    rw [loriePixmapFromFds, if_pos hmany] at h
    contradiction
  rw [loriePixmapFromFds, if_neg hfds, if_neg fun hother => hother.1 hraw] at h
  obtain ⟨pixmap, hpixmap, hmade⟩ := Option.bind_eq_some_iff.mp h
  obtain rfl := createPixmap_empty hpixmap
  simp only [if_pos hraw] at hmade
  split at hmade
  · next file hfile =>
    obtain ⟨buffer, hbuffer, rfl⟩ := Option.map_eq_some_iff.mp hmade
    obtain ⟨-, file', data, hfile', hdata, rfl⟩ := allocate_fd hbuffer
    obtain rfl := Option.some.inj hfile'
    refine ⟨file, data, hfile, hdata, rfl, ⟨?_, ?_, rfl⟩, ?_⟩
    · simp [modifyPixmapHeader, hwidth]
    · simp [modifyPixmapHeader, hheight]
    · simp [modifyPixmapHeader, hwidth]
  · contradiction

/-- The other imports are hardware buffers. -/
theorem loriePixmapFromFds_hardware {b : LorieBuffer}
    (h : loriePixmapFromFds os id legacyDrawing i = some p) (hb : p.priv.buffer = some b)
    (hraw : ¬ i.Raw) : b.desc.type = .ahardwarebuffer := by
  have hfds : ¬ 1 < i.numFds := fun hmany => by
    rw [loriePixmapFromFds, if_pos hmany] at h
    contradiction
  have hknown : ¬ (¬ i.Raw ∧ i.modifier ≠ ahardwarebufferSocketFd ∧
      i.modifier ≠ ahardwarebufferFlippedSocketFd) := fun hother => by
    rw [loriePixmapFromFds, if_neg hfds, if_pos hother] at h
    contradiction
  rw [loriePixmapFromFds, if_neg hfds, if_neg hknown] at h
  obtain ⟨pixmap, -, hmade⟩ := Option.bind_eq_some_iff.mp h
  simp only [if_neg hraw] at hmade
  split at hmade
  · split at hmade
    · obtain ⟨buffer, hbuffer, rfl⟩ := Option.map_eq_some_iff.mp hmade
      obtain rfl := Option.some.inj hb
      exact allocate_type hbuffer
    · contradiction
  · contradiction

/-- The rows of an import, in words: those that an `int` does not hold are padded anew. -/
theorem importPitch_eq_iff (hbpp : bitsPerPixel i.depth = 32)
    (hkind : p.devKind =
      if 0 < i.stride.toInt32 then i.stride.toInt32
      else if i.stride.toInt32 < 0 then Int32.ofNat (pixmapBytePad i.width i.depth) else 0) :
    p.devKind.toInt.toNat / 4 = i.stride.toNat / 4 ↔ i.stride.toNat < 2 ^ 31 := by
  have hzero : (0 : Int32).toInt = 0 := by decide
  have hlt := i.stride.toNat_lt
  have hwidth := i.width_bounds
  by_cases hsmall : i.stride.toNat < 2 ^ 31
  · -- the rows are as the client says, unless it says none
    have hint : i.stride.toInt32.toInt = i.stride.toNat :=
      BitVec.toInt_eq_toNat_of_lt (show 2 * i.stride.toNat < 2 ^ 32 by omega)
    have hkind' : p.devKind.toInt = i.stride.toNat := by
      have hnonneg : ¬ i.stride.toInt32 < 0 := by
        rw [Int32.lt_iff_toInt_lt, hzero, hint]
        omega
      rw [hkind, if_neg hnonneg]
      split
      · exact hint
      · next hpos =>
        rw [Int32.lt_iff_toInt_lt, hzero, hint] at hpos
        omega
    rw [hkind']
    exact iff_of_true rfl hsmall
  · -- the rows are negative as an `int`, and padded from the width
    have hint : i.stride.toInt32.toInt = i.stride.toNat - 2 ^ 32 :=
      (BitVec.toInt_eq_toNat_cond _).trans (if_neg (show ¬ 2 * i.stride.toNat < 2 ^ 32 by omega))
    have hpad : pixmapBytePad i.width i.depth = i.width * 4 := by
      rw [pixmapBytePad, hbpp]
      omega
    have hkind' : p.devKind.toInt = i.width * 4 := by
      rw [hkind, if_neg, if_pos, hpad]
      · exact Int32.toInt_ofNat_of_lt (by omega)
      · rw [Int32.lt_iff_toInt_lt, hzero, hint]
        omega
      · rw [Int32.lt_iff_toInt_lt, hzero, hint]
        omega
    rw [hkind']
    omega

theorem offT_eq_zero {offset : UInt32} : os.offT offset = 0 ↔ offset = 0 := by
  rw [Os.offT]
  split
  · constructor
    · intro h
      have hint : offset.toInt32 = 0 := Int32.toInt_inj.mp h
      have hback : offset.toInt32.toUInt32 = offset := UInt32.toUInt32_toInt32 offset
      rw [← hback, hint]
      rfl
    · rintro rfl
      rfl
  · rw [← UInt32.toNat_inj]
    exact Int.ofNat_eq_zero

/-! ### The size of an import -/

/-- The size of the buffer is worked out without wrapping, and every pixel lies in the
mapping, in the rows that the client said. -/
def Inside (i : Import) (p : Pixmap) : Prop :=
  ∃ b data, (p.priv.buffer = some b ∧ b.desc.data = some data) ∧
    ((b.desc.stride * b.desc.height).toInt = b.desc.stride.toInt * b.desc.height.toInt ∧
      (data.length : ℤ) = b.desc.stride.toInt * b.desc.height.toInt * 4) ∧
    ∀ x y, x < i.width → y < i.height → y * i.stride.toNat + 4 * x + 4 ≤ data.length

/-- An import is all inside its mapping exactly when its rows, in whole words, fit the
types, and its last row ends before they do. -/
theorem loriePixmapFromFds_inside_iff (h : loriePixmapFromFds os id legacyDrawing i = some p)
    (hraw : i.Raw) :
    Inside i p ↔
      (i.stride.toNat / 4 * i.height < 2 ^ 31 ∧
        4 * (i.stride.toNat / 4 * i.height) < 2 ^ os.sizeBits) ∧
      (i.height - 1) * i.stride.toNat + 4 * i.width ≤ 4 * (i.stride.toNat / 4 * i.height) := by
  obtain ⟨file, data, -, hmmap, hbuffer, -⟩ := loriePixmapFromFds_raw h hraw
  obtain ⟨-, rfl⟩ := Os.mmap_eq_some.mp hmmap
  have hwidth := i.width_bounds
  have hheight := i.height_bounds
  have hstride := importStride_toInt i
  have hheight' := importHeight_toInt i
  have hproduct : (i.stride / 4).toInt32.toInt * (Int32.ofNat i.height).toInt =
      (i.stride.toNat / 4 * i.height : ℕ) := by
    rw [hstride, hheight', Int.natCast_mul]
  constructor
  · rintro ⟨b, data, ⟨hb, hdata⟩, ⟨hmul, hlength⟩, hinside⟩
    obtain rfl := Option.some.inj (hbuffer.symm.trans hb)
    obtain rfl := Option.some.inj hdata
    have hmul' : ((i.stride / 4).toInt32 * Int32.ofNat i.height).toInt =
        (i.stride.toNat / 4 * i.height : ℕ) := hmul.trans hproduct
    have hlength' : (os.bytes (i.stride / 4).toInt32 (Int32.ofNat i.height) : ℤ) =
        (i.stride.toNat / 4 * i.height : ℕ) * 4 := hlength.trans (congrArg (· * 4) hproduct)
    have hlt := Int32.toInt_lt ((i.stride / 4).toInt32 * Int32.ofNat i.height)
    have hbits := os.bytes_lt (i.stride / 4).toInt32 (Int32.ofNat i.height)
    -- the last pixel of all has to be inside
    have hlast : (i.height - 1) * i.stride.toNat + 4 * (i.width - 1) + 4 ≤
        os.bytes (i.stride / 4).toInt32 (Int32.ofNat i.height) :=
      hinside (i.width - 1) (i.height - 1) (by omega) (by omega)
    generalize i.stride.toNat / 4 * i.height = words at *
    omega
  · rintro ⟨⟨hfit, hbits⟩, hlast⟩
    have hbytes : (os.bytes (i.stride / 4).toInt32 (Int32.ofNat i.height) : ℤ) =
        4 * ((i.stride / 4).toInt32.toInt * (Int32.ofNat i.height).toInt) :=
      Os.bytes_eq (by omega) (by omega) (by rw [hproduct]; exact_mod_cast hbits)
    refine ⟨_, _, ⟨hbuffer, rfl⟩, ⟨mul_toInt ?_ ?_, hbytes.trans (Int.mul_comm 4 _)⟩, ?_⟩
    · exact hproduct ▸ Int.natCast_nonneg _
    · exact hproduct ▸ (by exact_mod_cast hfit)
    · -- no pixel ends behind the last one
      intro x y hx hy
      have hrow : y * i.stride.toNat ≤ (i.height - 1) * i.stride.toNat :=
        Nat.mul_le_mul_right _ (by omega)
      have hlength : os.bytes (i.stride / 4).toInt32 (Int32.ofNat i.height) =
          4 * (i.stride.toNat / 4 * i.height) := by omega
      dsimp only
      omega

/-- A client that says rows of one pixel for a pixmap of 32767. -/
def narrowImport : Import where
  numFds := 1
  fd := .file 0
  width := 32767
  height := 1
  stride := 4
  offset := 0
  depth := 24
  modifier := drmFormatModInvalid
  width_bounds := by decide
  height_bounds := by decide

def narrowPixmap : Pixmap := (loriePixmapFromFds Os.granting 0 false narrowImport).get rfl

theorem loriePixmapFromFds_inside_iff_narrow :
    Inside narrowImport narrowPixmap ↔
      (narrowImport.stride.toNat / 4 * narrowImport.height < 2 ^ 31 ∧
        4 * (narrowImport.stride.toNat / 4 * narrowImport.height) < 2 ^ Os.granting.sizeBits) ∧
      (narrowImport.height - 1) * narrowImport.stride.toNat + 4 * narrowImport.width ≤
        4 * (narrowImport.stride.toNat / 4 * narrowImport.height) :=
  loriePixmapFromFds_inside_iff (show loriePixmapFromFds Os.granting 0 false narrowImport =
    some narrowPixmap from rfl) (Or.inl rfl)

/-- Its buffer maps four bytes. -/
theorem loriePixmapFromFds_not_inside :
    ¬ ∀ (os : Os) (id : UInt64) (legacyDrawing : Bool) (i : Import) (p : Pixmap),
      loriePixmapFromFds os id legacyDrawing i = some p → i.Raw → Inside i p := by
  intro hall
  have hp : loriePixmapFromFds Os.granting 0 false narrowImport = some narrowPixmap := rfl
  obtain ⟨b, data, ⟨hb, hdata⟩, -, hinside⟩ := hall _ _ _ _ _ hp (Or.inl rfl)
  obtain ⟨file, data', -, hmmap, hbuffer, -⟩ := loriePixmapFromFds_raw hp (Or.inl rfl)
  obtain ⟨-, rfl⟩ := Os.mmap_eq_some.mp hmmap
  obtain rfl := Option.some.inj (hbuffer.symm.trans hb)
  obtain rfl := Option.some.inj hdata
  exact absurd (hinside 1 0 (by decide) (by decide))
    (show ¬ 0 * 4 + 4 * 1 + 4 ≤ Os.granting.bytes (4 / 4 : UInt32).toInt32 (Int32.ofNat 1) by
      decide)

end Import

/-! ### The same bytes in both processes -/

/-- The bytes of a pixel as `fb` finds them from the pixmap's data: rows are a whole number
of words apart. -/
def serverBytes (p : Pixmap) (data : Region) (x y : ℕ) : Storage × ℕ × ℕ :=
  let row := data.offset + y * (4 * (p.devKind.toInt.toNat / 4))
  (data.storage, row + x * p.bitsPerPixel / 8, row + ((x + 1) * p.bitsPerPixel + 7) / 8)

/-- The bytes of a pixel as `LorieBuffer_bindTexture` uploads them. -/
def activityBytes (r : LorieBuffer) (data : Region) (x y : ℕ) : Storage × ℕ × ℕ :=
  let first := data.offset + 4 * (y * r.desc.stride.toInt.toNat + x)
  (data.storage, first, first + 4)

/-- The server's buffer and the activity's have each pixel at the same bytes of the same
file. -/
def SameBytes (p : Pixmap) (b r : LorieBuffer) : Prop :=
  ∃ data data', (b.desc.data = some data ∧ r.desc.data = some data') ∧
    ∀ x y, x < p.width → y < p.height → serverBytes p data x y = activityBytes r data' x y

/-- How a pixmap comes to a buffer in a file. -/
inductive Origin
  | created (id : UInt64) (width height depth : ℕ) (backed legacyDrawing : Bool)
  | converted (id : UInt64) (width height depth : ℕ) (backed legacyDrawing : Bool) (m : Memory)
  | imported (id : UInt64) (legacyDrawing : Bool) (i : Import)

def Origin.make (os : Os) : Origin → Option Pixmap
  | created id width height depth backed legacyDrawing =>
    createPixmap os id width height depth backed legacyDrawing
  | converted id width height depth backed legacyDrawing m =>
    (createPixmap os id width height depth backed legacyDrawing).map fun p =>
      (lorieEnsureGpuSampleable os m p .fd).2.1
  | imported id legacyDrawing i => loriePixmapFromFds os id legacyDrawing i

/-- The pixels are words, and an import starts where its file does and has rows that an
`int` can hold. -/
def Origin.Plain : Origin → Prop
  | created _ _ _ depth _ _ => bitsPerPixel depth = 32
  | converted _ _ _ depth _ _ _ => bitsPerPixel depth = 32
  | imported _ _ i =>
    bitsPerPixel i.depth = 32 ∧ i.offset = 0 ∧ (i.height = 1 ∨ i.stride.toNat < 2 ^ 31)

theorem bitsPerPixel_cases (depth : ℕ) :
    bitsPerPixel depth = 0 ∨ bitsPerPixel depth = 1 ∨ bitsPerPixel depth = 8 ∨
      bitsPerPixel depth = 16 ∨ bitsPerPixel depth = 32 := by
  have hformats : ∀ f ∈ formats, f.2 = 1 ∨ f.2 = 8 ∨ f.2 = 16 ∨ f.2 = 32 := by decide
  rw [bitsPerPixel]
  cases hlookup : formats.lookup depth with
  | none => exact Or.inl rfl
  | some bpp =>
    obtain ⟨l, r, hsplit, -⟩ := List.lookup_eq_some_iff.mp hlookup
    exact Or.inr (hformats (depth, bpp) (by rw [hsplit]; simp))

/-- Rows a whole number of words apart, of pixels of a whole number of bytes: the two
processes agree exactly if the pixels are words and the first starts the file, and the rows
are equally far apart or there is but one. -/
theorem sameBytes_rows_iff {storage : Storage} {width height depth pitch stride offset : ℕ}
    (hwidth : 0 < width) (hheight : 0 < height) :
    (∀ x y, x < width → y < height →
      (storage, offset + y * (4 * pitch) + x * bitsPerPixel depth / 8,
          offset + y * (4 * pitch) + ((x + 1) * bitsPerPixel depth + 7) / 8) =
        (storage, 0 + 4 * (y * stride + x), 0 + 4 * (y * stride + x) + 4)) ↔
      bitsPerPixel depth = 32 ∧ offset = 0 ∧ (height = 1 ∨ pitch = stride) := by
  constructor
  · intro hsame
    obtain ⟨-, hfirst⟩ := Prod.mk.inj (hsame 0 0 hwidth hheight)
    obtain ⟨hstart, hend⟩ := Prod.mk.inj hfirst
    have hoffset : offset = 0 := by omega
    have hbpp : bitsPerPixel depth = 32 := by
      have := bitsPerPixel_cases depth
      omega
    refine ⟨hbpp, hoffset, ?_⟩
    by_cases hone : height = 1
    · exact Or.inl hone
    · obtain ⟨-, hsecond⟩ := Prod.mk.inj (hsame 0 1 hwidth (by omega))
      obtain ⟨hrow, -⟩ := Prod.mk.inj hsecond
      exact Or.inr (by omega)
  · rintro ⟨hbpp, rfl, hrows⟩ x y hx hy
    have hrow : y * (4 * pitch) = 4 * (y * stride) := by
      rcases hrows with rfl | rfl
      · obtain rfl : y = 0 := by omega
        omega
      · exact Nat.mul_left_comm y 4 pitch
    rw [hbpp, hrow]
    simp only [Prod.mk.injEq, true_and]
    omega

/-- Which bytes the pixels of a handed over file are: the activity maps it from its start
and takes the rows to be as far apart as the stride says. -/
theorem sameBytes_handover {server activity : Os} {p : Pixmap} {b r : LorieBuffer}
    {depth file offset length : ℕ} (hwidth : 0 < p.width) (hheight : 0 < p.height)
    (hbpp : p.bitsPerPixel = bitsPerPixel depth) (hfd : b.desc.type = .fd)
    (hfile : b.fd = some file) (hdata : b.desc.data = some ⟨.file file, offset, length⟩)
    (hr : lorieBufferRecvHandleFromUnixSocket activity
      (lorieBufferSendHandleToUnixSocket server b) = some r) :
    SameBytes p b r ↔
      bitsPerPixel depth = 32 ∧ offset = 0 ∧
        (p.height = 1 ∨ p.devKind.toInt.toNat / 4 = b.desc.stride.toInt.toNat) := by
  obtain ⟨hsame, -, -, hmap⟩ := recvHandle_spec hr
  obtain ⟨file', data, hfile', hmmap, hdata'⟩ := hmap hfd
  have hsent : (lorieBufferSendHandleToUnixSocket server b).fd = some file := by
    rw [lorieBufferSendHandleToUnixSocket, ← hfile]
    exact if_pos hfd
  obtain rfl := Option.some.inj (hfile'.symm.trans hsent)
  obtain ⟨-, rfl⟩ := Os.mmap_eq_some.mp hmmap
  have hstride : r.desc.stride = b.desc.stride := hsame.stride
  rw [← @sameBytes_rows_iff (.file file') _ _ _ _ _ _ hwidth hheight]
  constructor
  · rintro ⟨d, d', ⟨hd, hd'⟩, hbytes⟩ x y hx hy
    obtain rfl := Option.some.inj (hdata.symm.trans hd)
    obtain rfl := Option.some.inj (hdata'.symm.trans hd')
    have hxy := hbytes x y hx hy
    rw [serverBytes, activityBytes, hbpp, hstride] at hxy
    exact hxy
  · intro hbytes
    refine ⟨_, _, ⟨hdata, hdata'⟩, fun x y hx hy => ?_⟩
    rw [serverBytes, activityBytes, hbpp, hstride]
    exact hbytes x y hx hy

/-! #### Buffers of the server -/

/-- A pixmap on a file that the server made for it. -/
structure Own (p : Pixmap) (b : LorieBuffer) : Prop where
  width_bounds : 0 < p.width ∧ p.width ≤ 32767
  height_pos : 0 < p.height
  stride : b.desc.stride = Int32.ofNat p.width
  devKind : p.devKind = b.desc.stride * 4
  file : ∃ file length, b.fd = some file ∧ b.desc.data = some ⟨.file file, 0, length⟩

section Server

variable {os : Os} {id : UInt64} {width height depth : ℕ} {backed legacyDrawing : Bool}
  {p : Pixmap} {b : LorieBuffer}

theorem toInt_ofNat_small {n : ℕ} (h : n ≤ 32767) : (Int32.ofNat n).toInt = n :=
  Int32.toInt_ofNat_of_lt (by omega)

theorem pitch_toInt {n : ℕ} (h : n ≤ 32767) : (Int32.ofNat n * 4).toInt = n * 4 := by
  have hfour : (4 : Int32).toInt = 4 := by decide
  rw [mul_toInt, toInt_ofNat_small h, hfour]
  all_goals rw [toInt_ofNat_small h, hfour]; omega

theorem pitch_pos {n : ℕ} (h : 0 < n ∧ n ≤ 32767) : 0 < Int32.ofNat n * 4 := by
  have hzero : (0 : Int32).toInt = 0 := by decide
  rw [Int32.lt_iff_toInt_lt, pitch_toInt h.2, hzero]
  omega

/-- A pixmap that has a buffer has pixels, and rows as far apart as the buffer's. -/
theorem createPixmap_spec
    (h : createPixmap os id width height depth backed legacyDrawing = some p)
    (hb : p.priv.buffer = some b) :
    ((0 < width ∧ width ≤ 32767) ∧ 0 < height ∧ height ≤ 32767) ∧
      (p.width = width ∧ p.height = height ∧ p.bitsPerPixel = bitsPerPixel depth) ∧
      p.priv.mem = none ∧
      (b.desc.stride = Int32.ofNat width → p.devKind = b.desc.stride * 4) ∧
      ∃ b₀, lorieBufferAllocate os id (Int32.ofNat width) (Int32.ofNat height) formatR8G8B8X8
          (if ¬ backed then .regular else if legacyDrawing then .fd else .ahardwarebuffer) =
            some b₀ ∧
        b = lorieBufferLock os b₀ := by
  by_cases hsize : 32767 < width ∨ 32767 < height
  · rw [createPixmap, if_pos hsize] at h
    contradiction
  rw [createPixmap, if_neg hsize] at h
  obtain ⟨⟨priv, pitch⟩, hpriv, rfl⟩ := Option.map_eq_some_iff.mp h
  have hcalloc : ¬ ¬ os.callocPriv = true := fun hno => by
    rw [lorieCreatePixmap, if_pos hno] at hpriv
    contradiction
  rw [lorieCreatePixmap, if_neg hcalloc] at hpriv
  by_cases hempty : width = 0 ∨ height = 0
  · -- an empty pixmap gets no buffer
    rw [if_pos hempty] at hpriv
    obtain ⟨rfl, -⟩ := Prod.mk.inj (Option.some.inj hpriv)
    contradiction
  rw [if_neg hempty] at hpriv
  obtain ⟨b₀, hb₀, hmade⟩ := Option.map_eq_some_iff.mp hpriv
  obtain ⟨rfl, rfl⟩ := Prod.mk.inj hmade
  obtain rfl := Option.some.inj hb
  have hwidth : 0 < width := by omega
  have hheight : 0 < height := by omega
  refine ⟨by omega, ⟨if_pos hwidth, if_pos hheight, rfl⟩, rfl, fun hstride => if_pos ?_, b₀, hb₀,
    rfl⟩
  rw [hstride]
  exact pitch_pos (by omega)

theorem own_created (h : createPixmap os id width height depth backed legacyDrawing = some p)
    (hb : p.priv.buffer = some b) (hfd : b.desc.type = .fd) : Own p b := by
  obtain ⟨⟨hwidth, hheight, -⟩, ⟨hw, hh, -⟩, -, hpitch, b₀, hb₀, rfl⟩ := createPixmap_spec h hb
  rw [lorieBufferLock_desc] at hfd
  rw [(lorieBufferAllocate_type hb₀).symm.trans hfd] at hb₀
  obtain ⟨hstride, file, length, hfile, hdata⟩ := lorieBufferAllocate_fd hb₀
  have hstride' : (lorieBufferLock os b₀).desc.stride = Int32.ofNat width := by
    rw [lorieBufferLock_desc, hstride]
  exact {
    width_bounds := by rw [hw]; exact hwidth
    height_pos := by rw [hh]; exact hheight
    stride := by rw [hw, hstride']
    devKind := hpitch hstride'
    file := ⟨file, length, by rw [lorieBufferLock_fd, hfile], by
      rw [lorieBufferLock_desc, hdata]⟩ }

/-- A buffer of the heap that moves to a file gets one of its own. -/
theorem target_fd {format : UInt8} {t : Target} (ht : target os b .fd format = some t) :
    ∃ file size length, t = .file file size ⟨.file file, 0, length⟩ := by
  rw [target.eq_def] at ht
  split at ht
  · contradiction
  obtain ⟨file, -, hmap⟩ := Option.bind_eq_some_iff.mp ht
  obtain ⟨data, hdata, rfl⟩ := Option.map_eq_some_iff.mp hmap
  obtain ⟨-, rfl⟩ := Os.mmap_eq_some.mp hdata
  exact ⟨file, _, _, rfl⟩

theorem own_converted {p₀ : Pixmap} {m : Memory}
    (h : createPixmap os id width height depth backed legacyDrawing = some p₀)
    (hp : (lorieEnsureGpuSampleable os m p₀ .fd).2.1 = p) (hb : p.priv.buffer = some b)
    (hfd : b.desc.type = .fd) : Own p b ∧ p.bitsPerPixel = bitsPerPixel depth := by
  subst hp
  cases hb₀ : p₀.priv.buffer with
  | none =>
    -- without a buffer there is nothing to convert
    have hsame : (lorieEnsureGpuSampleable os m p₀ .fd).2.1 = p₀ := by
      rw [lorieEnsureGpuSampleable, hb₀]
    rw [hsame, hb₀] at hb
    contradiction
  | some b₀ =>
    obtain ⟨⟨hwidth, hheight, -⟩, ⟨hw, hh, hbpp⟩, hmem, hpitch, b₁, hb₁, rfl⟩ :=
      createPixmap_spec h hb₀
    by_cases htype : b₁.desc.type = .regular
    · rw [(lorieBufferAllocate_type hb₁).symm.trans htype] at hb₁
      obtain ⟨-, block, -, hmade⟩ := allocate_regular hb₁
      have hstride : b₁.desc.stride = Int32.ofNat width := by rw [hmade]; rfl
      have hdata : (lorieBufferLock os b₁).desc.data =
          some ⟨.heap block, 0, os.bytes (Int32.ofNat width) (Int32.ofNat height)⟩ := by
        rw [lorieBufferLock_desc, hmade]
      cases ht : target os (lorieBufferLock os b₁) .fd formatR8G8B8X8 with
      | none =>
        -- the conversion fails, and the buffer stays the one in main memory
        rw [lorieEnsureGpuSampleable_kept hb₀ hmem (Or.inr ⟨_, hdata, ht⟩)] at hb
        obtain rfl := Option.some.inj (hb₀.symm.trans hb)
        rw [lorieBufferLock_desc, htype] at hfd
        contradiction
      | some t =>
        -- the rows in the new file are as far apart as those of the pixmap
        obtain ⟨file, size, length, rfl⟩ := target_fd ht
        rw [lorieEnsureGpuSampleable_moved hb₀ hmem (by rw [lorieBufferLock_desc, htype]) hdata
          ht] at hb ⊢
        obtain rfl := Option.some.inj hb
        have hmoved : ((lorieBufferLock os b₁).moved formatR8G8B8X8
            (.file file size ⟨.file file, 0, length⟩)).desc.stride = Int32.ofNat width := by
          rw [← hstride, ← lorieBufferLock_desc os b₁]
          rfl
        have hpos := pitch_pos hwidth
        rw [← hmoved] at hpos
        exact ⟨{
          width_bounds := show 0 < p₀.width ∧ p₀.width ≤ 32767 by rw [hw]; exact hwidth
          height_pos := show 0 < p₀.height by rw [hh]; exact hheight
          stride := by rw [lorieBufferLock_desc, hmoved]; exact congrArg Int32.ofNat hw.symm
          devKind := by rw [lorieBufferLock_desc]; exact if_pos hpos
          file := ⟨file, length, by rw [lorieBufferLock_fd]; rfl, by
            rw [lorieBufferLock_desc]; rfl⟩ }, hbpp⟩
    · have hkept : lorieEnsureGpuSampleable os m _ .fd = _ := lorieEnsureGpuSampleable_kept hb₀ hmem
        (Or.inl (by rw [lorieBufferLock_desc]; exact htype))
      rw [hkept] at hb ⊢
      exact ⟨own_created h hb hfd, hbpp⟩

end Server

/-- Both processes find each pixel of a buffer in a file at the same bytes exactly if the
pixels are words and an import is mapped from the start of its file, with rows that an
`int` holds unless there is but one. -/
theorem sameBytes_iff {server activity : Os} {origin : Origin} {p : Pixmap} {b r : LorieBuffer}
    (hp : origin.make server = some p) (hb : p.priv.buffer = some b) (hfd : b.desc.type = .fd)
    (hr : lorieBufferRecvHandleFromUnixSocket activity
      (lorieBufferSendHandleToUnixSocket server b) = some r) :
    SameBytes p b r ↔ origin.Plain := by
  -- rows of a pixmap that the server made are as far apart as the stride says
  have hown {depth : ℕ} (h : Own p b) (hbpp : p.bitsPerPixel = bitsPerPixel depth) :
      SameBytes p b r ↔ bitsPerPixel depth = 32 := by
    obtain ⟨file, length, hfile, hdata⟩ := h.file
    have hpitch := pitch_toInt h.width_bounds.2
    have hstride := toInt_ofNat_small h.width_bounds.2
    have hrows : p.devKind.toInt.toNat / 4 = b.desc.stride.toInt.toNat := by
      rw [h.devKind, h.stride, hpitch, hstride]
      omega
    rw [sameBytes_handover h.width_bounds.1 h.height_pos hbpp hfd hfile hdata hr]
    simp only [hrows, or_true, and_true]
  cases origin with
  | created id width height depth backed legacyDrawing =>
    exact hown (own_created hp hb hfd) (createPixmap_spec hp hb).2.1.2.2
  | converted id width height depth backed legacyDrawing m =>
    obtain ⟨p₀, hp₀, hmade⟩ := Option.map_eq_some_iff.mp hp
    obtain ⟨h, hbpp⟩ := own_converted hp₀ hmade hb hfd
    exact hown h hbpp
  | imported id legacyDrawing i =>
    have hraw : i.Raw := Decidable.byContradiction fun hother => by
      rw [loriePixmapFromFds_hardware hp hb hother] at hfd
      contradiction
    obtain ⟨file, data, -, hmmap, hbuffer, ⟨hw, hh, hbpp⟩, hkind⟩ :=
      loriePixmapFromFds_raw hp hraw
    obtain ⟨⟨hsize, hoffset, -⟩, rfl⟩ := Os.mmap_eq_some.mp hmmap
    obtain rfl := Option.some.inj (hbuffer.symm.trans hb)
    have hwidth := i.width_bounds
    have hheight := i.height_bounds
    rw [sameBytes_handover (by rw [hw]; exact hwidth.1) (by rw [hh]; exact hheight.1) hbpp rfl rfl
      rfl hr, hh]
    have hstride := importStride_toInt i
    have hoffset' : (server.offT i.offset).toNat = 0 ↔ i.offset = 0 := by
      rw [← @offT_eq_zero server]
      omega
    refine and_congr_right fun hwords => and_congr hoffset' (or_congr_right ?_)
    dsimp only [initial]
    rw [hstride, Int.toNat_natCast]
    exact importPitch_eq_iff hwords hkind

/-- A client's pixel on the second page of its file. -/
def secondPage : Import where
  numFds := 1
  fd := .file 0
  width := 1
  height := 1
  stride := 4
  offset := 4096
  depth := 24
  modifier := drmFormatModLinear
  width_bounds := by decide
  height_bounds := by decide

def secondPagePixmap : Pixmap := (loriePixmapFromFds Os.granting 0 false secondPage).get rfl

def secondPageBuffer : LorieBuffer := secondPagePixmap.priv.buffer.get rfl

/-- The buffer in the activity. -/
def secondPageReceived : LorieBuffer :=
  (lorieBufferRecvHandleFromUnixSocket Os.granting
    (lorieBufferSendHandleToUnixSocket Os.granting secondPageBuffer)).get rfl

theorem sameBytes_iff_secondPage :
    SameBytes secondPagePixmap secondPageBuffer secondPageReceived ↔
      (Origin.imported 0 false secondPage).Plain :=
  sameBytes_iff (show (Origin.imported 0 false secondPage).make Os.granting =
      some secondPagePixmap from rfl) rfl rfl
    (show lorieBufferRecvHandleFromUnixSocket Os.granting
      (lorieBufferSendHandleToUnixSocket Os.granting secondPageBuffer) =
        some secondPageReceived from rfl)

/-- The activity shows the first page of it. -/
theorem not_sameBytes :
    ¬ ∀ (server activity : Os) (origin : Origin) (p : Pixmap) (b r : LorieBuffer),
      origin.make server = some p → p.priv.buffer = some b → b.desc.type = .fd →
      lorieBufferRecvHandleFromUnixSocket activity
          (lorieBufferSendHandleToUnixSocket server b) = some r →
        SameBytes p b r := by
  intro hall
  obtain ⟨data, data', ⟨hdata, hdata'⟩, hbytes⟩ := hall Os.granting Os.granting
    (.imported 0 false secondPage) secondPagePixmap secondPageBuffer secondPageReceived
    rfl rfl rfl rfl
  have hserver : some ⟨.file 0, 4096, 4⟩ = some data := hdata
  have hactivity : some ⟨.file 0, 0, 4⟩ = some data' := hdata'
  obtain rfl := Option.some.inj hserver
  obtain rfl := Option.some.inj hactivity
  exact absurd (hbytes 0 0 (by decide) (by decide)) (by decide)

end Lorie.Buffer
