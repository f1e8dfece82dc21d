/-
Whether a conversion keeps the pixels (`LorieBuffer_convert` in `buffer.c`).

A buffer in the heap moves to a new file or a new hardware buffer.  Where the new storage
cannot be had the buffer stays as it was; once it is had, the buffer changes over to it
whether the pixels were copied or not.

* `target` — the new storage;
* `lorieBufferConvert_eq` — the two outcomes;
* `lorieBufferConvert_atomic_iff` — when no pixel is lost.
-/
import KaliGui.Lorie.Buffer

namespace Lorie.Buffer

/-! ### Pixels -/

/-- Where the pixels of a buffer are. -/
def LorieBuffer.region (b : LorieBuffer) : Option Region :=
  match b.desc.type with
  | .regular | .fd => b.desc.data
  | .ahardwarebuffer => b.desc.buffer.map AHardwareBuffer.region
  | .unknown => none

/-- The pixel in column `x` of row `y`. -/
def LorieBuffer.pixel (b : LorieBuffer) (m : Memory) (x y : ℕ) : Option (List UInt8) :=
  b.region.bind fun r => m.word r (4 * (y * b.desc.stride.toInt.toNat + x))

/-- A buffer in the heap as `allocate` makes it, with products that its types can hold. -/
structure Regular (os : Os) (m : Memory) (b : LorieBuffer) : Prop where
  type : b.desc.type = .regular
  width_pos : 0 < b.desc.width.toInt
  width_le : b.desc.width.toInt ≤ b.desc.stride.toInt
  height_pos : 0 < b.desc.height.toInt
  data : ∃ block, block ∉ m.freed ∧ b.desc.data =
    some ⟨.heap block, 0, 4 * (b.desc.stride.toInt.toNat * b.desc.height.toInt.toNat)⟩
  product : b.desc.stride.toInt * b.desc.height.toInt < 2 ^ 31
  pages : 4 * (b.desc.stride.toInt * b.desc.height.toInt) + os.pageSize ≤ 2 ^ os.sizeBits

variable {os : Os} {m : Memory} {b : LorieBuffer} {type : BufferType} {format : UInt8}

/-- The bytes of a pixel lie in the rows. -/
theorem pixel_lt {stride height x y : ℕ} (hx : x < stride) (hy : y < height) :
    4 * (y * stride + x) + 4 ≤ 4 * (stride * height) := by
  have hrow : (y + 1) * stride ≤ height * stride := Nat.mul_le_mul_right _ hy
  rw [Nat.add_mul, Nat.one_mul] at hrow
  rw [Nat.mul_comm stride height]
  omega

/-- Where a byte of a pixel is among the rows. -/
theorem pixel_div_mod {stride x k : ℕ} (hx : x < stride) (hk : k < 4) (y : ℕ) :
    (4 * (y * stride + x) + k) / (4 * stride) = y ∧
      (4 * (y * stride + x) + k) % (4 * stride) = 4 * x + k := by
  have hlt : 4 * x + k < 4 * stride := by omega
  have hsplit : 4 * (y * stride + x) + k = 4 * x + k + 4 * stride * y := by
    rw [Nat.mul_assoc 4 stride y, Nat.mul_comm stride y]
    omega
  have hpos : 0 < 4 * stride := by omega
  rw [hsplit, Nat.add_mul_div_left _ _ hpos, Nat.add_mul_mod_self_left,
    Nat.div_eq_of_lt hlt, Nat.mod_eq_of_lt hlt]
  exact ⟨Nat.zero_add y, rfl⟩

/-- `pixman_blt` copies the pixels, row by row, from one stride to the other. -/
theorem word_pixmanBlt {src dst : Region} {srcStride dstStride width height x y : ℕ}
    (hblt : os.pixmanBlt = true) (hx : x < width) (hwidth : width ≤ dstStride) (hy : y < height)
    (hlive : m.Live src.storage) (hdst : m.Live dst.storage)
    (hin : 4 * (y * srcStride + x) + 4 ≤ src.length)
    (hout : 4 * (y * dstStride + x) + 4 ≤ dst.length) :
    (pixmanBlt os m src dst srcStride dstStride width height).word dst (4 * (y * dstStride + x)) =
      m.word src (4 * (y * srcStride + x)) := by
  have hbyte : ∀ k ∈ List.range 4,
      (pixmanBlt os m src dst srcStride dstStride width height).byte dst.storage
          (dst.offset + 4 * (y * dstStride + x) + k) =
        m.byte src.storage (src.offset + 4 * (y * srcStride + x) + k) := by
    intro k hk
    obtain ⟨hdiv, hmod⟩ := pixel_div_mod (Nat.lt_of_lt_of_le hx hwidth) (List.mem_range.mp hk) y
    have hsub : dst.offset + 4 * (y * dstStride + x) + k - dst.offset =
        4 * (y * dstStride + x) + k := by omega
    have hrows : InRows dstStride width height (4 * (y * dstStride + x) + k) := by
      rw [InRows, hdiv, hmod]
      have := List.mem_range.mp hk
      omega
    have haddr : y * (4 * srcStride) + (4 * x + k) = 4 * (y * srcStride + x) + k := by
      rw [Nat.mul_left_comm]
      omega
    simp only [pixmanBlt, hblt, if_true, hsub, hrows, hdiv, hmod, haddr, and_true, true_and]
    rw [if_pos (by omega), Nat.add_assoc src.offset]
  have hliveDst : (pixmanBlt os m src dst srcStride dstStride width height).Live dst.storage := by
    cases hs : dst.storage <;> simp_all [pixmanBlt, Memory.Live]
  rw [Memory.word, Memory.word, if_pos ⟨hliveDst, hout⟩, if_pos ⟨hlive, hin⟩]
  exact congrArg some (List.map_congr_left hbyte)

/-- Giving back one storage leaves the others. -/
theorem word_free {r src : Region} (n : ℕ) (h : r.storage ≠ src.storage) :
    (m.free (some src)).word r n = m.word r n := by
  obtain ⟨block | file | id, offset, length⟩ := src
  · have hlive : (m.free (some ⟨.heap block, offset, length⟩)).Live r.storage ↔
        m.Live r.storage := by
      cases hs : r.storage with
      | heap other =>
        have hne : other ≠ block := fun he => h (by rw [hs, he])
        simp [Memory.free, Memory.Live, hne]
      | file | ahardwarebuffer => exact Iff.rfl
    simp only [Memory.word, hlive]
    rfl
  · rfl
  · rfl

/-! ### The new storage -/

/-- What a buffer moves to. -/
inductive Target
  | file (file size : ℕ) (data : Region)
  | hardware (a : AHardwareBuffer)

def Target.region : Target → Region
  | .file _ _ data => data
  | .hardware a => a.region

def Target.stride (b : LorieBuffer) : Target → ℕ
  | .file .. => b.desc.stride.toInt.toNat
  | .hardware a => a.stride.toNat

/-- Whether the pixels are copied to it: hardware buffers must be locked for that. -/
def Target.Copied (os : Os) : Target → Prop
  | .file .. => os.pixmanBlt = true
  | .hardware a => os.aHardwareBufferLock a = true ∧ os.pixmanBlt = true

/-- The storage the system gives for a conversion, if it is one that `convert` does. -/
def target (os : Os) (b : LorieBuffer) (type : BufferType) (format : UInt8) : Option Target :=
  if format ≠ formatR8G8B8X8 ∧ format ≠ formatB8G8R8A8 then none
  else
    match type with
    | .fd =>
      let size := os.alignToPage (os.bytes b.desc.stride b.desc.height)
      (os.createRegion size).bind fun file =>
        (os.mmap size file 0).map fun data => .file file size data
    | .ahardwarebuffer =>
      if os.api26 then
        (os.aHardwareBufferAllocate b.desc.width.toUInt32 b.desc.height.toUInt32 format).map
          .hardware
      else none
    | _ => none

/-- The buffer on its new storage. -/
def LorieBuffer.moved (b : LorieBuffer) (format : UInt8) : Target → LorieBuffer
  | .file file size data =>
    { b with
      desc.type := .fd, desc.format := format, fd := some file, size, offset := 0,
      desc.data := some data, lockedData := none, locked := 0 }
  | .hardware a =>
    { b with
      desc.type := .ahardwarebuffer, desc.format := format, desc.stride := a.stride.toInt32,
      desc.buffer := some a, desc.data := none, lockedData := none, locked := 0 }

/-- The memory after a move of the pixels of a region. -/
def Memory.moved (m : Memory) (os : Os) (b : LorieBuffer) (src : Region) (t : Target) : Memory :=
  let copied := pixmanBlt os m src t.region b.desc.stride.toInt.toNat (t.stride b)
    b.desc.width.toInt.toNat b.desc.height.toInt.toNat
  match t with
  | .file .. => copied
  | .hardware a => if os.aHardwareBufferLock a then copied else m

/-- A conversion changes nothing, or moves the buffer to the storage given. -/
theorem lorieBufferConvert_eq {src : Region} (htype : b.desc.type = .regular)
    (hsrc : b.desc.data = some src) :
    lorieBufferConvert os m b type format =
      match target os b type format with
      | none => (b, m)
      | some t => (b.moved format t, (m.moved os b src t).free (some src)) := by
  rw [lorieBufferConvert, target.eq_def]
  by_cases hformat : format ≠ formatR8G8B8X8 ∧ format ≠ formatB8G8R8A8
  · rw [if_pos (Or.inr (Or.inr hformat)), if_pos hformat]
  rw [if_neg hformat]
  cases type with
  | unknown | regular => rw [if_pos (Or.inr (Or.inl ⟨by decide, by decide⟩))]
  | fd =>
    rw [if_neg (by simp only [htype, hformat]; decide), if_pos rfl]
    cases hfile : os.createRegion (os.alignToPage (os.bytes b.desc.stride b.desc.height)) with
    | none => simp only [hfile, Option.bind_none]
    | some file =>
      cases hmap : os.mmap (os.alignToPage (os.bytes b.desc.stride b.desc.height)) file 0 with
      | none => simp [hfile, hmap]
      | some data =>
        simp [hfile, hmap, hsrc, LorieBuffer.moved, Memory.moved, Target.region, Target.stride]
  | ahardwarebuffer =>
    rw [if_neg (by simp only [htype, hformat]; decide), if_neg (by decide)]
    by_cases hapi : os.api26 = true
    · rw [if_pos hapi, if_pos hapi]
      cases os.aHardwareBufferAllocate b.desc.width.toUInt32 b.desc.height.toUInt32 format with
      | none => rfl
      | some a => simp [hsrc, LorieBuffer.moved, Memory.moved, Target.region, Target.stride]
    · rw [if_neg hapi, if_neg hapi]

theorem Regular.product_nonneg (h : Regular os m b) :
    0 ≤ b.desc.stride.toInt * b.desc.height.toInt := by
  have hwidth := h.width_pos
  have hstride := h.width_le
  have hheight := h.height_pos
  exact Int.mul_nonneg (by omega) (by omega)

/-- The new storage is of the type asked for. -/
theorem moved_type {t : Target} (ht : target os b type format = some t) :
    (b.moved format t).desc.type = type := by
  rw [target.eq_def] at ht
  split at ht
  · contradiction
  cases type with
  | unknown | regular => contradiction
  | fd =>
    obtain ⟨file, -, hmap⟩ := Option.bind_eq_some_iff.mp ht
    obtain ⟨data, -, rfl⟩ := Option.map_eq_some_iff.mp hmap
    rfl
  | ahardwarebuffer =>
    dsimp only at ht
    split at ht
    · obtain ⟨a, -, rfl⟩ := Option.map_eq_some_iff.mp ht
      rfl
    · contradiction

theorem moved_ne_regular (t : Target) : (b.moved format t).desc.type ≠ .regular := by
  cases t <;> simp [LorieBuffer.moved]

/-- The new storage has room for every pixel and is never in the heap. -/
theorem target_spec {t : Target} (h : Regular os m b) (ht : target os b type format = some t) :
    ((b.moved format t).desc.stride.toInt.toNat = t.stride b ∧
      b.desc.width.toInt.toNat ≤ t.stride b) ∧
      4 * (t.stride b * b.desc.height.toInt.toNat) ≤ t.region.length ∧
      ∀ block, t.region.storage ≠ .heap block := by
  have hwidth := h.width_pos
  have hstride := h.width_le
  have hheight := h.height_pos
  rw [target.eq_def] at ht
  split at ht
  · contradiction
  cases type with
  | unknown | regular => contradiction
  | fd =>
    obtain ⟨file, -, hmap⟩ := Option.bind_eq_some_iff.mp ht
    obtain ⟨data, hdata, rfl⟩ := Option.map_eq_some_iff.mp hmap
    obtain ⟨-, rfl⟩ := Os.mmap_eq_some.mp hdata
    refine ⟨⟨rfl, ?_⟩, ?_, fun _ => by simp [Target.region]⟩
    · exact Int.toNat_le_toNat hstride
    · -- the size is the product, rounded up
      have hpos := os.pageSize_pos
      have hpages := h.pages
      have hbytes : (os.bytes _ _ : ℤ) = _ := Os.bytes_eq h.product_nonneg h.product (by omega)
      have hle : os.bytes b.desc.stride b.desc.height ≤ os.alignToPage _ :=
        Os.le_alignToPage (by rw [hbytes]; exact h.pages)
      have hcast := natCast_toNat_mul (a := b.desc.stride.toInt) (b := b.desc.height.toInt)
        (by omega) (by omega)
      simp only [Target.stride, Target.region]
      omega
  | ahardwarebuffer =>
    dsimp only at ht
    split at ht
    · obtain ⟨a, ha, rfl⟩ := Option.map_eq_some_iff.mp ht
      obtain ⟨hw, hh, hle, hlt⟩ := os.aHardwareBufferAllocate_spec _ _ _ _ ha
      -- a stride that fits an `int32_t` is the same in both types
      have hstride' : a.stride.toInt32.toInt.toNat = a.stride.toNat := by
        have hint : a.stride.toInt32.toInt = a.stride.toNat :=
          BitVec.toInt_eq_toNat_of_lt (show 2 * a.stride.toNat < 2 ^ 32 by omega)
        rw [hint, Int.toNat_natCast]
      have hwidth' : b.desc.width.toUInt32.toNat = b.desc.width.toInt.toNat :=
        Int32.toNat_toUInt32_of_le (Int32.le_iff_toInt_le.mpr (Int.le_of_lt hwidth))
      have hheight' : b.desc.height.toUInt32.toNat = b.desc.height.toInt.toNat :=
        Int32.toNat_toUInt32_of_le (Int32.le_iff_toInt_le.mpr (Int.le_of_lt hheight))
      refine ⟨⟨hstride', ?_⟩, ?_, fun _ => by simp [Target.region, AHardwareBuffer.region]⟩
      · have := UInt32.le_iff_toNat_le.mp hle
        simp only [Target.stride]
        omega
      · exact Nat.le_of_eq (by
          rw [Target.stride, Target.region, AHardwareBuffer.region, hh, hheight'])
    · contradiction

/-- The pixels of a buffer on its new storage. -/
theorem pixel_moved {t : Target} (ht : target os b type format = some t) (h : Regular os m b)
    (m' : Memory) (x y : ℕ) :
    (b.moved format t).pixel m' x y = m'.word t.region (4 * (y * t.stride b + x)) := by
  obtain ⟨⟨hstride, -⟩, -⟩ := target_spec h ht
  rw [LorieBuffer.pixel, hstride]
  cases t <;> rfl

/-! ### All or nothing -/

/-- The buffer is as it was, or of the new type with the pixels it had. -/
def Atomic (m : Memory) (b : LorieBuffer) (type : BufferType)
    (result : LorieBuffer × Memory) : Prop :=
  result = (b, m) ∨
    (result.1.desc.type = type ∧ type ≠ .regular) ∧
      ∀ x y : ℕ, (x : ℤ) < b.desc.width.toInt → (y : ℤ) < b.desc.height.toInt →
        result.1.pixel result.2 x y = b.pixel m x y

/-- The new storage holds the pixels of the buffer as the system gives it. -/
def Target.Agrees (m : Memory) (b : LorieBuffer) (t : Target) : Prop :=
  ∀ x y : ℕ, (x : ℤ) < b.desc.width.toInt → (y : ℤ) < b.desc.height.toInt →
    m.word t.region (4 * (y * t.stride b + x)) = b.pixel m x y

/-- The pixels on the new storage are those of the buffer if they were copied, and else
what the storage came with. -/
theorem pixel_convert {t : Target} {src : Region} (h : Regular os m b)
    (hsrc : b.desc.data = some src) (ht : target os b type format = some t) {x y : ℕ}
    (hx : (x : ℤ) < b.desc.width.toInt) (hy : (y : ℤ) < b.desc.height.toInt) :
    (t.Copied os → (b.moved format t).pixel ((m.moved os b src t).free (some src)) x y =
        b.pixel m x y) ∧
      (¬ t.Copied os → (b.moved format t).pixel ((m.moved os b src t).free (some src)) x y =
        m.word t.region (4 * (y * t.stride b + x))) := by
  obtain ⟨block, hlive, hdata⟩ := h.data
  have hblock := Option.some.inj (hsrc.symm.trans hdata)
  have hstorage : src.storage = .heap block := by rw [hblock]
  have hlength : src.length =
      4 * (b.desc.stride.toInt.toNat * b.desc.height.toInt.toNat) := by rw [hblock]
  obtain ⟨⟨-, hwidth⟩, hroom, hheap⟩ := target_spec h ht
  -- the new storage is not the block that is freed
  rw [pixel_moved ht h, word_free _ (by rw [hstorage]; exact hheap block)]
  have hstride := h.width_le
  have hx' : x < b.desc.width.toInt.toNat := by omega
  have hy' : y < b.desc.height.toInt.toNat := by omega
  constructor
  · intro hcopied
    have hblt : os.pixmanBlt = true := by
      cases t with
      | file => exact hcopied
      | hardware => exact hcopied.2
    have hmoved : m.moved os b src t = pixmanBlt os m src t.region b.desc.stride.toInt.toNat
        (t.stride b) b.desc.width.toInt.toNat b.desc.height.toInt.toNat := by
      cases t with
      | file => rfl
      | hardware a => exact if_pos hcopied.1
    have hdst : m.Live t.region.storage := by
      cases hs : t.region.storage with
      | heap other => exact absurd hs (hheap other)
      | file | ahardwarebuffer => exact trivial
    -- the copy reads and writes inside of the two regions
    rw [hmoved, word_pixmanBlt hblt hx' hwidth hy' (by rw [hstorage]; exact hlive) hdst
      (by rw [hlength]; exact pixel_lt (by omega) hy')
      (Nat.le_trans (pixel_lt (by omega) hy') hroom)]
    simp only [LorieBuffer.pixel, LorieBuffer.region, h.type, hsrc, Option.bind_some]
  · intro hcopied
    have hmoved : m.moved os b src t = m := by
      cases t with
      | file => exact if_neg hcopied
      | hardware a =>
        by_cases hlock : os.aHardwareBufferLock a = true
        · have hblt : ¬ os.pixmanBlt = true := fun hb => hcopied ⟨hlock, hb⟩
          exact (if_pos hlock).trans (if_neg hblt)
        · exact if_neg hlock
    rw [hmoved]

/-- A conversion is all or nothing exactly when, the new storage once given, the pixels
are copied to it: a hardware buffer can be locked, and `pixman` has a `blt`. -/
theorem lorieBufferConvert_atomic_iff (h : Regular os m b) (type : BufferType)
    (format : UInt8) :
    Atomic m b type (lorieBufferConvert os m b type format) ↔
      ∀ t, target os b type format = some t → t.Copied os ∨ t.Agrees m b := by
  obtain ⟨block, -, hdata⟩ := h.data
  rw [lorieBufferConvert_eq h.type hdata]
  cases ht : target os b type format with
  | none => exact iff_of_true (Or.inl rfl) nofun
  | some t =>
    have htype := moved_type ht
    constructor
    · rintro hatomic t' ⟨⟩
      by_cases hcopied : t.Copied os
      · exact Or.inl hcopied
      refine Or.inr fun x y hx hy => ?_
      rw [← (pixel_convert h hdata ht hx hy).2 hcopied]
      rcases hatomic with hsame | ⟨-, hpixel⟩
      · -- the type did change
        exact absurd (by rw [(Prod.mk.inj hsame).1, h.type]) (moved_ne_regular t)
      · exact hpixel x y hx hy
    · intro hkept
      have hne : type ≠ .regular := htype ▸ moved_ne_regular t
      refine Or.inr ⟨⟨htype, hne⟩, fun x y hx hy => ?_⟩
      obtain ⟨hcopy, hnone⟩ := pixel_convert h hdata ht hx hy
      by_cases hcopied : t.Copied os
      · exact hcopy hcopied
      · exact (hnone hcopied).trans (((hkept t rfl).resolve_left hcopied) x y hx hy)

/-- A white pixel. -/
def whitePixel : LorieBuffer :=
  { initial 0 1 1 1 formatR8G8B8X8 .regular none none 0 0 with
    desc.data := some ⟨.heap 0, 0, 4⟩ }

/-- The heap is white, and what the system gives is black. -/
def whiteHeap : Memory where
  byte
    | .heap _, _ => 255
    | _, _ => 0
  freed := []

theorem regular_whitePixel {os : Os} (hsize : os.sizeBits = 64) (hpage : os.pageSize = 4096) :
    Regular os whiteHeap whitePixel where
  type := rfl
  width_pos := by decide
  width_le := by decide
  height_pos := by decide
  data := ⟨0, by decide, rfl⟩
  product := by decide
  pages := by rw [hsize, hpage]; decide

theorem lorieBufferConvert_atomic_iff_white :
    Atomic whiteHeap whitePixel .fd
        (lorieBufferConvert Os.granting whiteHeap whitePixel .fd formatR8G8B8X8) ↔
      ∀ t, target Os.granting whitePixel .fd formatR8G8B8X8 = some t →
        t.Copied Os.granting ∨ t.Agrees whiteHeap whitePixel :=
  lorieBufferConvert_atomic_iff (regular_whitePixel rfl rfl) .fd formatR8G8B8X8

/-- Where the new hardware buffer cannot be locked the white pixel turns black. -/
theorem lorieBufferConvert_not_atomic :
    ¬ ∀ (os : Os) (m : Memory) (b : LorieBuffer), Regular os m b →
      ∀ type format, Atomic m b type (lorieBufferConvert os m b type format) := by
  intro hall
  let os : Os := { Os.granting with aHardwareBufferLock := fun _ => false }
  have hregular : Regular os whiteHeap whitePixel := regular_whitePixel rfl rfl
  rcases hall os whiteHeap whitePixel hregular .ahardwarebuffer formatR8G8B8X8 with
    hsame | ⟨-, hpixel⟩
  · have htype : (lorieBufferConvert os whiteHeap whitePixel .ahardwarebuffer
        formatR8G8B8X8).1.desc.type = .regular := by rw [hsame]; rfl
    exact absurd htype (by decide)
  · exact absurd (hpixel 0 0 (by decide) (by decide)) (by decide)

/-- Buffers of a size that pixmaps can have are regular, on machines with pages of at most
64 KiB. -/
theorem regular_allocate {id : UInt64} {width height : Int32}
    (hb : lorieBufferAllocate os id width height format .regular = some b)
    (hnew : ∀ block, os.calloc (os.bytes width height) = some block → block ∉ m.freed)
    (hwidth : width.toInt ≤ 32767) (hheight : height.toInt ≤ 32767)
    (hbits : 32 ≤ os.sizeBits) (hpage : os.pageSize ≤ 65536) : Regular os m b := by
  obtain ⟨⟨hacceptable, -⟩, block, hblock, rfl⟩ := allocate_regular hb
  obtain ⟨-, hwidth0, hheight0⟩ := of_decide_eq_true hacceptable
  have hwidth0' : 0 < width.toInt := Int32.lt_iff_toInt_lt.mp hwidth0
  have hheight0' : 0 < height.toInt := Int32.lt_iff_toInt_lt.mp hheight0
  have hproduct : width.toInt * height.toInt ≤ 32767 * 32767 :=
    Int.mul_le_mul hwidth hheight (by omega) (by decide)
  have hpow : (2 : ℤ) ^ 32 ≤ 2 ^ os.sizeBits := by
    exact_mod_cast Nat.pow_le_pow_right (by decide : 0 < 2) hbits
  have h0 : 0 ≤ width.toInt * height.toInt := Int.mul_nonneg (by omega) (by omega)
  have hbytes : (os.bytes _ _ : ℤ) = _ := Os.bytes_eq h0 (by omega) (by omega)
  have hlength : os.bytes width height = 4 * (width.toInt.toNat * height.toInt.toNat) := by
    have hcast := natCast_toNat_mul (a := width.toInt) (b := height.toInt) (by omega) (by omega)
    omega
  exact {
    type := rfl
    width_pos := hwidth0'
    width_le := Int.le_refl _
    height_pos := hheight0'
    data := ⟨block, hnew block hblock, by rw [hlength]; rfl⟩
    product := show width.toInt * height.toInt < 2 ^ 31 by omega
    pages := show 4 * (width.toInt * height.toInt) + os.pageSize ≤ 2 ^ os.sizeBits by omega }

end Lorie.Buffer
