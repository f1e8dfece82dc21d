/-
Buffers of pixels (`buffer.c`).

A buffer keeps its pixels in a block of the heap, in a file that is mapped, or in an
`AHardwareBuffer`.  A descriptor is modelled by the file it refers to, a pointer by the
bytes it leads to.  What the system answers to the calls of an operation is an `Os`.

* `lorieBufferAllocate`, `lorieBufferWrapFileDescriptor`, `lorieBufferWrapAHardwareBuffer` —
  the ways to make one;
* `lorieBufferLock`, `lorieBufferUnlock`, `lorieBufferRelease`;
* `lorieBufferConvert` — moving the pixels of a buffer in the heap to where others can
  see them.
-/
import Mathlib.Algebra.Group.Int.Defs
import Mathlib.Algebra.Group.Nat.Defs
import Mathlib.Data.Int.Notation
import Mathlib.Data.Nat.Notation
import Mathlib.Logic.Function.Basic

namespace Lorie.Buffer

/-! ### The system -/

/-- What holds bytes. -/
inductive Storage
  | heap (block : ℕ)
  | file (file : ℕ)
  | ahardwarebuffer (id : ℕ)
  deriving DecidableEq, Repr

/-- The bytes a pointer leads to. -/
structure Region where
  storage : Storage
  offset : ℕ
  length : ℕ
  deriving DecidableEq, Repr

/-- An `AHardwareBuffer`, with what `AHardwareBuffer_describe` says of it. -/
structure AHardwareBuffer where
  id : ℕ
  width : UInt32
  height : UInt32
  stride : UInt32
  format : UInt32
  deriving DecidableEq, Repr

/-- The bytes a lock of it leads to. -/
def AHardwareBuffer.region (a : AHardwareBuffer) : Region where
  storage := .ahardwarebuffer a.id
  offset := 0
  length := 4 * (a.stride.toNat * a.height.toNat)

/-- What the system answers to the calls of one operation. -/
structure Os where
  /-- the bits of a `size_t` -/
  sizeBits : ℕ
  pageSize : ℕ
  pageSize_pos : 0 < pageSize
  /-- `__builtin_available(android 26, *)` -/
  api26 : Bool
  /-- `calloc` of so many bytes of pixels -/
  calloc : ℕ → Option ℕ
  /-- `calloc` of a `LorieBuffer` -/
  callocBuffer : Bool
  /-- `calloc` of the private of a pixmap -/
  callocPriv : Bool
  /-- `ASharedMemory_create`, with the file of the descriptor -/
  aSharedMemoryCreate : ℕ → Option ℕ
  /-- `memfd_create` -/
  memfdCreate : Option ℕ
  /-- `/dev/ashmem`, opened, named and with its size set -/
  ashmem : ℕ → Option ℕ
  dup : ℕ → Bool
  /-- whether the bytes of a file from an offset on can be mapped, so many of them -/
  maps : ℕ → ℕ → ℕ → Bool
  aHardwareBufferAllocate : UInt32 → UInt32 → UInt8 → Option AHardwareBuffer
  aHardwareBufferLock : AHardwareBuffer → Bool
  /-- a new hardware buffer has the size asked for, and rows that fit its stride -/
  aHardwareBufferAllocate_spec : ∀ width height format a,
    aHardwareBufferAllocate width height format = some a →
      a.width = width ∧ a.height = height ∧ width ≤ a.stride ∧ a.stride.toNat < 2 ^ 31
  /-- an implementation of `pixman` is built that has a `blt` -/
  pixmanBlt : Bool

/-- A number as a `size_t`. -/
def Os.sizeT (os : Os) (n : ℤ) : ℕ := (n % 2 ^ os.sizeBits).toNat

theorem Os.sizeT_of_lt {os : Os} {n : ℤ} (h0 : 0 ≤ n) (h : n < 2 ^ os.sizeBits) :
    (os.sizeT n : ℤ) = n := by
  rw [sizeT, Int.emod_eq_of_lt h0 h, Int.toNat_of_nonneg h0]

/-- `stride * height * sizeof(uint32_t)`: the first product is an `int32_t`. -/
def Os.bytes (os : Os) (stride height : Int32) : ℕ := os.sizeT ((stride * height).toInt * 4)

theorem natCast_toNat_mul {a b : ℤ} (ha : 0 ≤ a) (hb : 0 ≤ b) :
    ((a.toNat * b.toNat : ℕ) : ℤ) = a * b := by
  rw [Int.natCast_mul, Int.toNat_of_nonneg ha, Int.toNat_of_nonneg hb]

theorem Os.bytes_lt (os : Os) (stride height : Int32) :
    os.bytes stride height < 2 ^ os.sizeBits := by
  have hpos : (0 : ℤ) < 2 ^ os.sizeBits := Int.pow_pos (by decide)
  have hlt := Int.emod_lt_of_pos ((stride * height).toInt * 4) hpos
  rw [bytes, sizeT, Int.toNat_lt (Int.emod_nonneg _ (Int.ne_of_gt hpos))]
  exact_mod_cast hlt

/-- A product that fits its type is the product. -/
theorem mul_toInt {stride height : Int32} (h0 : 0 ≤ stride.toInt * height.toInt)
    (h : stride.toInt * height.toInt < 2 ^ 31) :
    (stride * height).toInt = stride.toInt * height.toInt := by
  rw [Int32.toInt_mul]
  exact Int.bmod_eq_of_le_mul_two (by omega) (by omega)

theorem Os.bytes_eq {os : Os} {stride height : Int32} (h0 : 0 ≤ stride.toInt * height.toInt)
    (h : stride.toInt * height.toInt < 2 ^ 31)
    (hbits : 4 * (stride.toInt * height.toInt) < 2 ^ os.sizeBits) :
    (os.bytes stride height : ℤ) = 4 * (stride.toInt * height.toInt) := by
  rw [bytes, mul_toInt h0 h, Int.mul_comm]
  exact sizeT_of_lt (by omega) hbits

def Os.alignToPage (os : Os) (size : ℕ) : ℕ :=
  let n := os.sizeT (size + os.pageSize - 1)
  n - n % os.pageSize

theorem Os.le_alignToPage {os : Os} {size : ℕ}
    (h : (size : ℤ) + os.pageSize ≤ 2 ^ os.sizeBits) : size ≤ os.alignToPage size := by
  have hpos := os.pageSize_pos
  have hsize : (os.sizeT (size + os.pageSize - 1) : ℤ) = size + os.pageSize - 1 :=
    sizeT_of_lt (by omega) (by omega)
  have hmod := Nat.mod_lt (os.sizeT (size + os.pageSize - 1)) hpos
  rw [alignToPage]
  omega

/-- `mmap`: not of nothing, and only from the start of a page. -/
def Os.mmap (os : Os) (length file : ℕ) (offset : ℤ) : Option Region :=
  if 0 < length ∧ 0 ≤ offset ∧ offset % os.pageSize = 0 ∧ os.maps file offset.toNat length then
    some ⟨.file file, offset.toNat, length⟩
  else none

theorem Os.mmap_eq_some {os : Os} {length file : ℕ} {offset : ℤ} {r : Region} :
    os.mmap length file offset = some r ↔
      (0 < length ∧ 0 ≤ offset ∧ offset % os.pageSize = 0 ∧
        os.maps file offset.toNat length = true) ∧
      r = ⟨.file file, offset.toNat, length⟩ := by
  rw [mmap]
  split
  · next h =>
    rw [Option.some.injEq, eq_comm]
    exact (and_iff_right h).symm
  · next h => exact iff_of_false nofun fun hr => h hr.1

/-- `LorieBuffer_createRegion` -/
def Os.createRegion (os : Os) (size : ℕ) : Option ℕ :=
  (if os.api26 then os.aSharedMemoryCreate size else none) <|> os.memfdCreate <|> os.ashmem size

/-- A system with pages of 4 KiB and 64 bits that grants every call. -/
def Os.granting : Os where
  sizeBits := 64
  pageSize := 4096
  pageSize_pos := by decide
  api26 := true
  calloc _ := some 0
  callocBuffer := true
  callocPriv := true
  aSharedMemoryCreate _ := some 0
  memfdCreate := some 0
  ashmem _ := some 0
  dup _ := true
  maps _ _ _ := true
  aHardwareBufferAllocate width height format :=
    if width.toNat < 2 ^ 31 then some ⟨0, width, height, width, format.toUInt32⟩ else none
  aHardwareBufferLock _ := true
  aHardwareBufferAllocate_spec := by
    intro width height format a ha
    split at ha
    · next hwidth =>
      obtain rfl := Option.some.inj ha
      exact ⟨rfl, rfl, UInt32.le_refl width, hwidth⟩
    · contradiction
  pixmanBlt := true

/-! ### Buffers -/

inductive BufferType
  | unknown
  | regular
  | fd
  | ahardwarebuffer
  deriving DecidableEq, Repr

/-- `AHARDWAREBUFFER_FORMAT_R8G8B8X8_UNORM` -/
def formatR8G8B8X8 : UInt8 := 2

/-- `AHARDWAREBUFFER_FORMAT_B8G8R8A8_UNORM` -/
def formatB8G8R8A8 : UInt8 := 5

/-- `LorieBuffer_Desc` -/
structure Desc where
  width : Int32
  height : Int32
  stride : Int32
  format : UInt8
  type : BufferType
  id : UInt64
  buffer : Option AHardwareBuffer
  data : Option Region
  deriving DecidableEq, Repr

structure LorieBuffer where
  refcount : Int16
  desc : Desc
  locked : Int8
  lockedData : Option Region
  /-- the file of the descriptor -/
  fd : Option ℕ
  size : ℕ
  offset : ℤ
  /-- the name of the texture -/
  id : UInt32
  /-- the `EGLImage` -/
  image : Option ℕ
  /-- `link` is in a list -/
  listed : Bool
  gpuCopyPending : Int32
  deriving DecidableEq, Repr

/-- `acceptable` of `allocate` -/
def acceptable (width height : Int32) (format : UInt8) : Bool :=
  (format = formatB8G8R8A8 ∨ format = formatR8G8B8X8) ∧ 0 < width ∧ 0 < height

/-- A buffer as `allocate` first fills it in. -/
def initial (id : UInt64) (width stride height : Int32) (format : UInt8) (type : BufferType)
    (buf : Option AHardwareBuffer) (fd : Option ℕ) (size : ℕ) (offset : ℤ) : LorieBuffer where
  refcount := 1
  desc := { width, height, stride, format, type, id, buffer := buf, data := none }
  locked := 0
  lockedData := none
  fd := fd
  size := size
  offset := offset
  id := 0
  image := none
  listed := false
  gpuCopyPending := 0

/-- `allocate`, with the number of calls of it so far. -/
def allocate (os : Os) (id : UInt64) (width stride height : Int32) (format : UInt8)
    (type : BufferType) (buf : Option AHardwareBuffer) (fd : Option ℕ) (size : ℕ) (offset : ℤ)
    (takeFd : Bool) : Option LorieBuffer :=
  let fd := if takeFd then fd else fd.filter os.dup
  let b := initial id width stride height format type buf fd size offset
  let made : Option LorieBuffer :=
    match type with
    | .regular =>
      if acceptable width height format then
        (os.calloc (os.bytes stride height)).map fun block =>
          { b with desc.data := some ⟨.heap block, 0, os.bytes stride height⟩ }
      else none
    | .fd =>
      if acceptable width height format then
        fd.bind fun file => (os.mmap size file offset).map fun data =>
          { b with desc.data := some data }
      else none
    | .ahardwarebuffer => buf.map fun a =>
        -- before the API's version the description stays all zeroes
        if os.api26 then
          { b with
            desc.width := a.width.toInt32, desc.height := a.height.toInt32,
            desc.stride := a.stride.toInt32, desc.format := a.format.toUInt8 }
        else { b with desc.width := 0, desc.height := 0, desc.stride := 0, desc.format := 0 }
    | .unknown => none
  made.filter fun _ => os.callocBuffer

section Allocate

variable {os : Os} {id : UInt64} {width stride height : Int32} {format : UInt8}
  {buf : Option AHardwareBuffer} {fd : Option ℕ} {size : ℕ} {offset : ℤ} {takeFd : Bool}
  {b : LorieBuffer}

theorem allocate_regular
    (h : allocate os id width stride height format .regular buf none size offset takeFd = some b) :
    (acceptable width height format = true ∧ os.callocBuffer = true) ∧
      ∃ block, os.calloc (os.bytes stride height) = some block ∧
        b = { initial id width stride height format .regular buf none size offset with
          desc.data := some ⟨.heap block, 0, os.bytes stride height⟩ } := by
  obtain ⟨hmade, hbuffer⟩ := Option.filter_eq_some_iff.mp h
  dsimp only at hmade
  split at hmade
  · next hacceptable =>
    obtain ⟨block, hblock, rfl⟩ := Option.map_eq_some_iff.mp hmade
    refine ⟨⟨hacceptable, hbuffer⟩, block, hblock, ?_⟩
    cases takeFd <;> rfl
  · contradiction

theorem allocate_fd
    (h : allocate os id width stride height format .fd buf fd size offset takeFd = some b) :
    (acceptable width height format = true ∧ os.callocBuffer = true) ∧
      ∃ file data, fd = some file ∧ os.mmap size file offset = some data ∧
        b = { initial id width stride height format .fd buf (some file) size offset with
          desc.data := some data } := by
  obtain ⟨hmade, hbuffer⟩ := Option.filter_eq_some_iff.mp h
  dsimp only at hmade
  split at hmade
  · next hacceptable =>
    obtain ⟨file, hfile, hmap⟩ := Option.bind_eq_some_iff.mp hmade
    obtain ⟨data, hdata, rfl⟩ := Option.map_eq_some_iff.mp hmap
    refine ⟨⟨hacceptable, hbuffer⟩, file, data, ?_, hdata, by rw [hfile]⟩
    cases takeFd with
    | true => exact hfile
    | false => exact (Option.filter_eq_some_iff.mp hfile).1
  · contradiction

theorem allocate_type {type : BufferType}
    (h : allocate os id width stride height format type buf fd size offset takeFd = some b) :
    b.desc.type = type := by
  obtain ⟨hmade, -⟩ := Option.filter_eq_some_iff.mp h
  cases type with
  | unknown => contradiction
  | regular =>
    dsimp only at hmade
    split at hmade
    · obtain ⟨block, -, rfl⟩ := Option.map_eq_some_iff.mp hmade
      rfl
    · contradiction
  | fd => exact (allocate_fd h).2.elim fun _ ⟨_, _, _, hb⟩ => by rw [hb]; rfl
  | ahardwarebuffer =>
    obtain ⟨a, -, rfl⟩ := Option.map_eq_some_iff.mp hmade
    dsimp only
    split <;> rfl

end Allocate

/-- `LorieBuffer_allocate` -/
def lorieBufferAllocate (os : Os) (id : UInt64) (width height : Int32) (format : UInt8)
    (type : BufferType) : Option LorieBuffer :=
  match type with
  | .fd =>
    let size := os.alignToPage (os.bytes width height)
    (os.createRegion size).bind fun file =>
      allocate os id width width height format type none (some file) size 0 true
  | .ahardwarebuffer =>
    let buf := if os.api26 then
      os.aHardwareBufferAllocate width.toUInt32 height.toUInt32 format else none
    allocate os id width width height format type buf none 0 0 true
  | _ => allocate os id width width height format type none none 0 0 true

theorem lorieBufferAllocate_type {os : Os} {id : UInt64} {width height : Int32} {format : UInt8}
    {type : BufferType} {b : LorieBuffer}
    (h : lorieBufferAllocate os id width height format type = some b) : b.desc.type = type := by
  cases type with
  | unknown | regular | ahardwarebuffer =>
    simp only [lorieBufferAllocate] at h
    exact allocate_type h
  | fd =>
    obtain ⟨file, -, hmade⟩ := Option.bind_eq_some_iff.mp h
    exact allocate_type hmade

/-- A buffer has the size that was asked for, hardware buffers too. -/
theorem lorieBufferAllocate_size {os : Os} {id : UInt64} {width height : Int32} {format : UInt8}
    {type : BufferType} {b : LorieBuffer}
    (h : lorieBufferAllocate os id width height format type = some b) :
    b.desc.width = width ∧ b.desc.height = height := by
  cases type with
  | unknown =>
    simp only [lorieBufferAllocate, allocate] at h
    contradiction
  | regular =>
    simp only [lorieBufferAllocate] at h
    obtain ⟨-, block, -, rfl⟩ := allocate_regular h
    exact ⟨rfl, rfl⟩
  | fd =>
    obtain ⟨file, -, hmade⟩ := Option.bind_eq_some_iff.mp h
    obtain ⟨-, file', data, -, -, rfl⟩ := allocate_fd hmade
    exact ⟨rfl, rfl⟩
  | ahardwarebuffer =>
    simp only [lorieBufferAllocate, allocate] at h
    obtain ⟨hmade, -⟩ := Option.filter_eq_some_iff.mp h
    obtain ⟨a, ha, rfl⟩ := Option.map_eq_some_iff.mp hmade
    split at ha
    · next hapi =>
      obtain ⟨hw, hh, -⟩ := os.aHardwareBufferAllocate_spec _ _ _ _ ha
      rw [if_pos hapi]
      exact ⟨by rw [hw]; exact Int32.toInt32_toUInt32 width,
        by rw [hh]; exact Int32.toInt32_toUInt32 height⟩
    · contradiction

/-- The buffers that `LorieBuffer_allocate` makes in a file of their own. -/
theorem lorieBufferAllocate_fd {os : Os} {id : UInt64} {width height : Int32} {format : UInt8}
    {b : LorieBuffer} (h : lorieBufferAllocate os id width height format .fd = some b) :
    b.desc.stride = width ∧
      ∃ file length, b.fd = some file ∧ b.desc.data = some ⟨.file file, 0, length⟩ := by
  obtain ⟨file, -, hmade⟩ := Option.bind_eq_some_iff.mp h
  obtain ⟨-, file', data, -, hmmap, rfl⟩ := allocate_fd hmade
  obtain ⟨-, rfl⟩ := Os.mmap_eq_some.mp hmmap
  exact ⟨rfl, file', _, rfl, rfl⟩

/-- `LorieBuffer_wrapFileDescriptor` -/
def lorieBufferWrapFileDescriptor (os : Os) (id : UInt64) (width stride height : Int32)
    (format : UInt8) (file : ℕ) (offset : ℤ) : Option LorieBuffer :=
  allocate os id width stride height format .fd none (some file) (os.bytes stride height) offset
    false

/-- `LorieBuffer_wrapAHardwareBuffer` -/
def lorieBufferWrapAHardwareBuffer (os : Os) (id : UInt64) (buffer : AHardwareBuffer) :
    Option LorieBuffer :=
  allocate os id 0 0 0 0 .ahardwarebuffer (some buffer) none 0 0 false

/-- `LorieBuffer_lock`, but for the error number; a buffer that is locked stays as it is. -/
def lorieBufferLock (os : Os) (b : LorieBuffer) : LorieBuffer :=
  if b.locked ≠ 0 then b
  else
    let lockedData := match b.desc.type with
      | .regular | .fd => b.desc.data
      | .ahardwarebuffer =>
        match b.desc.buffer with
        | some a => if os.api26 ∧ os.aHardwareBufferLock a then some a.region else b.lockedData
        | none => b.lockedData
      | .unknown => b.lockedData
    { b with lockedData, locked := 1 }

@[simp] theorem lorieBufferLock_desc (os : Os) (b : LorieBuffer) :
    (lorieBufferLock os b).desc = b.desc := by
  rw [lorieBufferLock]
  split <;> rfl

@[simp] theorem lorieBufferLock_fd (os : Os) (b : LorieBuffer) :
    (lorieBufferLock os b).fd = b.fd := by
  rw [lorieBufferLock]
  split <;> rfl

/-- `LorieBuffer_unlock` -/
def lorieBufferUnlock (b : LorieBuffer) : LorieBuffer :=
  if b.locked = 0 then b else { b with lockedData := none, locked := 0 }

/-- `LorieBuffer_release`: `none` when the buffer is freed. -/
def lorieBufferRelease (b : LorieBuffer) : Option LorieBuffer :=
  if b.refcount = 1 then none else some { b with refcount := b.refcount - 1 }

/-! ### Conversion -/

/-- The bytes of all storages; those of new ones are what the system gives them. -/
structure Memory where
  byte : Storage → ℕ → UInt8
  /-- the blocks of the heap that are freed -/
  freed : List ℕ

def Memory.Live (m : Memory) : Storage → Prop
  | .heap block => block ∉ m.freed
  | _ => True

instance (m : Memory) : ∀ s, Decidable (m.Live s)
  | .heap _ => inferInstanceAs (Decidable (¬ _))
  | .file _ => inferInstanceAs (Decidable True)
  | .ahardwarebuffer _ => inferInstanceAs (Decidable True)

/-- `free` -/
def Memory.free (m : Memory) : Option Region → Memory
  | some ⟨.heap block, _, _⟩ => { m with freed := block :: m.freed }
  | _ => m

/-- The four bytes of a pixel at an address of a region, if the region has them. -/
def Memory.word (m : Memory) (r : Region) (n : ℕ) : Option (List UInt8) :=
  if m.Live r.storage ∧ n + 4 ≤ r.length then
    some ((List.range 4).map fun k => m.byte r.storage (r.offset + n + k))
  else none

/-- Byte `n` of a region is in one of the `height` rows, `width` pixels long. -/
def InRows (stride width height n : ℕ) : Prop :=
  n / (4 * stride) < height ∧ n % (4 * stride) < 4 * width

instance (stride width height n : ℕ) : Decidable (InRows stride width height n) :=
  inferInstanceAs (Decidable (_ ∧ _))

/-- `pixman_blt` at 32 bits per pixel, from the start of a region to the start of another:
`FALSE`, and nothing is copied, if no implementation has a `blt`. -/
def pixmanBlt (os : Os) (m : Memory) (src dst : Region) (srcStride dstStride width height : ℕ) :
    Memory :=
  if os.pixmanBlt then
    { m with
      byte := fun s n =>
        let p := n - dst.offset
        if s = dst.storage ∧ dst.offset ≤ n ∧ InRows dstStride width height p then
          m.byte src.storage (src.offset + (p / (4 * dstStride) * (4 * srcStride)
            + p % (4 * dstStride)))
        else m.byte s n }
  else m

/-- `LorieBuffer_convert` -/
def lorieBufferConvert (os : Os) (m : Memory) (b : LorieBuffer) (type : BufferType)
    (format : UInt8) : LorieBuffer × Memory :=
  let stride := b.desc.stride.toInt.toNat
  let width := b.desc.width.toInt.toNat
  let height := b.desc.height.toInt.toNat
  if b.desc.type ≠ .regular ∨ (type ≠ .fd ∧ type ≠ .ahardwarebuffer) ∨
      (format ≠ formatR8G8B8X8 ∧ format ≠ formatB8G8R8A8) then (b, m)
  else if type = .fd then
    let size := os.alignToPage (os.bytes b.desc.stride b.desc.height)
    match os.createRegion size with
    | none => (b, m)
    | some file =>
      match os.mmap size file 0 with
      | none => (b, m)
      | some data =>
        let copied := b.desc.data.elim m fun src =>
          pixmanBlt os m src data stride stride width height
        ({ b with
            desc.type := type, desc.format := format, fd := some file, size, offset := 0,
            desc.data := some data, lockedData := none, locked := 0 },
          copied.free b.desc.data)
  else
    match (if os.api26 then os.aHardwareBufferAllocate b.desc.width.toUInt32
        b.desc.height.toUInt32 format else none) with
    | none => (b, m)
    | some a =>
      let copied := if os.aHardwareBufferLock a then
          b.desc.data.elim m fun src =>
            pixmanBlt os m src a.region stride a.stride.toNat width height
        else m
      -- the same whether the pixels were copied or not
      ({ b with
          desc.type := type, desc.format := format, desc.stride := a.stride.toInt32,
          desc.buffer := some a, desc.data := none, lockedData := none, locked := 0 },
        copied.free b.desc.data)

end Lorie.Buffer
