/-
The sizes of a frame (`X11Client.kt`).

`frameLoop` allocates for rows without padding, `getImage` compares the length of the reply
with what was allocated, and `publishFrame` steps through the bytes pixel by pixel.  They
agree as long as the rows have no padding and the products are `Int`s.

* `pixelFrom` — the bytes a turn of `publishFrame` reads;
* `publishFrame_total` — every pixel is read from its place, if there is room for all;
* `FrameArithmetic` — the sizes fit each other, and the server's replies;
* `frame_arithmetic_iff` — the images for which they do.
-/
import KaliGui.X11Client.Frame

namespace X11Client

open ByteStream

/-! ### The turns of `publishFrame` -/

/-- The pixel whose bytes start at `i`. -/
def pixelFrom (format : PixelFormat) (imageLsbFirst : Bool) (raw : List UInt8) (i : ℕ) :
    Option ℕ :=
  match format with
  | .rgb888 => pixel32 imageLsbFirst raw i
  | .rgb565 => pixel16 imageLsbFirst raw i

theorem publishFrame_pixels (format : PixelFormat) (imageLsbFirst : Bool) (raw : List UInt8)
    (n : ℕ) :
    publishFrame format.bitsPerPixel imageLsbFirst raw n =
      (List.range n).mapM fun o =>
        pixelFrom format imageLsbFirst raw (format.bytesPerPixel * o) := by
  cases format <;> rfl

/-- A pixel that lies in `raw` is read. -/
theorem pixelFrom_isSome {format : PixelFormat} {raw : List UInt8} {i : ℕ}
    (h : i + format.bytesPerPixel ≤ raw.length) (imageLsbFirst : Bool) :
    (pixelFrom format imageLsbFirst raw i).isSome = true := by
  cases format with
  | rgb888 =>
    have hlt : i + 4 ≤ raw.length := h
    have h₀ : raw[i]? = some raw[i] := List.getElem?_eq_getElem (by omega)
    have h₁ : raw[i + 1]? = some raw[i + 1] := List.getElem?_eq_getElem (by omega)
    have h₂ : raw[i + 2]? = some raw[i + 2] := List.getElem?_eq_getElem (by omega)
    simp only [pixelFrom, pixel32, h₀, h₁, h₂, Option.bind_eq_bind, Option.bind_some]
    split <;> rfl
  | rgb565 =>
    have hlt : i + 2 ≤ raw.length := h
    have h₀ : raw[i]? = some raw[i] := List.getElem?_eq_getElem (by omega)
    have h₁ : raw[i + 1]? = some raw[i + 1] := List.getElem?_eq_getElem (by omega)
    simp only [pixelFrom, pixel16, h₀, h₁, Option.bind_eq_bind, Option.bind_some]
    rfl

/-- A pixel that was read has at least its first two bytes in `raw`. -/
theorem lt_of_pixelFrom {format : PixelFormat} {imageLsbFirst : Bool} {raw : List UInt8}
    {i v : ℕ} (h : pixelFrom format imageLsbFirst raw i = some v) : i + 1 < raw.length := by
  cases format with
  | rgb888 =>
    obtain ⟨b₀, -, h⟩ := Option.bind_eq_some_iff.mp h
    obtain ⟨b₁, h₁, -⟩ := Option.bind_eq_some_iff.mp h
    exact (List.getElem?_eq_some_iff.mp h₁).1
  | rgb565 =>
    obtain ⟨b₀, -, h⟩ := Option.bind_eq_some_iff.mp h
    obtain ⟨b₁, h₁, -⟩ := Option.bind_eq_some_iff.mp h
    exact (List.getElem?_eq_some_iff.mp h₁).1

/-- With room for all of them, every pixel is read from its place. -/
theorem publishFrame_total {format : PixelFormat} {raw : List UInt8} {n : ℕ}
    (h : format.bytesPerPixel * n ≤ raw.length) (imageLsbFirst : Bool) :
    ∃ pixels, publishFrame format.bitsPerPixel imageLsbFirst raw n = some pixels ∧
      ∀ o < n, pixels[o]? = pixelFrom format imageLsbFirst raw (format.bytesPerPixel * o) := by
  have hread : ∀ o < n, pixelFrom format imageLsbFirst raw (format.bytesPerPixel * o) =
      some ((pixelFrom format imageLsbFirst raw (format.bytesPerPixel * o)).getD 0) := by
    intro o ho
    have hmul : format.bytesPerPixel * (o + 1) ≤ format.bytesPerPixel * n :=
      Nat.mul_le_mul_left _ ho
    rw [Nat.mul_succ] at hmul
    obtain ⟨v, hv⟩ := Option.isSome_iff_exists.mp
      (pixelFrom_isSome (Nat.le_trans hmul h) imageLsbFirst)
    rw [hv, Option.getD_some]
  refine ⟨(List.range n).map fun o =>
    (pixelFrom format imageLsbFirst raw (format.bytesPerPixel * o)).getD 0, ?_, fun o ho => ?_⟩
  · rw [publishFrame_pixels]
    exact mapM_eq_some fun o ho => hread o (List.mem_range.mp ho)
  · rw [List.getElem?_map, List.getElem?_range ho, Option.map_some, ← hread o ho]

/-- Where a frame is published, its last pixel was read. -/
theorem lt_of_publishFrame {format : PixelFormat} {imageLsbFirst : Bool} {raw : List UInt8}
    {n : ℕ} {pixels : List ℕ}
    (h : publishFrame format.bitsPerPixel imageLsbFirst raw (n + 1) = some pixels) :
    format.bytesPerPixel * n + 1 < raw.length := by
  rw [publishFrame_pixels] at h
  obtain ⟨v, hv⟩ := exists_of_mapM_eq_some h n (List.mem_range.mpr n.lt_succ_self)
  exact lt_of_pixelFrom hv

/-! ### Sizes that fit -/

/-- The sizes that `frameLoop`, `getImage` and `publishFrame` compute for an image fit each
other and the replies of a server that sends it; `size` and `n` are those of `raw` and of the
framebuffers. -/
structure FrameArithmetic (img : Image) (size n : ℕ) : Prop where
  allocated : allocate img.format.bitsPerPixel img.width img.height = some (size, n)
  room : img.dataLength ≤ size
  /-- `w * bytesPerPixel` -/
  rowBytes : int32 (img.width * img.format.bytesPerPixel) = img.width * img.format.bytesPerPixel
  /-- `rowBytes * h` -/
  imageBytes : int32 (img.width * img.format.bytesPerPixel * img.height) =
    img.width * img.format.bytesPerPixel * img.height
  /-- `length * 4` -/
  replyBytes : int32 ((img.dataLength / 4 : ℕ) * 4) = img.dataLength
  accepted : ∀ raw : List UInt8, raw.length = size → getImage raw img.data = some img.data
  /-- the pixel at `x`, `y` is read from its place in a padded row -/
  place : ∀ raw : List UInt8, raw.length = size → ∃ pixels,
    publishFrame img.format.bitsPerPixel img.lsbFlag raw n = some pixels ∧
      ∀ x < img.width, ∀ y < img.height, pixels[y * img.width + x]? =
        pixelFrom img.format img.lsbFlag raw
          (y * img.paddedRow + x * img.format.bytesPerPixel)

variable {img : Image}

theorem index_lt {x y : ℕ} (hx : x < img.width) (hy : y < img.height) :
    y * img.width + x < img.width * img.height := by
  have hmul : (y + 1) * img.width ≤ img.height * img.width := Nat.mul_le_mul_right _ hy
  rw [Nat.succ_mul, Nat.mul_comm img.height] at hmul
  omega

theorem frameArithmetic_of_fits (h : img.Fits) :
    FrameArithmetic img img.tightLength (img.width * img.height) := by
  have hlt := h.2
  have hlength : img.width * img.format.bytesPerPixel * img.height = img.tightLength := by
    rw [Image.tightLength, Image.tightRow, Nat.mul_comm]
  have hrow : img.width * img.format.bytesPerPixel ≤ img.tightLength := by
    rw [← hlength]
    exact Nat.le_mul_of_pos_right _ img.height_pos
  have hwords : img.dataLength % 4 = 0 := by
    rw [Image.dataLength, roundUp]
    omega
  refine ⟨allocate_of_fits h, Nat.le_of_eq h.1, int32_of_lt (by omega) (by omega), ?_, ?_,
    fun raw hraw => getImage_of_fits h hraw, fun raw hraw => ?_⟩
  · have hcast : (img.width * img.format.bytesPerPixel * img.height : ℤ) = img.tightLength := by
      rw [← hlength]
      push_cast
      rfl
    rw [hcast]
    exact int32_of_lt (by omega) (by omega)
  · rw [h.1] at hwords ⊢
    rw [int32_of_lt (by omega) (by omega)]
    omega
  · have hroom : img.format.bytesPerPixel * (img.width * img.height) = raw.length := by
      rw [hraw, ← hlength, ← Nat.mul_assoc, Nat.mul_comm img.format.bytesPerPixel]
    obtain ⟨pixels, hpixels, hplace⟩ := publishFrame_total (Nat.le_of_eq hroom) img.lsbFlag
    refine ⟨pixels, hpixels, fun x hx y hy => ?_⟩
    have hindex : img.format.bytesPerPixel * (y * img.width + x) =
        y * img.paddedRow + x * img.format.bytesPerPixel := by
      rw [h.paddedRow, Image.tightRow, Nat.mul_comm, Nat.add_mul, Nat.mul_assoc]
    rw [hplace _ (index_lt hx hy), hindex]

theorem FrameArithmetic.fits {size n : ℕ} (h : FrameArithmetic img size n) : img.Fits := by
  have hlength : (img.width * img.format.bytesPerPixel * img.height : ℤ) = img.tightLength := by
    rw [Image.tightLength, Image.tightRow]
    push_cast
    exact Int.mul_comm ..
  have hbytes := h.imageBytes
  rw [hlength] at hbytes
  obtain ⟨q, hq, -, hlt⟩ := int32_spec img.tightLength
  have halloc := h.allocated
  rw [allocate_image, hbytes] at halloc
  split at halloc <;> [cases halloc; skip]
  obtain ⟨hsize, -⟩ := Prod.mk.inj (Option.some_inj.mp halloc)
  have hroom := h.room
  have hle := img.tightLength_le_dataLength
  rw [Int.toNat_natCast] at hsize
  exact ⟨by omega, by omega⟩

/-! ### Which images fit -/

/-- With rows of whole words, the rows are padded if they are of 16 bits a pixel and odd. -/
theorem fits_iff (hpad : img.scanlinePad = .pad32) :
    img.Fits ↔ (img.format = .rgb888 ∨ img.width % 2 = 0) ∧
      img.width * img.height * img.format.bytesPerPixel < 2 ^ 31 := by
  have hlength : img.tightLength = img.width * img.height * img.format.bytesPerPixel := by
    rw [img.tightLength_eq, Nat.mul_comm img.height]
  rw [Image.Fits, hlength]
  refine and_congr_left fun _ => ?_
  have hpadded : img.paddedRow = roundUp img.tightRow 4 := by rw [Image.paddedRow, hpad]; rfl
  have hwhole : img.tightRow % 4 = 0 ↔ img.format = .rgb888 ∨ img.width % 2 = 0 := by
    rw [Image.tightRow]
    cases hf : img.format with
    | rgb888 =>
      refine ⟨fun _ => .inl rfl, fun _ => ?_⟩
      exact Nat.mul_mod_left ..
    | rgb565 =>
      have htwo : PixelFormat.rgb565.bytesPerPixel = 2 := rfl
      rw [htwo]
      constructor
      · intro hmod
        exact .inr (by omega)
      · rintro (hformat | heven)
        · cases hformat
        · omega
  rw [← hwhole, ← hlength]
  constructor
  · intro hsame
    have hfull : img.height * img.paddedRow ≤ img.height * img.tightRow :=
      Nat.le_trans img.height_mul_paddedRow_le (Nat.le_of_eq hsame)
    have hrow := Nat.le_of_mul_le_mul_left hfull img.height_pos
    rw [hpadded, roundUp] at hrow
    omega
  · intro hmod
    have hrow : img.paddedRow = img.tightRow := by
      rw [hpadded, roundUp]
      omega
    have hrows : img.height * img.tightRow % 4 = 0 := by rw [Nat.mul_mod, hmod, Nat.mul_zero]
    rw [Image.dataLength, Image.tightLength, hrow, roundUp]
    omega

/-- With a scanline pad of 32, the sizes fit if and only if the rows have no padding and the
image is smaller than 2 ^ 31 bytes. -/
theorem frame_arithmetic_iff (hpad : img.scanlinePad = .pad32) :
    (∃ size n, FrameArithmetic img size n) ↔
      (img.format = .rgb888 ∨ img.width % 2 = 0) ∧
        img.width * img.height * img.format.bytesPerPixel < 2 ^ 31 := by
  rw [← fits_iff hpad]
  constructor
  · rintro ⟨size, n, h⟩
    exact h.fits
  · intro h
    exact ⟨_, _, frameArithmetic_of_fits h⟩

/-- Three rows of four pixels of 16 bits, all of them different. -/
def evenRows : Image where
  width := 4
  height := 3
  order := .msbFirst
  format := .rgb565
  scanlinePad := .pad32
  pixel x y := (4 * y + x) % 2 ^ 16
  width_pos := by decide
  width_lt := by decide
  height_pos := by decide
  height_lt := by decide
  pixel_lt _ _ := Nat.mod_lt _ (by decide)

theorem evenRows_fits :
    allocate evenRows.format.bitsPerPixel evenRows.width evenRows.height = some (24, 12) ∧
      evenRows.data.length = 24 ∧ ∃ size n, FrameArithmetic evenRows size n :=
  ⟨by decide, by decide, (frame_arithmetic_iff rfl).mpr ⟨.inr (by decide), by decide⟩⟩

/-- Two rows of three black pixels of 16 bits. -/
def oddRows : Image where
  width := 3
  height := 2
  order := .lsbFirst
  format := .rgb565
  scanlinePad := .pad32
  pixel _ _ := 0
  width_pos := by decide
  width_lt := by decide
  height_pos := by decide
  height_lt := by decide
  pixel_lt _ _ := by decide

/-- The reply has 16 bytes, for which 12 are allocated, and is refused. -/
theorem oddRows_refused :
    allocate oddRows.format.bitsPerPixel oddRows.width oddRows.height = some (12, 6) ∧
      oddRows.data.length = 16 ∧ getImage (List.replicate 12 0) oddRows.data = none ∧
      ¬ ∃ size n, FrameArithmetic oddRows size n := by
  have halloc : allocate oddRows.format.bitsPerPixel oddRows.width oddRows.height =
      some (12, 6) := by decide
  refine ⟨halloc, by decide, by decide, ?_⟩
  rintro ⟨size, n, h⟩
  obtain ⟨rfl, -⟩ := Prod.mk.inj (Option.some_inj.mp (halloc.symm.trans h.allocated))
  exact absurd h.room (by decide)

end X11Client
