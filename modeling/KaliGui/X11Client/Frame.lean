/-
A frame from the server's image to the texture (`X11Client.kt`, `X11Renderer.kt`).

The server announces its byte order in the setup reply and sends the root window as a
ZPixmap: rows of pixels in that order, each row padded.  The client reads it into a buffer
without padding, packs every pixel into an `Int` as ARGB, and the renderer hands those to GL
as bytes in the order of memory.

`none` is an exception: an array of negative size, a reply that does not fit, a read out of
bounds.

* `Image`, `Image.data` — the root window and what the server sends of it;
* `allocate`, `getImage`, `publishFrame`, `uploadTexture`, `texel` — the code;
* `colours_right_iff` — the images whose colours come out right.
-/
import KaliGui.Lib.ByteStream
import Mathlib.Algebra.BigOperators.Group.List.Basic

namespace X11Client

open ByteStream

/-! ### What the server sends -/

inductive ByteOrder
  | lsbFirst
  | msbFirst
  deriving DecidableEq, Repr

/-- `imageByteOrder` in the setup reply, as `X.h` numbers the orders. -/
def ByteOrder.code : ByteOrder → UInt8
  | .lsbFirst => 0
  | .msbFirst => 1

/-- The formats the client accepts: 32 bits per pixel with the red mask 0xFF0000, and 16. -/
inductive PixelFormat
  | rgb888
  | rgb565
  deriving DecidableEq, Repr

def PixelFormat.bitsPerPixel : PixelFormat → ℕ
  | .rgb888 => 32
  | .rgb565 => 16

def PixelFormat.bytesPerPixel : PixelFormat → ℕ
  | .rgb888 => 4
  | .rgb565 => 2

/-- `scanline-pad` of a format, in bytes. -/
inductive ScanlinePad
  | pad8
  | pad16
  | pad32
  deriving DecidableEq, Repr

def ScanlinePad.bytes : ScanlinePad → ℕ
  | .pad8 => 1
  | .pad16 => 2
  | .pad32 => 4

/-- The root window; sizes are those a setup reply can carry and the handshake accepts. -/
structure Image where
  width : ℕ
  height : ℕ
  order : ByteOrder
  format : PixelFormat
  scanlinePad : ScanlinePad
  /-- the pixel at `x`, `y` -/
  pixel : ℕ → ℕ → ℕ
  width_pos : 0 < width
  width_lt : width < 2 ^ 16
  height_pos : 0 < height
  height_lt : height < 2 ^ 16
  pixel_lt : ∀ x y, pixel x y < 256 ^ format.bytesPerPixel

/-- The next multiple. -/
def roundUp (n k : ℕ) : ℕ := (n + (k - 1)) / k * k

/-- A pixel in the server's byte order. -/
def Image.pixelBytes (img : Image) (x y : ℕ) : List UInt8 :=
  match img.order with
  | .lsbFirst => leBytes img.format.bytesPerPixel (img.pixel x y)
  | .msbFirst => (leBytes img.format.bytesPerPixel (img.pixel x y)).reverse

/-- The bytes of a row without its padding. -/
def Image.tightRow (img : Image) : ℕ := img.width * img.format.bytesPerPixel

def Image.paddedRow (img : Image) : ℕ := roundUp img.tightRow img.scanlinePad.bytes

def Image.row (img : Image) (y : ℕ) : List UInt8 :=
  (List.range img.width).flatMap (fun x => img.pixelBytes x y) ++
    List.replicate (img.paddedRow - img.tightRow) 0

/-- The length of the reply's data, which is in units of four bytes. -/
def Image.dataLength (img : Image) : ℕ := roundUp (img.height * img.paddedRow) 4

/-- The data of a `GetImage` reply. -/
def Image.data (img : Image) : List UInt8 :=
  (List.range img.height).flatMap img.row ++
    List.replicate (img.dataLength - img.height * img.paddedRow) 0

/-- A colour, every channel from 0 to 255. -/
structure Colour where
  red : ℕ
  green : ℕ
  blue : ℕ
  deriving DecidableEq, Repr

def scale5 (v : ℕ) : ℕ := v * 255 / 31

def scale6 (v : ℕ) : ℕ := v * 255 / 63

/-- The colour of a pixel. -/
def PixelFormat.colour (f : PixelFormat) (v : ℕ) : Colour :=
  match f with
  | .rgb888 => ⟨v / 2 ^ 16 % 256, v / 2 ^ 8 % 256, v % 256⟩
  | .rgb565 => ⟨scale5 (v / 2 ^ 11 % 32), scale6 (v / 2 ^ 5 % 64), scale5 (v % 32)⟩

/-! ### The client -/

/-- `Int` arithmetic. -/
def int32 (n : ℤ) : ℤ := n.bmod (2 ^ 32)

/-- The field `imageLsbFirst`, from the byte in the setup reply. -/
def imageLsbFirst (imageByteOrder : ℕ) : Bool := imageByteOrder == 1

/-- `imageLsbFirst` after the handshake with the server of an image. -/
def Image.lsbFlag (img : Image) : Bool := imageLsbFirst img.order.code.toNat

/-- The sizes of `raw` and of the two framebuffers in `frameLoop`. -/
def allocate (bitsPerPixel w h : ℕ) : Option (ℕ × ℕ) :=
  let bytesPerPixel : ℤ := bitsPerPixel / 8
  let rowBytes := int32 (w * bytesPerPixel)
  let raw := int32 (rowBytes * h)
  let frame := int32 (w * h)
  if raw < 0 ∨ frame < 0 then none else some (raw.toNat, frame.toNat)

/-- `getImage`, where the server answers with a reply; `raw` as it is after the call. -/
def getImage (raw data : List UInt8) : Option (List UInt8) :=
  let length := int32 (data.length / 4 : ℕ)
  let bytes := int32 (length * 4)
  if bytes ≤ 0 ∨ raw.length < bytes then none
  else if data.length < bytes then none
  else some (data.take bytes.toNat ++ raw.drop bytes.toNat)

/-- `0xFF000000 or (r shl 16) or (g shl 8) or b`. -/
def argb (r g b : ℕ) : ℕ := 0xFF <<< 24 ||| r <<< 16 ||| g <<< 8 ||| b

/-- A turn of the loop for 32 bits per pixel. -/
def pixel32 (imageLsbFirst : Bool) (raw : List UInt8) (i : ℕ) : Option ℕ := do
  let b0 ← raw[i]?
  let b1 ← raw[i + 1]?
  let b2 ← raw[i + 2]?
  if imageLsbFirst then return argb b2.toNat b1.toNat b0.toNat
  else return argb b0.toNat b1.toNat b2.toNat

/-- A turn of the loop for 16 bits per pixel. -/
def pixel16 (imageLsbFirst : Bool) (raw : List UInt8) (i : ℕ) : Option ℕ := do
  let lo ← raw[i]?
  let hi ← raw[i + 1]?
  let v := if imageLsbFirst then hi.toNat <<< 8 ||| lo.toNat else lo.toNat <<< 8 ||| hi.toNat
  return argb ((v >>> 11 &&& 0x1F) * 255 / 31) ((v >>> 5 &&& 0x3F) * 255 / 63)
    ((v &&& 0x1F) * 255 / 31)

/-- `publishFrame` into a framebuffer of `n` pixels. -/
def publishFrame (bitsPerPixel : ℕ) (imageLsbFirst : Bool) (raw : List UInt8) (n : ℕ) :
    Option (List ℕ) :=
  if bitsPerPixel = 32 then
    (List.range n).mapM fun o => pixel32 imageLsbFirst raw (4 * o)
  else if bitsPerPixel = 16 then
    (List.range n).mapM fun o => pixel16 imageLsbFirst raw (2 * o)
  else none

/-! ### The renderer -/

/-- `uploadTexture`: the bytes GL reads from the `IntBuffer`, in little-endian order. -/
def uploadTexture (pixels : List ℕ) : List UInt8 := pixels.flatMap (leBytes 4)

/-- What the texture holds at `x`, `y`: `GL_RGBA` of `GL_UNSIGNED_BYTE`. -/
def texel (bytes : List UInt8) (width x y : ℕ) : Option Colour := do
  let r ← bytes[(y * width + x) * 4]?
  let g ← bytes[(y * width + x) * 4 + 1]?
  let b ← bytes[(y * width + x) * 4 + 2]?
  return ⟨r.toNat, g.toNat, b.toNat⟩

/-- The texture of the image, where `raw` holds what earlier frames left there and the
framebuffers have `n` pixels. -/
def texture (img : Image) (raw : List UInt8) (n : ℕ) : Option (List UInt8) := do
  let raw ← getImage raw img.data
  let pixels ← publishFrame img.format.bitsPerPixel (img.lsbFlag) raw n
  return uploadTexture pixels

/-- Every texel has the colour of its pixel. -/
def ColoursRight (img : Image) : Prop :=
  ∃ size n, allocate img.format.bitsPerPixel img.width img.height = some (size, n) ∧
    ∀ raw : List UInt8, raw.length = size → ∀ x < img.width, ∀ y < img.height,
      (texture img raw n).bind (fun bytes => texel bytes img.width x y) =
        some (img.format.colour (img.pixel x y))

/-! ### Packing and unpacking -/

theorem argb_eq {r g b : ℕ} (hr : r < 256) (hg : g < 256) (hb : b < 256) :
    argb r g b = b + 256 * (g + 256 * (r + 256 * 255)) := by
  have h₁ : 0xFF <<< 24 ||| r <<< 16 = (0xFF * 256 + r) <<< 16 := by
    rw [← Nat.shiftLeft_add_eq_or_of_lt (by rw [Nat.shiftLeft_eq]; omega)]
    simp only [Nat.shiftLeft_eq]
    omega
  have h₂ : (0xFF * 256 + r) <<< 16 ||| g <<< 8 = ((0xFF * 256 + r) * 256 + g) <<< 8 := by
    rw [← Nat.shiftLeft_add_eq_or_of_lt (by rw [Nat.shiftLeft_eq]; omega)]
    simp only [Nat.shiftLeft_eq]
    omega
  rw [argb, h₁, h₂, ← Nat.shiftLeft_add_eq_or_of_lt (by omega), Nat.shiftLeft_eq]
  omega

/-- Memory holds blue first. -/
theorem leBytes_argb {r g b : ℕ} (hr : r < 256) (hg : g < 256) (hb : b < 256) :
    leBytes 4 (argb r g b) = [UInt8.ofNat b, UInt8.ofNat g, UInt8.ofNat r, 255] := by
  have hbyte : ∀ {m n : ℕ}, m % 256 = n % 256 → UInt8.ofNat m = UInt8.ofNat n := by
    intro m n h
    rw [← UInt8.toNat_inj, UInt8.toNat_ofNat', UInt8.toNat_ofNat']
    exact h
  rw [argb_eq hr hg hb]
  simp only [leBytes, List.cons.injEq, and_true]
  refine ⟨hbyte (by omega), hbyte (by omega), hbyte (by omega), ?_⟩
  exact hbyte (n := 255) (by omega)

/-- A colour of three bytes. -/
structure Colour.Bytes (c : Colour) : Prop where
  red : c.red < 256
  green : c.green < 256
  blue : c.blue < 256

/-- Red and blue exchanged. -/
def Colour.swapped (c : Colour) : Colour := ⟨c.blue, c.green, c.red⟩

/-- The texture of packed colours: GL takes the first byte of each for the red. -/
theorem texel_uploadTexture {n : ℕ} {c : ℕ → Colour} (hc : ∀ o < n, (c o).Bytes) {w x y : ℕ}
    (ho : y * w + x < n) :
    texel (uploadTexture ((List.range n).map fun o => argb (c o).red (c o).green (c o).blue)) w x y
      = some (c (y * w + x)).swapped := by
  have hbytes := hc _ ho
  have hblock : ∀ a ∈ (List.range n).map fun o => argb (c o).red (c o).green (c o).blue,
      (leBytes 4 a).length = 4 := fun a _ => leBytes_length 4 a
  have hget : ((List.range n).map fun o => argb (c o).red (c o).green (c o).blue)[y * w + x]? =
      some (argb (c (y * w + x)).red (c (y * w + x)).green (c (y * w + x)).blue) := by
    rw [List.getElem?_map, List.getElem?_range ho]
    rfl
  have hread : ∀ j < 4, (uploadTexture
      ((List.range n).map fun o => argb (c o).red (c o).green (c o).blue))[(y * w + x) * 4 + j]? =
      [UInt8.ofNat (c (y * w + x)).blue, UInt8.ofNat (c (y * w + x)).green,
        UInt8.ofNat (c (y * w + x)).red, 255][j]? := by
    intro j hj
    rw [uploadTexture, getElem?_flatMap_of_length hblock hj hget,
      leBytes_argb hbytes.red hbytes.green hbytes.blue]
  have h₀ := hread 0 (by omega)
  rw [Nat.add_zero] at h₀
  rw [texel, h₀, hread 1 (by omega), hread 2 (by omega)]
  have hnat : ∀ {m : ℕ}, m < 256 → (UInt8.ofNat m).toNat = m := fun h =>
    UInt8.toNat_ofNat_of_lt h
  simp [Colour.swapped, hnat hbytes.red, hnat hbytes.green, hnat hbytes.blue]

/-- The colour the client reads from a pixel: it takes the bytes in the order that the server
does not have, and for 32 bits per pixel the first three of them. -/
def Image.decoded (img : Image) (v : ℕ) : Colour :=
  match img.format, img.order with
  | .rgb888, .lsbFirst => ⟨v % 256, v / 2 ^ 8 % 256, v / 2 ^ 16 % 256⟩
  | .rgb888, .msbFirst => ⟨v / 2 ^ 8 % 256, v / 2 ^ 16 % 256, v / 2 ^ 24 % 256⟩
  | .rgb565, _ => PixelFormat.rgb565.colour (v % 256 * 256 + v / 256)

theorem PixelFormat.colour_bytes (f : PixelFormat) (v : ℕ) : (f.colour v).Bytes := by
  cases f with
  | rgb888 => exact ⟨Nat.mod_lt _ (by omega), Nat.mod_lt _ (by omega), Nat.mod_lt _ (by omega)⟩
  | rgb565 =>
    constructor
    · simp only [PixelFormat.colour, scale5]
      omega
    · simp only [PixelFormat.colour, scale6]
      omega
    · simp only [PixelFormat.colour, scale5]
      omega

theorem Image.decoded_bytes (img : Image) (v : ℕ) : (img.decoded v).Bytes := by
  rw [decoded]
  split
  · exact ⟨Nat.mod_lt _ (by omega), Nat.mod_lt _ (by omega), Nat.mod_lt _ (by omega)⟩
  · exact ⟨Nat.mod_lt _ (by omega), Nat.mod_lt _ (by omega), Nat.mod_lt _ (by omega)⟩
  · exact PixelFormat.colour_bytes _ _

/-- The bytes of a pixel are at `i`. -/
def Image.PixelAt (img : Image) (raw : List UInt8) (x y i : ℕ) : Prop :=
  ∀ j < img.format.bytesPerPixel, raw[i + j]? = (img.pixelBytes x y)[j]?

/-- A turn of either loop. -/
def readPixel (img : Image) (raw : List UInt8) (o : ℕ) : Option ℕ :=
  match img.format with
  | .rgb888 => pixel32 (img.lsbFlag) raw (4 * o)
  | .rgb565 => pixel16 (img.lsbFlag) raw (2 * o)

theorem publishFrame_eq (img : Image) (raw : List UInt8) (n : ℕ) :
    publishFrame img.format.bitsPerPixel (img.lsbFlag) raw n =
      (List.range n).mapM (readPixel img raw) := by
  have hread : readPixel img raw = match img.format with
      | .rgb888 => fun o => pixel32 (img.lsbFlag) raw (4 * o)
      | .rgb565 => fun o => pixel16 (img.lsbFlag) raw (2 * o) := by
    funext o
    rw [readPixel]
    cases img.format <;> rfl
  rw [hread]
  cases img.format <;> rfl

/-- The channels of a pixel of 16 bits, from its two bytes. -/
theorem rgb565_bits {a b : ℕ} (hb : b < 256) :
    (a <<< 8 ||| b) >>> 11 &&& 0x1F = (a * 256 + b) / 2 ^ 11 % 32 ∧
      (a <<< 8 ||| b) >>> 5 &&& 0x3F = (a * 256 + b) / 2 ^ 5 % 64 ∧
      (a <<< 8 ||| b) &&& 0x1F = (a * 256 + b) % 32 := by
  rw [← Nat.shiftLeft_add_eq_or_of_lt (by omega), Nat.shiftLeft_eq]
  have hmask : ∀ n k : ℕ, n &&& (2 ^ k - 1) = n % 2 ^ k := fun n k =>
    Nat.and_two_pow_sub_one_eq_mod n k
  refine ⟨?_, ?_, ?_⟩
  · rw [Nat.shiftRight_eq_div_pow]
    exact hmask _ 5
  · rw [Nat.shiftRight_eq_div_pow]
    exact hmask _ 6
  · exact hmask _ 5

/-- Where the bytes of a pixel are read, the client has its `decoded` colour. -/
theorem readPixel_eq {img : Image} {raw : List UInt8} {x y o : ℕ}
    (h : img.PixelAt raw x y (o * img.format.bytesPerPixel)) :
    readPixel img raw o =
      some (argb (img.decoded (img.pixel x y)).red (img.decoded (img.pixel x y)).green
        (img.decoded (img.pixel x y)).blue) := by
  have hlt := img.pixel_lt x y
  have hread := h
  -- four bytes or two to a pixel, in either byte order
  rcases hf : img.format
  · rw [Image.PixelAt, hf] at hread
    have h₀ := hread 0 (by decide)
    have h₁ := hread 1 (by decide)
    have h₂ := hread 2 (by decide)
    rcases ho : img.order
    · have hflag : img.lsbFlag = false := by rw [Image.lsbFlag, ho]; rfl
      simp [Image.pixelBytes, ho, hf, PixelFormat.bytesPerPixel, leBytes] at h₀ h₁ h₂
      simp [readPixel, hf, ho, hflag, pixel32, Nat.mul_comm 4 o, h₀, h₁, h₂, Image.decoded,
        Nat.div_div_eq_div_mul]
    · have hflag : img.lsbFlag = true := by rw [Image.lsbFlag, ho]; rfl
      simp [Image.pixelBytes, ho, hf, PixelFormat.bytesPerPixel, leBytes] at h₀ h₁ h₂
      simp [readPixel, hf, ho, hflag, pixel32, Nat.mul_comm 4 o, h₀, h₁, h₂, Image.decoded,
        Nat.div_div_eq_div_mul]
  · rw [Image.PixelAt, hf] at hread
    have h₀ := hread 0 (by decide)
    have h₁ := hread 1 (by decide)
    rw [hf] at hlt
    have hhigh : img.pixel x y / 256 % 256 = img.pixel x y / 256 := by
      have hlt' : img.pixel x y < 65536 := hlt
      omega
    obtain ⟨hr, hg, hb⟩ := rgb565_bits (a := img.pixel x y % 256)
      (b := img.pixel x y / 256 % 256) (Nat.mod_lt _ (by omega))
    rcases ho : img.order
    · have hflag : img.lsbFlag = false := by rw [Image.lsbFlag, ho]; rfl
      simp [Image.pixelBytes, ho, hf, PixelFormat.bytesPerPixel, leBytes] at h₀ h₁
      simp [readPixel, hf, hflag, pixel16, Nat.mul_comm 2 o, h₀, h₁, Image.decoded,
        PixelFormat.colour, scale5, scale6, hr, hg, hb]
      simp [hhigh]
    · have hflag : img.lsbFlag = true := by rw [Image.lsbFlag, ho]; rfl
      simp [Image.pixelBytes, ho, hf, PixelFormat.bytesPerPixel, leBytes] at h₀ h₁
      simp [readPixel, hf, hflag, pixel16, Nat.mul_comm 2 o, h₀, h₁, Image.decoded,
        PixelFormat.colour, scale5, scale6, hr, hg, hb]
      simp [hhigh]

/-! ### Sizes -/

theorem le_roundUp {n k : ℕ} (hk : k = 1 ∨ k = 2 ∨ k = 4) : n ≤ roundUp n k := by
  rw [roundUp]
  rcases hk with rfl | rfl | rfl <;> omega

theorem roundUp_le {n k : ℕ} (hk : k = 1 ∨ k = 2 ∨ k = 4) : roundUp n k ≤ n + 3 := by
  rw [roundUp]
  rcases hk with rfl | rfl | rfl <;> omega

theorem ScanlinePad.bytes_eq (p : ScanlinePad) : p.bytes = 1 ∨ p.bytes = 2 ∨ p.bytes = 4 := by
  cases p with
  | pad8 => exact .inl rfl
  | pad16 => exact .inr (.inl rfl)
  | pad32 => exact .inr (.inr rfl)

theorem PixelFormat.bytesPerPixel_eq (f : PixelFormat) :
    f.bytesPerPixel = 4 ∧ f.bitsPerPixel = 32 ∨ f.bytesPerPixel = 2 ∧ f.bitsPerPixel = 16 := by
  cases f with
  | rgb888 => exact .inl ⟨rfl, rfl⟩
  | rgb565 => exact .inr ⟨rfl, rfl⟩

variable (img : Image)

theorem Image.tightRow_le_paddedRow : img.tightRow ≤ img.paddedRow :=
  le_roundUp img.scanlinePad.bytes_eq

theorem Image.height_mul_paddedRow_le : img.height * img.paddedRow ≤ img.dataLength :=
  le_roundUp (.inr (.inr rfl))

/-- The length of the image without any padding. -/
def Image.tightLength : ℕ := img.height * img.tightRow

theorem Image.tightLength_eq :
    img.tightLength = img.height * img.width * img.format.bytesPerPixel := by
  rw [tightLength, tightRow, Nat.mul_assoc]

theorem Image.tightLength_le_dataLength : img.tightLength ≤ img.dataLength :=
  Nat.le_trans (Nat.mul_le_mul_left _ img.tightRow_le_paddedRow) img.height_mul_paddedRow_le

/-- Padding takes at most three bytes a row, and three at the end. -/
theorem Image.dataLength_le : img.dataLength ≤ img.tightLength + 3 * img.height + 3 := by
  have hrow : img.paddedRow ≤ img.tightRow + 3 := roundUp_le img.scanlinePad.bytes_eq
  have hrows : img.height * img.paddedRow ≤ img.height * (img.tightRow + 3) :=
    Nat.mul_le_mul_left _ hrow
  have hend : img.dataLength ≤ img.height * img.paddedRow + 3 := roundUp_le (.inr (.inr rfl))
  rw [Nat.mul_add] at hrows
  rw [tightLength]
  omega

theorem Image.pixelBytes_length (x y : ℕ) :
    (img.pixelBytes x y).length = img.format.bytesPerPixel := by
  rw [pixelBytes]
  split
  · exact leBytes_length ..
  · rw [List.length_reverse]
    exact leBytes_length ..

theorem Image.row_length (y : ℕ) : (img.row y).length = img.paddedRow := by
  have hpad := img.tightRow_le_paddedRow
  rw [row, List.length_append, List.length_replicate,
    length_flatMap_of_length fun x _ => img.pixelBytes_length x y, List.length_range]
  rw [tightRow] at hpad ⊢
  omega

theorem Image.data_length : img.data.length = img.dataLength := by
  have hpad := img.height_mul_paddedRow_le
  rw [data, List.length_append, List.length_replicate,
    length_flatMap_of_length fun y _ => img.row_length y, List.length_range]
  omega

/-- Where the bytes of a pixel are in the data of the reply. -/
theorem Image.data_getElem? {x y j : ℕ} (hx : x < img.width) (hy : y < img.height)
    (hj : j < img.format.bytesPerPixel) :
    img.data[y * img.paddedRow + (x * img.format.bytesPerPixel + j)]? =
      (img.pixelBytes x y)[j]? := by
  have hin : x * img.format.bytesPerPixel + j < img.tightRow := by
    have hmul : (x + 1) * img.format.bytesPerPixel ≤ img.width * img.format.bytesPerPixel :=
      Nat.mul_le_mul_right _ hx
    rw [Nat.succ_mul] at hmul
    rw [tightRow]
    omega
  have hpad := img.tightRow_le_paddedRow
  have hrows : y * img.paddedRow + (x * img.format.bytesPerPixel + j) <
      ((List.range img.height).flatMap img.row).length := by
    rw [length_flatMap_of_length fun y _ => img.row_length y, List.length_range]
    have hmul : (y + 1) * img.paddedRow ≤ img.height * img.paddedRow := Nat.mul_le_mul_right _ hy
    rw [Nat.succ_mul] at hmul
    omega
  rw [data, List.getElem?_append_left hrows,
    getElem?_flatMap_of_length (fun y _ => img.row_length y) (by omega)
      (List.getElem?_range hy), row, List.getElem?_append_left]
  · exact getElem?_flatMap_of_length (fun x _ => img.pixelBytes_length x y) hj
      (List.getElem?_range hx)
  · rw [length_flatMap_of_length fun x _ => img.pixelBytes_length x y, List.length_range]
    exact hin

/-! ### `Int` arithmetic -/

theorem int32_spec (n : ℤ) :
    ∃ q, int32 n = n - 2 ^ 32 * q ∧ -2 ^ 31 ≤ int32 n ∧ int32 n < 2 ^ 31 := by
  refine ⟨n.bdiv (2 ^ 32), ?_, ?_, ?_⟩
  · exact Int.bmod_eq_self_sub_mul_bdiv n (2 ^ 32)
  · exact Int.le_bmod (by decide)
  · exact Int.bmod_lt (by decide)

theorem int32_of_lt {n : ℤ} (h₀ : 0 ≤ n) (h : n < 2 ^ 31) : int32 n = n := by
  obtain ⟨q, hq, hlo, hhi⟩ := int32_spec n
  omega

/-- What `frameLoop` allocates; the row does not wrap. -/
theorem allocate_eq (format : PixelFormat) {w : ℕ} (hw : w < 2 ^ 16) (h : ℕ) :
    allocate format.bitsPerPixel w h =
      if int32 (w * format.bytesPerPixel * h : ℕ) < 0 ∨ int32 (w * h : ℕ) < 0 then none
      else some ((int32 (w * format.bytesPerPixel * h : ℕ)).toNat, (int32 (w * h : ℕ)).toNat) := by
  have hbytes : ((format.bitsPerPixel : ℤ) / 8) = format.bytesPerPixel := by
    cases format <;> rfl
  have hrow : int32 (w * format.bytesPerPixel) = w * format.bytesPerPixel := by
    rcases format.bytesPerPixel_eq with ⟨hk, -⟩ | ⟨hk, -⟩
    · rw [hk]
      exact int32_of_lt (by omega) (by omega)
    · rw [hk]
      exact int32_of_lt (by omega) (by omega)
  simp only [allocate, hbytes, hrow, Int.natCast_mul]

theorem allocate_image :
    allocate img.format.bitsPerPixel img.width img.height =
      if int32 img.tightLength < 0 ∨ int32 (img.width * img.height : ℕ) < 0 then none
      else some ((int32 img.tightLength).toNat, (int32 (img.width * img.height : ℕ)).toNat) := by
  have htotal : img.width * img.format.bytesPerPixel * img.height = img.tightLength := by
    rw [Image.tightLength, Image.tightRow, Nat.mul_comm]
  rw [allocate_eq img.format img.width_lt, htotal]

/-! ### Replies that fit -/

/-- The reply is not padded, and its length is an `Int`. -/
def Image.Fits : Prop := img.dataLength = img.tightLength ∧ img.tightLength < 2 ^ 31

variable {img}

theorem Image.Fits.paddedRow (h : img.Fits) : img.paddedRow = img.tightRow := by
  have hle := h.1 ▸ img.height_mul_paddedRow_le
  exact Nat.le_antisymm (Nat.le_of_mul_le_mul_left hle img.height_pos) img.tightRow_le_paddedRow

/-- A reply that fits leaves the image in `raw`. -/
theorem getImage_of_fits (h : img.Fits) {raw : List UInt8} (hraw : raw.length = img.tightLength) :
    getImage raw img.data = some img.data := by
  have hlen : img.data.length = img.tightLength := img.data_length.trans h.1
  have hpos : 0 < img.tightLength := by
    rw [img.tightLength_eq]
    rcases img.format.bytesPerPixel_eq with ⟨hk, -⟩ | ⟨hk, -⟩
    · rw [hk]
      exact Nat.mul_pos (Nat.mul_pos img.height_pos img.width_pos) (by decide)
    · rw [hk]
      exact Nat.mul_pos (Nat.mul_pos img.height_pos img.width_pos) (by decide)
  have hwords : img.tightLength % 4 = 0 := by
    rw [← h.1, Image.dataLength, roundUp]
    omega
  have hlt := h.2
  have hlength : int32 (img.tightLength / 4 : ℕ) = (img.tightLength / 4 : ℕ) :=
    int32_of_lt (by omega) (by omega)
  have hbytes : int32 (int32 (img.data.length / 4 : ℕ) * 4) = img.tightLength := by
    rw [hlen, hlength, int32_of_lt (by omega) (by omega)]
    omega
  have htake : img.data.take img.tightLength = img.data := List.take_of_length_le (by omega)
  have hdrop : raw.drop img.tightLength = [] := List.drop_eq_nil_of_le (by omega)
  simp only [getImage, hbytes]
  rw [if_neg (by omega), if_neg (by omega), Int.toNat_natCast, htake, hdrop, List.append_nil]

/-- Then each pixel is where the client looks for it. -/
theorem pixelAt_of_fits (h : img.Fits) {x y : ℕ} (hx : x < img.width) (hy : y < img.height) :
    img.PixelAt img.data x y ((y * img.width + x) * img.format.bytesPerPixel) := by
  intro j hj
  have hindex : (y * img.width + x) * img.format.bytesPerPixel + j =
      y * img.paddedRow + (x * img.format.bytesPerPixel + j) := by
    rw [h.paddedRow, Image.tightRow, Nat.add_mul, Nat.mul_assoc, Nat.add_assoc]
  rw [hindex]
  exact img.data_getElem? hx hy hj

/-- The colour the client has for the pixel number `o`. -/
def Image.clientColour (img : Image) (o : ℕ) : Colour :=
  img.decoded (img.pixel (o % img.width) (o / img.width))

theorem publishFrame_of_fits (h : img.Fits) :
    publishFrame img.format.bitsPerPixel (img.lsbFlag) img.data
        (img.width * img.height) =
      some ((List.range (img.width * img.height)).map fun o =>
        argb (img.clientColour o).red (img.clientColour o).green (img.clientColour o).blue) := by
  rw [publishFrame_eq]
  refine mapM_eq_some fun o ho => ?_
  have ho : o < img.width * img.height := List.mem_range.mp ho
  have hat := pixelAt_of_fits h (Nat.mod_lt o img.width_pos) (Nat.div_lt_of_lt_mul ho)
  have hindex : o / img.width * img.width + o % img.width = o := by
    rw [Nat.mul_comm]
    exact Nat.div_add_mod o img.width
  rw [hindex] at hat
  exact readPixel_eq hat

/-- Where a reply fits, the texture has every pixel, with red and blue exchanged. -/
theorem texel_of_fits (h : img.Fits) {raw : List UInt8} (hraw : raw.length = img.tightLength)
    {x y : ℕ} (hx : x < img.width) (hy : y < img.height) :
    (texture img raw (img.width * img.height)).bind (fun bytes => texel bytes img.width x y) =
      some (img.decoded (img.pixel x y)).swapped := by
  have ho : y * img.width + x < img.width * img.height := by
    have hmul : (y + 1) * img.width ≤ img.height * img.width := Nat.mul_le_mul_right _ hy
    rw [Nat.succ_mul, Nat.mul_comm img.height] at hmul
    omega
  have hcolour : img.clientColour (y * img.width + x) = img.decoded (img.pixel x y) := by
    rw [Image.clientColour, Nat.mul_comm y, Nat.mul_add_mod, Nat.mod_eq_of_lt hx,
      Nat.mul_add_div img.width_pos, Nat.div_eq_of_lt hx, Nat.add_zero]
  have htexture : texture img raw (img.width * img.height) =
      some (uploadTexture ((List.range (img.width * img.height)).map fun o =>
        argb (img.clientColour o).red (img.clientColour o).green (img.clientColour o).blue)) := by
    simp only [texture, getImage_of_fits h hraw, Option.bind_eq_bind, Option.bind_some,
      publishFrame_of_fits h]
    rfl
  rw [htexture, Option.bind_some,
    texel_uploadTexture (c := img.clientColour) (fun o _ => img.decoded_bytes _) ho, hcolour]

/-- What is allocated for a reply that fits. -/
theorem allocate_of_fits (h : img.Fits) :
    allocate img.format.bitsPerPixel img.width img.height =
      some (img.tightLength, img.width * img.height) := by
  have hlt := h.2
  have hframe : img.width * img.height ≤ img.tightLength := by
    rw [img.tightLength_eq, Nat.mul_comm img.height]
    rcases img.format.bytesPerPixel_eq with ⟨hk, -⟩ | ⟨hk, -⟩
    · rw [hk]
      omega
    · rw [hk]
      omega
  rw [allocate_image, int32_of_lt (by omega) (by omega), int32_of_lt (by omega) (by omega),
    if_neg (by omega), Int.toNat_natCast, Int.toNat_natCast]

/-! ### Replies that do not fit -/

theorem getImage_length {raw raw' data : List UInt8} (h : getImage raw data = some raw') :
    raw'.length = raw.length ∧ 0 < int32 (int32 (data.length / 4 : ℕ) * 4) ∧
      int32 (int32 (data.length / 4 : ℕ) * 4) ≤ raw.length := by
  simp only [getImage] at h
  split at h
  · simp at h
  split at h
  · simp at h
  next hsize hdata =>
    rw [← Option.some_inj.mp h, List.length_append, List.length_take, List.length_drop]
    omega

/-- A pixel that was read lies in `raw`. -/
theorem readPixel_bounds {raw : List UInt8} {o v : ℕ} (h : readPixel img raw o = some v) :
    o * img.format.bytesPerPixel + 1 < raw.length ∧
      (img.format.bytesPerPixel = 4 → o * 4 + 2 < raw.length) := by
  rw [readPixel] at h
  split at h
  next hf =>
    obtain ⟨b0, -, h⟩ := Option.bind_eq_some_iff.mp h
    obtain ⟨b1, -, h⟩ := Option.bind_eq_some_iff.mp h
    obtain ⟨b2, h₂, -⟩ := Option.bind_eq_some_iff.mp h
    obtain ⟨hlt, -⟩ := List.getElem?_eq_some_iff.mp h₂
    rw [hf]
    constructor
    · show o * 4 + 1 < raw.length
      omega
    · intro _
      omega
  next hf =>
    obtain ⟨lo, -, h⟩ := Option.bind_eq_some_iff.mp h
    obtain ⟨hi, h₁, -⟩ := Option.bind_eq_some_iff.mp h
    obtain ⟨hlt, -⟩ := List.getElem?_eq_some_iff.mp h₁
    rw [hf]
    constructor
    · show o * 2 + 1 < raw.length
      omega
    · exact fun h => absurd h (by decide)

/-- The length of a reply's data, from its count of words. -/
theorem int32_words {d : ℕ} (hwords : d % 4 = 0) (hlt : d < 2 ^ 32) :
    int32 (int32 (d / 4 : ℕ) * 4) = int32 d := by
  have hlength : int32 (d / 4 : ℕ) = (d / 4 : ℕ) := int32_of_lt (by omega) (by omega)
  have hexact : ((d / 4 : ℕ) * 4 : ℤ) = d := by omega
  rw [hlength, hexact]

/-- A reply that is hardly longer than the image, and is accepted, is not longer. -/
theorem dataLength_eq {d t : ℕ} (hle : t ≤ d) (hpad : d ≤ t + 2 ^ 18) (ht : t < 2 ^ 31)
    (hpos : 0 < int32 d) (hsize : int32 d ≤ t) : d = t := by
  by_cases hd : d < 2 ^ 31
  · rw [int32_of_lt (by omega) (by omega)] at hsize
    omega
  · obtain ⟨q, hq, -, hhi⟩ := int32_spec d
    omega

/-- If there is a texture at all, the reply fits. -/
theorem fits_of_texture {size n : ℕ} {raw bytes : List UInt8}
    (halloc : allocate img.format.bitsPerPixel img.width img.height = some (size, n))
    (hraw : raw.length = size) (htexture : texture img raw n = some bytes) : img.Fits := by
  simp only [texture, Option.bind_eq_bind, Option.bind_eq_some_iff] at htexture
  obtain ⟨raw', hget, pixels, hpixels, -⟩ := htexture
  obtain ⟨hlen, hpos, hle⟩ := getImage_length hget
  rw [img.data_length] at hpos hle
  rw [publishFrame_eq] at hpixels
  rw [allocate_image] at halloc
  split at halloc
  · simp at halloc
  next hsigns =>
    obtain ⟨hsize, hn⟩ := Prod.mk.inj (Option.some_inj.mp halloc)
    have hw := img.width_lt
    have hh := img.height_lt
    -- the frame has as many pixels as the image, which are fewer than 2 ^ 31
    have hframe : img.width * img.height < 2 ^ 32 := by
      have hmul : img.width * img.height ≤ 65535 * 65535 :=
        Nat.mul_le_mul (Nat.le_of_lt_succ hw) (Nat.le_of_lt_succ hh)
      omega
    have hpixelsPos : 0 < img.width * img.height := Nat.mul_pos img.width_pos img.height_pos
    obtain ⟨q, hq, hlo, hhi⟩ := int32_spec (img.width * img.height : ℕ)
    have hn' : n = img.width * img.height := by omega
    -- its last pixel was read, so `raw` is as long as the image without padding
    obtain ⟨v, hv⟩ := exists_of_mapM_eq_some hpixels (n - 1) (List.mem_range.mpr (by omega))
    obtain ⟨hlast, hlast'⟩ := readPixel_bounds hv
    obtain ⟨q', hq', hlo', hhi'⟩ := int32_spec img.tightLength
    have htight := img.tightLength_eq
    rw [Nat.mul_comm img.height] at htight
    have hfits : img.tightLength < 2 ^ 31 ∧ raw.length = img.tightLength := by
      rcases img.format.bytesPerPixel_eq with ⟨hk, -⟩ | ⟨hk, -⟩
      · rw [hk] at htight
        have hlast' := hlast' hk
        omega
      · rw [hk] at htight hlast
        omega
    -- and the reply, which is in whole words, is not longer than that
    have hdata := img.dataLength_le
    have hwords : img.dataLength % 4 = 0 := by
      rw [Image.dataLength, roundUp]
      omega
    have hle' := img.tightLength_le_dataLength
    have hlt : img.dataLength < 2 ^ 32 := by omega
    rw [int32_words hwords hlt] at hpos hle
    exact ⟨dataLength_eq hle' (by omega) hfits.1 hpos (by omega), hfits.1⟩

/-! ### When the colours are right -/

/-- A pixel whose colour survives: in LSB order any, since the client takes its bytes in the
wrong order and the renderer does so again; in MSB order one with the same in all its four
bytes; of 16 bits, one whose channels are those of its bytes exchanged, red and blue
exchanged as well. -/
def KeepsColour (img : Image) (v : ℕ) : Prop :=
  match img.format, img.order with
  | .rgb888, .lsbFirst => True
  | .rgb888, .msbFirst =>
    v / 2 ^ 24 = v / 2 ^ 16 % 256 ∧ v / 2 ^ 16 % 256 = v / 2 ^ 8 % 256 ∧
      v / 2 ^ 8 % 256 = v % 256
  | .rgb565, _ =>
    let exchanged := v % 256 * 256 + v / 256
    exchanged % 32 = v / 2 ^ 11 % 32 ∧ exchanged / 2 ^ 5 % 64 = v / 2 ^ 5 % 64 ∧
      exchanged / 2 ^ 11 % 32 = v % 32

theorem scale5_inj {a b : ℕ} : scale5 a = scale5 b ↔ a = b := by
  constructor
  · intro h
    rw [scale5, scale5] at h
    omega
  · rintro rfl
    rfl

theorem scale6_inj {a b : ℕ} : scale6 a = scale6 b ↔ a = b := by
  constructor
  · intro h
    rw [scale6, scale6] at h
    omega
  · rintro rfl
    rfl

theorem keepsColour_iff (x y : ℕ) :
    KeepsColour img (img.pixel x y) ↔
      (img.decoded (img.pixel x y)).swapped = img.format.colour (img.pixel x y) := by
  have hlt := img.pixel_lt x y
  rcases hf : img.format
  · have hlt' : img.pixel x y < 2 ^ 32 := by
      rw [hf] at hlt
      exact hlt
    rcases ho : img.order
    · simp only [KeepsColour, hf, ho, Image.decoded, PixelFormat.colour, Colour.swapped]
    · simp only [KeepsColour, hf, ho, Image.decoded, PixelFormat.colour, Colour.swapped,
        Colour.mk.injEq]
      omega
  · simp only [KeepsColour, hf, Image.decoded, PixelFormat.colour, Colour.swapped,
      Colour.mk.injEq, scale5_inj, scale6_inj]

/-- Every texel has the colour of its pixel if and only if the reply fits and each pixel is
one whose colour survives. -/
theorem colours_right_iff (img : Image) :
    ColoursRight img ↔
      img.Fits ∧ ∀ x < img.width, ∀ y < img.height, KeepsColour img (img.pixel x y) := by
  constructor
  · rintro ⟨size, n, halloc, hright⟩
    have hfits : img.Fits := by
      have h₀ := hright (List.replicate size 0) List.length_replicate 0 img.width_pos 0
        img.height_pos
      obtain ⟨bytes, hbytes, -⟩ := Option.bind_eq_some_iff.mp h₀
      exact fits_of_texture halloc List.length_replicate hbytes
    refine ⟨hfits, fun x hx y hy => (keepsColour_iff x y).mpr ?_⟩
    rw [allocate_of_fits hfits] at halloc
    obtain ⟨rfl, rfl⟩ := Prod.mk.inj (Option.some_inj.mp halloc)
    have hxy := hright (List.replicate img.tightLength 0) List.length_replicate x hx y hy
    rw [texel_of_fits hfits List.length_replicate hx hy] at hxy
    exact Option.some_inj.mp hxy
  · rintro ⟨hfits, hkeeps⟩
    refine ⟨img.tightLength, img.width * img.height, allocate_of_fits hfits, ?_⟩
    intro raw hraw x hx y hy
    rw [texel_of_fits hfits hraw hx hy, (keepsColour_iff x y).mp (hkeeps x hx y hy)]

/-- One red pixel of a server that sends the highest byte first. -/
def redPixel : Image where
  width := 1
  height := 1
  order := .msbFirst
  format := .rgb888
  scanlinePad := .pad32
  pixel _ _ := 0xFF0000
  width_pos := by decide
  width_lt := by decide
  height_pos := by decide
  height_lt := by decide
  pixel_lt _ _ := by decide

/-- The red pixel is shown in green. -/
theorem redPixel_green :
    (texture redPixel [0, 0, 0, 0] 1).bind (fun bytes => texel bytes 1 0 0) = some ⟨0, 255, 0⟩ ∧
      ¬ ColoursRight redPixel := by
  have hgreen : (texture redPixel [0, 0, 0, 0] 1).bind (fun bytes => texel bytes 1 0 0) =
      some ⟨0, 255, 0⟩ := by decide
  refine ⟨hgreen, ?_⟩
  rintro ⟨size, n, halloc, hright⟩
  have hsizes : allocate 32 1 1 = some (4, 1) := by decide
  obtain ⟨rfl, rfl⟩ := Prod.mk.inj (Option.some_inj.mp (hsizes.symm.trans halloc))
  have hred := hright [0, 0, 0, 0] rfl 0 (by decide) 0 (by decide)
  exact absurd (hgreen.symm.trans hred) (by decide)

end X11Client
