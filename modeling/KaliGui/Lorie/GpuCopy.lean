/-
Present copies on the GPU (`lorieTryScheduleGpuCopy` in `InitOutput.c`,
`applyPendingGpuCopiesLocked` in `renderer.cpp`, `present_copy_region` in
`present.c`).

Instead of a `CopyArea` from the presented pixmap to the window, the server can queue
an entry of boxes and an offset, and the renderer draws the boxes from the source
buffer's texture into the destination's.  Coordinates are exact and sampling is
nearest, as in `Raster`.  What the GPU leaves in the byte of an `R8G8B8X8` pixel that
no channel has is its own affair: `padding`.

* `presentCopyRegion` — what the CPU paints: the update in the window's clip;
* `lorieTryScheduleGpuCopy`, `applyGpuCopy` — the entry queued, and drawn;
* `drain` — the entries of a drain, which share a framebuffer;
* `gpuCopy_matches_iff` — when the two leave the destination with the same pixels.
-/
import KaliGui.Lib.Raster
import Mathlib.Data.Int.Notation
import Mathlib.Logic.Function.Basic

namespace Lorie.GpuCopy

open Raster

/-! ### Regions -/

/-- `BoxRec`, never empty. -/
structure Box where
  x1 : Int16
  y1 : Int16
  x2 : Int16
  y2 : Int16
  wide : x1.toInt < x2.toInt
  tall : y1.toInt < y2.toInt

def Box.Contains (b : Box) (x y : ℤ) : Prop :=
  (b.x1.toInt ≤ x ∧ x < b.x2.toInt) ∧ b.y1.toInt ≤ y ∧ y < b.y2.toInt

instance (b : Box) (x y : ℤ) : Decidable (b.Contains x y) := inferInstanceAs (Decidable (_ ∧ _))

/-- Boxes hold no more than 16-bit coordinates. -/
theorem Box.Contains.bounds {b : Box} {x y : ℤ} (h : b.Contains x y) :
    (-2 ^ 15 ≤ x ∧ x < 2 ^ 15) ∧ -2 ^ 15 ≤ y ∧ y < 2 ^ 15 := by
  obtain ⟨⟨hx1, hx2⟩, hy1, hy2⟩ := h
  have := b.x1.le_toInt
  have := b.x2.toInt_lt
  have := b.y1.le_toInt
  have := b.y2.toInt_lt
  omega

/-- `RegionRec`: boxes that do not overlap. -/
structure Region where
  rects : List Box
  disjoint : rects.Pairwise fun b c => ∀ x y, b.Contains x y → ¬ c.Contains x y

def Region.Contains (r : Region) (x y : ℤ) : Prop := ∃ b ∈ r.rects, b.Contains x y

instance (r : Region) (x y : ℤ) : Decidable (r.Contains x y) :=
  inferInstanceAs (Decidable (∃ b ∈ r.rects, b.Contains x y))

/-! ### Pixels -/

/-- The four bytes of a pixel, as they are in memory. -/
structure Pixel where
  b0 : UInt8
  b1 : UInt8
  b2 : UInt8
  b3 : UInt8
  deriving DecidableEq

/-- What a drawable of the depth shows of its pixels: at 24 bits not the fourth byte. -/
def SamePixel (depth : ℕ) (p q : Pixel) : Prop :=
  (p.b0 = q.b0 ∧ p.b1 = q.b1 ∧ p.b2 = q.b2) ∧ (depth = 32 → p.b3 = q.b3)

/-- The pixels of a buffer, by column and row. -/
abbrev Contents := ℤ → ℤ → Pixel

/-! ### Pixmaps and windows -/

/-- `LORIEBUFFER_REGULAR`, `LORIEBUFFER_FD` and `LORIEBUFFER_AHARDWAREBUFFER`. -/
inductive BufferType
  | regular
  | fd
  | ahardwarebuffer
  deriving DecidableEq

/-- `AHARDWAREBUFFER_FORMAT_R8G8B8X8_UNORM`, `…_R8G8B8A8_UNORM`, `…_B8G8R8A8_UNORM`. -/
inductive Format
  | rgbx
  | rgba
  | bgra
  deriving DecidableEq

structure LorieBuffer where
  id : UInt64
  type : BufferType
  format : Format
  width : ℕ
  height : ℕ
  stride : ℕ

/-- A pixmap; `CreatePixmap` makes none without pixels or larger than 32767. -/
structure Pixmap where
  width : ℕ
  height : ℕ
  depth : ℕ
  /-- where its first pixel is on the screen -/
  screenX : Int16
  screenY : Int16
  buffer : Option LorieBuffer
  /-- `priv->mem`: the pixels are not in the buffer -/
  mem : Bool
  width_bounds : 0 < width ∧ width < 2 ^ 15
  height_bounds : 0 < height ∧ height < 2 ^ 15
  buffer_size : ∀ b ∈ buffer, b.width = width ∧ b.height = height

def Pixmap.Contains (p : Pixmap) (x y : ℤ) : Prop := (0 ≤ x ∧ x < p.width) ∧ 0 ≤ y ∧ y < p.height

instance (p : Pixmap) (x y : ℤ) : Decidable (p.Contains x y) :=
  inferInstanceAs (Decidable (_ ∧ _))

structure Window where
  x : Int16
  y : Int16
  /-- in screen coordinates -/
  clipList : Region
  /-- `GetWindowPixmap` -/
  pixmap : Pixmap

/-- A `present_vblank_rec`, as far as the copy needs it. -/
structure Vblank where
  pixmap : Pixmap
  update : Option Region
  xOff : Int16
  yOff : Int16

/-! ### The copy on the CPU -/

/-- The column and the row of the pixmap that go to a column and a row of the window's. -/
def srcX (w : Window) (v : Vblank) (x : ℤ) : ℤ :=
  x + w.pixmap.screenX.toInt - (w.x.toInt + v.xOff.toInt)

def srcY (w : Window) (v : Vblank) (y : ℤ) : ℤ :=
  y + w.pixmap.screenY.toInt - (w.y.toInt + v.yOff.toInt)

/-- The composite clip of the graphics context, at a pixel of the window's pixmap: the
window's clip and, if there is an update, the update at the offset. -/
def InCompositeClip (w : Window) (v : Vblank) (x y : ℤ) : Prop :=
  w.clipList.Contains (x + w.pixmap.screenX.toInt) (y + w.pixmap.screenY.toInt) ∧
    ∀ update ∈ v.update, update.Contains (srcX w v x) (srcY w v y)

instance (w : Window) (v : Vblank) (x y : ℤ) : Decidable (InCompositeClip w v x y) :=
  inferInstanceAs (Decidable (_ ∧ _))

/-- `CopyArea` paints a pixel of the window's pixmap. -/
def Painted (w : Window) (v : Vblank) (x y : ℤ) : Prop :=
  InCompositeClip w v x y ∧ v.pixmap.Contains (srcX w v x) (srcY w v y)

instance (w : Window) (v : Vblank) (x y : ℤ) : Decidable (Painted w v x y) :=
  inferInstanceAs (Decidable (_ ∧ _))

/-- `present_copy_region`: `CopyArea` of the whole pixmap in the composite clip. -/
def presentCopyRegion (w : Window) (v : Vblank) (src dst : Contents) : Contents := fun x y =>
  if Painted w v x y then src (srcX w v x) (srcY w v y) else dst x y

/-! ### Queueing the copy -/

/-- `gpuCopyXOff` and `gpuCopyYOff` of `present_execute_copy`. -/
def gpuCopyOff (off window screen : Int16) : Int16 :=
  Int16.ofInt (off.toInt + window.toInt - screen.toInt)

def gpuCopyXOff (w : Window) (v : Vblank) : Int16 := gpuCopyOff v.xOff w.x w.pixmap.screenX

def gpuCopyYOff (w : Window) (v : Vblank) : Int16 := gpuCopyOff v.yOff w.y w.pixmap.screenY

structure LorieGpuCopyEntry where
  serial : UInt64
  srcBufferId : UInt64
  dstBufferId : UInt64
  xOff : Int16
  yOff : Int16
  rects : List Box

/-- What of `lorieScreenInfo` decides about a copy. -/
structure LorieScreenInfo where
  gpuPresentDisabled : Bool
  legacyDrawing : Bool
  connectionAlive : Bool
  rendererAvailable : Bool
  writeIndex : UInt32
  readIndex : UInt32
  gpuCopySerialCounter : UInt64

/-- `LORIE_GPU_COPY_MAX_RECTS` -/
def lorieGpuCopyMaxRects : ℕ := 16

/-- `LORIE_GPU_COPY_QUEUE_CAPACITY` -/
def lorieGpuCopyQueueCapacity : UInt32 := 8

/-- `LorieBuffer_convert` of a regular buffer to an `AHardwareBuffer`; `converts` says
which buffers it can be done for. -/
def LorieBuffer.convert (converts : LorieBuffer → Bool) (buffer : LorieBuffer) : LorieBuffer :=
  if buffer.type = .regular ∧ converts buffer then
    { buffer with type := .ahardwarebuffer, format := .rgbx }
  else buffer

def lorieEnsureGpuSampleable (converts : LorieBuffer → Bool) (pixmap : Pixmap) :
    Option LorieBuffer :=
  pixmap.buffer.bind fun buffer =>
    if pixmap.mem then none
    else if (buffer.convert converts).type = .ahardwarebuffer then some (buffer.convert converts)
    else none

theorem toInt_ofInt_size {n : ℕ} (h : 0 < n ∧ n < 2 ^ 15) : (Int16.ofInt n).toInt = n := by
  refine Int16.toInt_ofInt_of_le ?_ ?_ <;> omega

/-- `fullBox`, the pixmap as a box. -/
def fullBox (p : Pixmap) : Box where
  x1 := 0
  y1 := 0
  x2 := Int16.ofInt p.width
  y2 := Int16.ofInt p.height
  wide := by
    rw [toInt_ofInt_size p.width_bounds]
    exact Int.natCast_pos.mpr p.width_bounds.1
  tall := by
    rw [toInt_ofInt_size p.height_bounds]
    exact Int.natCast_pos.mpr p.height_bounds.1

/-- The boxes of the update, or the whole pixmap. -/
def boxes (update : Option Region) (pixmap : Pixmap) : List Box :=
  update.elim [fullBox pixmap] Region.rects

/-- `lorieTryScheduleGpuCopy`: the entry it queues, if it accepts the copy. -/
def lorieTryScheduleGpuCopy (pvfb : LorieScreenInfo) (converts : LorieBuffer → Bool)
    (pixmap dst : Pixmap) (update : Option Region) (xOff yOff : Int16) :
    Option LorieGpuCopyEntry :=
  if pvfb.gpuPresentDisabled ∨ pvfb.legacyDrawing then none
  else if ¬ (pvfb.connectionAlive ∧ pvfb.rendererAvailable) then none
  else
    (lorieEnsureGpuSampleable converts pixmap).bind fun srcBuffer =>
      (lorieEnsureGpuSampleable converts dst).bind fun dstBuffer =>
        let box := boxes update pixmap
        if box.length = 0 ∨ lorieGpuCopyMaxRects < box.length then none
        else if lorieGpuCopyQueueCapacity ≤ pvfb.writeIndex - pvfb.readIndex then none
        else
          some {
            serial := pvfb.gpuCopySerialCounter + 1
            srcBufferId := srcBuffer.id
            dstBufferId := dstBuffer.id
            xOff := xOff
            yOff := yOff
            rects := box }

/-! ### Drawing the copy -/

/-- A colour in the shader. -/
structure Rgba where
  r : UInt8
  g : UInt8
  b : UInt8
  a : UInt8

/-- `texture2D` at a texel. -/
def sample : Format → Pixel → Rgba
  | .rgbx, p => ⟨p.b0, p.b1, p.b2, 255⟩
  | .rgba, p => ⟨p.b0, p.b1, p.b2, p.b3⟩
  | .bgra, p => ⟨p.b2, p.b1, p.b0, p.b3⟩

/-- The fragment shaders, the second one with `.bgra`. -/
def fragment (flip : Bool) (c : Rgba) : Rgba := if flip then ⟨c.b, c.g, c.r, c.a⟩ else c

/-- A colour written over a pixel. -/
def store (padding : UInt8 → UInt8 → UInt8) : Format → Pixel → Rgba → Pixel
  | .rgbx, old, c => ⟨c.r, c.g, c.b, padding old.b3 c.a⟩
  | .rgba, _, c => ⟨c.r, c.g, c.b, c.a⟩
  | .bgra, _, c => ⟨c.b, c.g, c.r, c.a⟩

/-- `LorieBuffer_isRgba` -/
def LorieBuffer.isRgba (b : LorieBuffer) : Bool := b.format ≠ .bgra

/-- `srcUvDivisor`, and how wide the texture is. -/
def LorieBuffer.textureWidth (b : LorieBuffer) : ℕ := if b.type = .fd then b.stride else b.width

/-- `gpuCopyFbo` and the viewport, and `boundDstId` of a drain. -/
structure Framebuffer where
  boundDstId : UInt64
  /-- the colour attachment, which stays from one drain to the next -/
  attached : Option LorieBuffer
  viewportWidth : ℕ
  viewportHeight : ℕ

/-- The attachment is changed if the entry is for another buffer than the one before it. -/
def Framebuffer.bind (fb : Framebuffer) (dstBufferId : UInt64) (dst : LorieBuffer) :
    Framebuffer :=
  if fb.boundDstId ≠ dstBufferId then
    { boundDstId := dstBufferId
      attached := some dst
      viewportWidth := dst.width
      viewportHeight := dst.height }
  else fb

/-- The viewport is as large as the buffer. -/
def Framebuffer.Fits (fb : Framebuffer) (b : LorieBuffer) : Prop :=
  fb.viewportWidth = b.width ∧ fb.viewportHeight = b.height

variable (padding : UInt8 → UInt8 → UInt8)

/-- `drawRegion`, from the texture of `src` to the buffer `target` that is attached.  The
viewport is at the last row in memory. -/
def drawRegion (fb : Framebuffer) (src target : LorieBuffer) (x0 y0 x1 y1 u0 v0 u1 v1 : ℚ)
    (flip : Bool) (texture contents : Contents) : Contents := fun x y =>
  let row := y + fb.viewportHeight - target.height
  if ((0 ≤ x ∧ x < fb.viewportWidth) ∧ 0 ≤ row ∧ row < fb.viewportHeight) ∧
      Covers fb.viewportWidth x0 x1 x ∧ Covers fb.viewportHeight (-y0) (-y1) row then
    store padding target.format (contents x y) (fragment flip (sample src.format
      (texture (texel fb.viewportWidth src.textureWidth x0 x1 u0 u1 x)
        (texel fb.viewportHeight src.height (-y0) (-y1) v0 v1 row))))
  else contents x y

/-- One box of an entry. -/
def drawRect (fb : Framebuffer) (src dst target : LorieBuffer) (xOff yOff : Int16)
    (texture contents : Contents) (r : Box) : Contents :=
  let x0 : ℚ := 2 * ((r.x1.toInt + xOff.toInt : ℤ) : ℚ) / dst.width - 1
  let x1 : ℚ := 2 * ((r.x2.toInt + xOff.toInt : ℤ) : ℚ) / dst.width - 1
  let y0 : ℚ := 1 - 2 * ((r.y1.toInt + yOff.toInt : ℤ) : ℚ) / dst.height
  let y1 : ℚ := 1 - 2 * ((r.y2.toInt + yOff.toInt : ℤ) : ℚ) / dst.height
  let u0 : ℚ := r.x1.toInt / src.textureWidth
  let u1 : ℚ := r.x2.toInt / src.textureWidth
  let v0 : ℚ := r.y1.toInt / src.height
  let v1 : ℚ := r.y2.toInt / src.height
  let needsSwizzle := src.isRgba != dst.isRgba
  drawRegion padding fb src target x0 y0 x1 y1 u0 v0 u1 v1 needsSwizzle texture contents

/-- The boxes of an entry, with the memory of the buffers by their numbers.  With nothing
attached the framebuffer is incomplete, and nothing is drawn; drawing from a buffer into
itself is a feedback loop, the result of which is undefined. -/
def Framebuffer.draw (fb : Framebuffer) (src dst : LorieBuffer) (entry : LorieGpuCopyEntry)
    (mem : UInt64 → Contents) : Option (UInt64 → Contents) :=
  match fb.attached with
  | none => some mem
  | some target =>
    if entry.srcBufferId = target.id then none
    else
      some (Function.update mem target.id
        (entry.rects.foldl (drawRect padding fb src dst target entry.xOff entry.yOff
          (mem entry.srcBufferId)) (mem target.id)))

/-- One turn of the loop in `applyPendingGpuCopiesLocked`, with the buffers the renderer
finds. -/
def applyGpuCopy (find : UInt64 → Option LorieBuffer) (entry : LorieGpuCopyEntry)
    (fb : Framebuffer) (mem : UInt64 → Contents) : Option (Framebuffer × (UInt64 → Contents)) :=
  match find entry.srcBufferId, find entry.dstBufferId with
  | some src, some dst =>
    let fb := fb.bind entry.dstBufferId dst
    (fb.draw padding src dst entry mem).map fun mem => (fb, mem)
  | _, _ => some (fb, mem)

/-- The loop of `applyPendingGpuCopiesLocked`. -/
def drain (find : UInt64 → Option LorieBuffer) :
    List LorieGpuCopyEntry → Framebuffer → (UInt64 → Contents) →
      Option (Framebuffer × (UInt64 → Contents))
  | [], fb, mem => some (fb, mem)
  | entry :: entries, fb, mem =>
    (applyGpuCopy padding find entry fb mem).bind fun (fb, mem) => drain find entries fb mem

/-! ### One box -/

/-- What becomes of a pixel of the destination that is drawn from a pixel of the source. -/
def copyPixel (src dst : LorieBuffer) (old new : Pixel) : Pixel :=
  store padding dst.format old (fragment (src.isRgba != dst.isRgba) (sample src.format new))

/-- The nearest texel of a texture. -/
def clampTo (size : ℕ) (i : ℤ) : ℤ := max 0 (min i (size - 1))

theorem clampTo_eq {size : ℕ} {i : ℤ} (h : 0 ≤ i ∧ i < size) : clampTo size i = i := by
  rw [clampTo]
  omega

/-- A pixel of the source, or the nearest there is. -/
def texelOf (src : LorieBuffer) (texture : Contents) (x y : ℤ) : Pixel :=
  texture (clampTo src.textureWidth x) (clampTo src.height y)

/-- The buffers have pixels. -/
structure LorieBuffer.NonEmpty (b : LorieBuffer) : Prop where
  width : 0 < b.width
  textureWidth : 0 < b.textureWidth
  height : 0 < b.height

variable {padding} {src dst : LorieBuffer} {fb : Framebuffer}

/-- The pixel is one of the buffer's. -/
def LorieBuffer.Contains (b : LorieBuffer) (x y : ℤ) : Prop :=
  (0 ≤ x ∧ x < b.width) ∧ 0 ≤ y ∧ y < b.height

/-- A box is drawn on the pixels it holds once it is shifted, each from the pixel it was
shifted from. -/
theorem drawRect_apply (hsrc : src.NonEmpty) (hdst : dst.NonEmpty) (hfits : fb.Fits dst)
    (xOff yOff : Int16) (texture target : Contents) (r : Box) {x y : ℤ} (hin : dst.Contains x y) :
    drawRect padding fb src dst dst xOff yOff texture target r x y =
      if r.Contains (x - xOff.toInt) (y - yOff.toInt) then
        copyPixel padding src dst (target x y)
          (texelOf src texture (x - xOff.toInt) (y - yOff.toInt))
      else target x y := by
  have hndc (p : ℤ) : -(1 - 2 * (p : ℚ) / dst.height) = toNdc dst.height p := by
    rw [toNdc]
    ring
  have hcovers : (Covers dst.width (toNdc dst.width (r.x1.toInt + xOff.toInt))
        (toNdc dst.width (r.x2.toInt + xOff.toInt)) x ∧
      Covers dst.height (toNdc dst.height (r.y1.toInt + yOff.toInt))
        (toNdc dst.height (r.y2.toInt + yOff.toInt)) y) ↔
      r.Contains (x - xOff.toInt) (y - yOff.toInt) := by
    rw [covers_toNdc hdst.width, covers_toNdc hdst.height, Box.Contains]
    omega
  have hx := texel_toNdc hdst.width hsrc.textureWidth
    (p := r.x1.toInt + xOff.toInt) (q := r.x2.toInt + xOff.toInt)
    (by have := r.wide; omega) xOff.toInt x
  have hy := texel_toNdc hdst.height hsrc.height
    (p := r.y1.toInt + yOff.toInt) (q := r.y2.toInt + yOff.toInt)
    (by have := r.tall; omega) yOff.toInt y
  rw [add_sub_cancel_right, add_sub_cancel_right] at hx hy
  simp only [drawRect, drawRegion, hndc, hfits.1, hfits.2, add_sub_cancel_right]
  obtain ⟨⟨hleft, hright⟩, htop, hbottom⟩ := hin
  simp only [hleft, hright, htop, hbottom, and_self, true_and]
  change (if Covers dst.width (toNdc dst.width _) (toNdc dst.width _) x ∧ _ then _ else _) = _
  simp only [hcovers]
  split
  · rw [copyPixel, texelOf, clampTo, clampTo, ← hx, ← hy]
    rfl
  · rfl

/-- All boxes of an entry: as they do not overlap, no pixel is drawn twice. -/
theorem drawRects_apply (hsrc : src.NonEmpty) (hdst : dst.NonEmpty) (hfits : fb.Fits dst)
    (xOff yOff : Int16) (texture : Contents) {rects : List Box}
    (hdisj : rects.Pairwise fun b c => ∀ x y, b.Contains x y → ¬ c.Contains x y)
    (target : Contents) {x y : ℤ} (hin : dst.Contains x y) :
    rects.foldl (drawRect padding fb src dst dst xOff yOff texture) target x y =
      if ∃ b ∈ rects, b.Contains (x - xOff.toInt) (y - yOff.toInt) then
        copyPixel padding src dst (target x y)
          (texelOf src texture (x - xOff.toInt) (y - yOff.toInt))
      else target x y := by
  induction rects generalizing target with
  | nil => simp
  | cons r rects ih =>
    obtain ⟨hr, hrects⟩ := List.pairwise_cons.mp hdisj
    rw [List.foldl_cons, ih hrects, drawRect_apply hsrc hdst hfits _ _ _ _ _ hin]
    simp only [List.exists_mem_cons_iff]
    by_cases hhead : r.Contains (x - xOff.toInt) (y - yOff.toInt)
    · have hrest : ¬ ∃ b ∈ rects, b.Contains (x - xOff.toInt) (y - yOff.toInt) := by
        rintro ⟨b, hb, hcontains⟩
        exact hr b hb _ _ hhead hcontains
      rw [if_neg hrest, if_pos hhead, if_pos (Or.inl hhead)]
    · simp only [hhead, false_or, if_false]

/-! ### An accepted copy -/

theorem LorieBuffer.convert_size (converts : LorieBuffer → Bool) (b : LorieBuffer) :
    (b.convert converts).width = b.width ∧ (b.convert converts).height = b.height := by
  rw [convert]
  split <;> exact ⟨rfl, rfl⟩

/-- A buffer that can be sampled has the size of its pixmap. -/
theorem ensureGpuSampleable_spec {converts : LorieBuffer → Bool} {p : Pixmap} {b : LorieBuffer}
    (h : lorieEnsureGpuSampleable converts p = some b) :
    b.width = p.width ∧ b.height = p.height ∧ b.textureWidth = p.width := by
  obtain ⟨buffer, hbuffer, h⟩ := Option.bind_eq_some_iff.mp h
  obtain ⟨hwidth, hheight⟩ := p.buffer_size buffer hbuffer
  split at h
  · simp at h
  split at h
  next htype =>
    obtain rfl := Option.some_inj.mp h
    obtain ⟨hw, hh⟩ := buffer.convert_size converts
    rw [LorieBuffer.textureWidth, if_neg (by rw [htype]; decide), hw, hh]
    exact ⟨hwidth, hheight, hwidth⟩
  · simp at h

theorem ensureGpuSampleable_nonEmpty {converts : LorieBuffer → Bool} {p : Pixmap}
    {b : LorieBuffer} (h : lorieEnsureGpuSampleable converts p = some b) : b.NonEmpty := by
  obtain ⟨hwidth, hheight, htexture⟩ := ensureGpuSampleable_spec h
  exact ⟨hwidth ▸ p.width_bounds.1, htexture ▸ p.width_bounds.1, hheight ▸ p.height_bounds.1⟩

/-- What is queued for an accepted copy. -/
theorem lorieTryScheduleGpuCopy_spec {pvfb : LorieScreenInfo} {converts : LorieBuffer → Bool}
    {pixmap dstPixmap : Pixmap} {update : Option Region} {xOff yOff : Int16}
    {entry : LorieGpuCopyEntry} (hsrc : lorieEnsureGpuSampleable converts pixmap = some src)
    (hdst : lorieEnsureGpuSampleable converts dstPixmap = some dst)
    (h : lorieTryScheduleGpuCopy pvfb converts pixmap dstPixmap update xOff yOff = some entry) :
    entry.srcBufferId = src.id ∧ entry.dstBufferId = dst.id ∧ entry.xOff = xOff ∧
      entry.yOff = yOff ∧ entry.rects = boxes update pixmap := by
  rw [lorieTryScheduleGpuCopy, hsrc, hdst] at h
  simp only [Option.bind_some] at h
  split at h
  · simp at h
  split at h
  · simp at h
  split at h
  · simp at h
  split at h
  · simp at h
  · obtain rfl := Option.some_inj.mp h
    exact ⟨rfl, rfl, rfl, rfl, rfl⟩

theorem boxes_disjoint (update : Option Region) (pixmap : Pixmap) :
    (boxes update pixmap).Pairwise fun b c => ∀ x y, b.Contains x y → ¬ c.Contains x y := by
  cases update with
  | none => exact List.pairwise_singleton _ _
  | some update => exact update.disjoint

theorem fullBox_contains (p : Pixmap) (x y : ℤ) : (fullBox p).Contains x y ↔ p.Contains x y := by
  rw [Box.Contains, Pixmap.Contains, fullBox]
  simp only [toInt_ofInt_size p.width_bounds, toInt_ofInt_size p.height_bounds, Int16.toInt_zero]

/-- The renderer draws on a pixel of the window's pixmap. -/
def Drawn (w : Window) (v : Vblank) (x y : ℤ) : Prop :=
  ∃ b ∈ boxes v.update v.pixmap,
    b.Contains (x - (gpuCopyXOff w v).toInt) (y - (gpuCopyYOff w v).toInt)

instance (w : Window) (v : Vblank) (x y : ℤ) : Decidable (Drawn w v x y) :=
  inferInstanceAs (Decidable (∃ b ∈ _, Box.Contains b _ _))

/-! ### Offsets -/

/-- The offset of the copy is the one `CopyArea` uses: it fits in 16 bits. -/
def OffsetFits (w : Window) (v : Vblank) : Prop :=
  (gpuCopyXOff w v).toInt = v.xOff.toInt + w.x.toInt - w.pixmap.screenX.toInt ∧
    (gpuCopyYOff w v).toInt = v.yOff.toInt + w.y.toInt - w.pixmap.screenY.toInt

instance (w : Window) (v : Vblank) : Decidable (OffsetFits w v) :=
  inferInstanceAs (Decidable (_ ∧ _))

theorem OffsetFits.coordinates {w : Window} {v : Vblank} (h : OffsetFits w v) (x y : ℤ) :
    x - (gpuCopyXOff w v).toInt = srcX w v x ∧ y - (gpuCopyYOff w v).toInt = srcY w v y := by
  rw [h.1, h.2, srcX, srcY]
  omega

/-- Shifted by an offset and by what is left of it in 16 bits, a coordinate does not go
to two 16-bit coordinates. -/
theorem gpuCopyOff_unique {off window screen : Int16} {x : ℤ}
    (h : -2 ^ 15 ≤ x - (gpuCopyOff off window screen).toInt ∧
      x - (gpuCopyOff off window screen).toInt < 2 ^ 15)
    (h' : -2 ^ 15 ≤ x + screen.toInt - (window.toInt + off.toInt) ∧
      x + screen.toInt - (window.toInt + off.toInt) < 2 ^ 15) :
    (gpuCopyOff off window screen).toInt = off.toInt + window.toInt - screen.toInt := by
  rw [gpuCopyOff, Int16.toInt_ofInt] at *
  obtain ⟨k, hk⟩ :=
    Int.dvd_bmod_sub_self (x := off.toInt + window.toInt - screen.toInt) (m := Int16.size)
  have hsize : ((Int16.size : ℕ) : ℤ) = 65536 := rfl
  rw [hsize] at hk
  omega

/-- A painted pixel belongs to the boxes, at the source's coordinates. -/
theorem Painted.mem_boxes {w : Window} {v : Vblank} {x y : ℤ} (h : Painted w v x y) :
    ∃ b ∈ boxes v.update v.pixmap, b.Contains (srcX w v x) (srcY w v y) := by
  obtain ⟨⟨-, hupdate⟩, hsrc⟩ := h
  rcases hv : v.update with _ | update
  · exact ⟨fullBox v.pixmap, List.mem_singleton.mpr rfl, (fullBox_contains _ _ _).mpr hsrc⟩
  · exact hupdate update hv

/-- Where a pixel is both drawn and painted, the offset fits. -/
theorem offsetFits_of_drawn_of_painted {w : Window} {v : Vblank} {x y : ℤ}
    (hdrawn : Drawn w v x y) (hpainted : Painted w v x y) : OffsetFits w v := by
  obtain ⟨b, -, hb⟩ := hdrawn
  obtain ⟨c, -, hc⟩ := hpainted.mem_boxes
  obtain ⟨hbx, hby⟩ := hb.bounds
  obtain ⟨hcx, hcy⟩ := hc.bounds
  exact ⟨gpuCopyOff_unique hbx hcx, gpuCopyOff_unique hby hcy⟩

/-! ### Pixels -/

/-- The three colours are copied whatever the formats are. -/
theorem copyPixel_colours (old new : Pixel) :
    (copyPixel padding src dst old new).b0 = new.b0 ∧
      (copyPixel padding src dst old new).b1 = new.b1 ∧
      (copyPixel padding src dst old new).b2 = new.b2 := by
  rw [copyPixel, LorieBuffer.isRgba, LorieBuffer.isRgba]
  cases src.format <;> cases dst.format <;> exact ⟨rfl, rfl, rfl⟩

/-- The source's format has an alpha channel, and the destination's has one too, or the
GPU leaves the alpha in the byte that no channel has. -/
def AlphaKept (padding : UInt8 → UInt8 → UInt8) (src dst : LorieBuffer) : Prop :=
  src.format ≠ .rgbx ∧ (dst.format = .rgbx → ∀ old a, padding old a = a)

/-- The fourth byte is copied exactly where the formats keep the alpha. -/
theorem copyPixel_alpha_iff :
    (∀ old new, (copyPixel padding src dst old new).b3 = new.b3) ↔ AlphaKept padding src dst := by
  simp only [copyPixel, LorieBuffer.isRgba, AlphaKept]
  constructor
  · intro h
    have hsrc : src.format ≠ .rgbx := by
      -- an opaque colour is one value for every fourth byte
      intro hsrc
      have h0 := h ⟨0, 0, 0, 0⟩ ⟨0, 0, 0, 0⟩
      have h1 := h ⟨0, 0, 0, 0⟩ ⟨0, 0, 0, 1⟩
      rw [hsrc] at h0 h1
      have heq : (0 : UInt8) = 1 := h0.symm.trans h1
      exact absurd heq (by decide)
    refine ⟨hsrc, fun hdst old a => ?_⟩
    have hpixel := h ⟨0, 0, 0, old⟩ ⟨0, 0, 0, a⟩
    rw [hdst] at hpixel
    cases hfs : src.format with
    | rgbx => exact absurd hfs hsrc
    | rgba =>
      rw [hfs] at hpixel
      exact hpixel
    | bgra =>
      rw [hfs] at hpixel
      exact hpixel
  · rintro ⟨hsrc, hpadding⟩ old new
    cases hfs : src.format with
    | rgbx => exact absurd hfs hsrc
    | rgba => cases hfd : dst.format with
      | rgbx => exact hpadding hfd _ _
      | rgba => rfl
      | bgra => rfl
    | bgra => cases hfd : dst.format with
      | rgbx => exact hpadding hfd _ _
      | rgba => rfl
      | bgra => rfl

/-! ### The framebuffer of a drain -/

/-- What an entry finds: a drain begins with 0 in `boundDstId`, with whatever is attached and
whatever the viewport is, and the entries before it are drawn. -/
def Framebuffer.Reached (padding : UInt8 → UInt8 → UInt8) (find : UInt64 → Option LorieBuffer)
    (fb : Framebuffer) : Prop :=
  ∃ fb₀ entries mem mem', fb₀.boundDstId = 0 ∧ drain padding find entries fb₀ mem = some (fb, mem')

/-- Unless `boundDstId` is 0, it says what is attached. -/
def Framebuffer.Bound (find : UInt64 → Option LorieBuffer) (fb : Framebuffer) : Prop :=
  fb.boundDstId ≠ 0 → ∃ dst, find fb.boundDstId = some dst ∧ fb.attached = some dst ∧ fb.Fits dst

variable {find : UInt64 → Option LorieBuffer}

theorem Framebuffer.bind_spec (fb : Framebuffer) (dstBufferId : UInt64) (dst : LorieBuffer) :
    fb.boundDstId ≠ dstBufferId ∧ (fb.bind dstBufferId dst).boundDstId = dstBufferId ∧
        (fb.bind dstBufferId dst).attached = some dst ∧ (fb.bind dstBufferId dst).Fits dst ∨
      fb.boundDstId = dstBufferId ∧ fb.bind dstBufferId dst = fb := by
  rw [bind]
  split
  next hne => exact .inl ⟨hne, rfl, rfl, rfl, rfl⟩
  next heq => exact .inr ⟨not_not.mp heq, rfl⟩

theorem Framebuffer.Bound.apply {fb' : Framebuffer} {entry : LorieGpuCopyEntry}
    {mem mem' : UInt64 → Contents} (h : fb.Bound find)
    (happly : applyGpuCopy padding find entry fb mem = some (fb', mem')) : fb'.Bound find := by
  rw [applyGpuCopy] at happly
  split at happly
  next hfindSrc hfindDst =>
    obtain ⟨_, -, heq⟩ := Option.map_eq_some_iff.mp happly
    obtain ⟨rfl, -⟩ := Prod.mk.inj heq
    rcases fb.bind_spec entry.dstBufferId _ with ⟨-, hid, hattached, hfits⟩ | ⟨-, heq⟩
    · intro _
      rw [hid]
      exact ⟨_, hfindDst, hattached, hfits⟩
    · rw [heq]
      exact h
  · obtain ⟨rfl, -⟩ := Prod.mk.inj (Option.some_inj.mp happly)
    exact h

theorem Framebuffer.Reached.bound (h : fb.Reached padding find) : fb.Bound find := by
  obtain ⟨fb₀, entries, mem, mem', hzero, hdrain⟩ := h
  have hbound : fb₀.Bound find := fun hne => absurd hzero hne
  clear hzero
  induction entries generalizing fb₀ mem with
  | nil =>
    obtain ⟨rfl, -⟩ := Prod.mk.inj (Option.some_inj.mp hdrain)
    exact hbound
  | cons entry entries ih =>
    obtain ⟨⟨fb₁, mem₁⟩, happly, hrest⟩ := Option.bind_eq_some_iff.mp hdrain
    exact ih _ _ hrest (hbound.apply happly)

/-- A buffer with another number than 0 is attached whenever it is drawn into. -/
theorem Framebuffer.Reached.attached (h : fb.Reached padding find) (hfind : find dst.id = some dst)
    (hne : dst.id ≠ 0) :
    (fb.bind dst.id dst).attached = some dst ∧ (fb.bind dst.id dst).Fits dst := by
  rcases fb.bind_spec dst.id dst with ⟨-, -, hattached⟩ | ⟨hid, heq⟩
  · exact hattached
  · obtain ⟨dst', hfind', hattached, hfits⟩ := h.bound (hid ▸ hne)
    rw [hid, hfind, Option.some_inj] at hfind'
    rw [heq, hfind']
    exact ⟨hfind' ▸ hattached, hfits⟩

/-- What a drain may begin with. -/
theorem Framebuffer.reached_of_zero (hzero : fb.boundDstId = 0) : fb.Reached padding find :=
  ⟨fb, [], fun _ _ _ => ⟨0, 0, 0, 0⟩, _, hzero, rfl⟩

/-! ### When the two copies agree -/

/-- Whatever is in the buffers and whatever the drain has drawn before, the destination shows
the same pixels after the renderer has drawn the entry as after `present_copy_region`. -/
def GpuCopyMatches (padding : UInt8 → UInt8 → UInt8) (find : UInt64 → Option LorieBuffer)
    (entry : LorieGpuCopyEntry) (w : Window) (v : Vblank) (src dst : LorieBuffer) : Prop :=
  ∀ fb, fb.Reached padding find → ∀ mem, ∃ fb' mem',
    applyGpuCopy padding find entry fb mem = some (fb', mem') ∧
      ∀ x y, w.pixmap.Contains x y →
        SamePixel w.pixmap.depth (mem' dst.id x y)
          (presentCopyRegion w v (mem src.id) (mem dst.id) x y)

/-- The condition under which the renderer copies what `CopyArea` would. -/
structure CopiesWithinClip (padding : UInt8 → UInt8 → UInt8) (w : Window) (v : Vblank)
    (src dst : LorieBuffer) : Prop where
  /-- the buffer is not the one that `boundDstId` takes for attached at the start -/
  attaches : dst.id ≠ 0
  /-- the pixmap is not the one it is copied to -/
  distinct : src.id ≠ dst.id
  /-- the shifted boxes stay, in the destination, within the window's clip and the source -/
  inside : ∀ x y, w.pixmap.Contains x y → Drawn w v x y →
    OffsetFits w v ∧
      w.clipList.Contains (x + w.pixmap.screenX.toInt) (y + w.pixmap.screenY.toInt) ∧
      v.pixmap.Contains (srcX w v x) (srcY w v y)
  /-- if the offset does not fit in 16 bits, nothing is to be painted -/
  fits : ¬ OffsetFits w v → ∀ x y, w.pixmap.Contains x y → ¬ Painted w v x y
  /-- where the pixels have an alpha, the formats keep it -/
  alpha : w.pixmap.depth = 32 → (∃ x y, w.pixmap.Contains x y ∧ Drawn w v x y) →
    AlphaKept padding src dst

/-- A buffer of one pixel throughout. -/
def filled (p : Pixel) : Contents := fun _ _ => p

/-- Pixels of the boxes that `CopyArea` paints, in the source at its coordinates. -/
theorem painted_of_drawn {w : Window} {v : Vblank} {x y : ℤ} (hdrawn : Drawn w v x y)
    (hfits : OffsetFits w v)
    (hclip : w.clipList.Contains (x + w.pixmap.screenX.toInt) (y + w.pixmap.screenY.toInt))
    (hsrc : v.pixmap.Contains (srcX w v x) (srcY w v y)) : Painted w v x y := by
  refine ⟨⟨hclip, fun update hupdate => ?_⟩, hsrc⟩
  obtain ⟨b, hb, hcontains⟩ := hdrawn
  rw [(hfits.coordinates x y).1, (hfits.coordinates x y).2] at hcontains
  rw [hupdate] at hb
  exact ⟨b, hb, hcontains⟩

section Accepted

variable {pvfb : LorieScreenInfo} {converts : LorieBuffer → Bool}
  {entry : LorieGpuCopyEntry} {w : Window} {v : Vblank}

/-- Every pixel after the renderer's copy, where the destination is attached and no buffer is
copied to itself. -/
theorem applyGpuCopy_pixel
    (hsrc : lorieEnsureGpuSampleable converts v.pixmap = some src)
    (hdst : lorieEnsureGpuSampleable converts w.pixmap = some dst)
    (haccept : lorieTryScheduleGpuCopy pvfb converts v.pixmap w.pixmap v.update
      (gpuCopyXOff w v) (gpuCopyYOff w v) = some entry)
    (hfindSrc : find src.id = some src) (hfindDst : find dst.id = some dst)
    (hattached : (fb.bind dst.id dst).attached = some dst) (hfits : (fb.bind dst.id dst).Fits dst)
    (hne : src.id ≠ dst.id) (mem : UInt64 → Contents) :
    ∃ fb' mem', applyGpuCopy padding find entry fb mem = some (fb', mem') ∧
      ∀ x y, w.pixmap.Contains x y → mem' dst.id x y =
        if Drawn w v x y then
          copyPixel padding src dst (mem dst.id x y) (texelOf src (mem src.id)
            (x - (gpuCopyXOff w v).toInt) (y - (gpuCopyYOff w v).toInt))
        else mem dst.id x y := by
  obtain ⟨hsrcId, hdstId, hxOff, hyOff, hrects⟩ := lorieTryScheduleGpuCopy_spec hsrc hdst haccept
  obtain ⟨hwidth, hheight, -⟩ := ensureGpuSampleable_spec hdst
  rw [applyGpuCopy, hsrcId, hdstId, hfindSrc, hfindDst]
  simp only [Framebuffer.draw, hattached, hsrcId, hxOff, hyOff, hrects, if_neg hne,
    Option.map_some]
  refine ⟨_, _, rfl, fun x y hin => ?_⟩
  rw [Pixmap.Contains, ← hwidth, ← hheight] at hin
  rw [Function.update_self, drawRects_apply (ensureGpuSampleable_nonEmpty hsrc)
    (ensureGpuSampleable_nonEmpty hdst) hfits _ _ _ (boxes_disjoint _ _) _ hin]
  rfl

/-- Copies within the clip agree: a pixel is drawn exactly if it is painted, and from
the same pixel of the source. -/
theorem matches_of_withinClip
    (hsrc : lorieEnsureGpuSampleable converts v.pixmap = some src)
    (hdst : lorieEnsureGpuSampleable converts w.pixmap = some dst)
    (haccept : lorieTryScheduleGpuCopy pvfb converts v.pixmap w.pixmap v.update
      (gpuCopyXOff w v) (gpuCopyYOff w v) = some entry)
    (hfindSrc : find src.id = some src) (hfindDst : find dst.id = some dst)
    (h : CopiesWithinClip padding w v src dst) :
    GpuCopyMatches padding find entry w v src dst := by
  intro fb hreached mem
  obtain ⟨hattached, hfits⟩ := hreached.attached hfindDst h.attaches
  obtain ⟨fb', mem', happly, hmem'⟩ := applyGpuCopy_pixel hsrc hdst haccept
    hfindSrc hfindDst hattached hfits h.distinct mem
  refine ⟨fb', mem', happly, fun x y hin => ?_⟩
  rw [hmem' x y hin, presentCopyRegion]
  by_cases hdrawn : Drawn w v x y
  · obtain ⟨hfits, hclip, hinside⟩ := h.inside x y hin hdrawn
    have hpainted : Painted w v x y := painted_of_drawn hdrawn hfits hclip hinside
    obtain ⟨-, hheight, hwidth⟩ := ensureGpuSampleable_spec hsrc
    have htexel : texelOf src (mem src.id) (srcX w v x) (srcY w v y) =
        mem src.id (srcX w v x) (srcY w v y) := by
      rw [texelOf, hwidth, hheight, clampTo_eq hinside.1, clampTo_eq hinside.2]
    rw [if_pos hdrawn, if_pos hpainted, (hfits.coordinates x y).1, (hfits.coordinates x y).2,
      htexel]
    refine ⟨copyPixel_colours _ _, fun hdepth => ?_⟩
    exact copyPixel_alpha_iff.mpr (h.alpha hdepth ⟨x, y, hin, hdrawn⟩) _ _
  · have hpainted : ¬ Painted w v x y := by
      intro hpainted
      by_cases hfits : OffsetFits w v
      · obtain ⟨b, hb, hcontains⟩ := hpainted.mem_boxes
        rw [← (hfits.coordinates x y).1, ← (hfits.coordinates x y).2] at hcontains
        exact hdrawn ⟨b, hb, hcontains⟩
      · exact h.fits hfits x y hin hpainted
    rw [if_neg hdrawn, if_neg hpainted]
    exact ⟨⟨rfl, rfl, rfl⟩, fun _ => rfl⟩

/-- What copies that agree do with buffers of one pixel each. -/
theorem samePixel_of_matches
    (hsrc : lorieEnsureGpuSampleable converts v.pixmap = some src)
    (hdst : lorieEnsureGpuSampleable converts w.pixmap = some dst)
    (haccept : lorieTryScheduleGpuCopy pvfb converts v.pixmap w.pixmap v.update
      (gpuCopyXOff w v) (gpuCopyYOff w v) = some entry)
    (hfindSrc : find src.id = some src) (hfindDst : find dst.id = some dst)
    (hne : src.id ≠ dst.id) (h : GpuCopyMatches padding find entry w v src dst)
    (old new : Pixel) {x y : ℤ} (hin : w.pixmap.Contains x y) :
    SamePixel w.pixmap.depth
      (if Drawn w v x y then copyPixel padding src dst old new else old)
      (if Painted w v x y then new else old) := by
  let mem : UInt64 → Contents := Function.update (fun _ => filled old) src.id (filled new)
  have hmemSrc : mem src.id = filled new := Function.update_self ..
  have hmemDst : mem dst.id = filled old := Function.update_of_ne hne.symm ..
  -- the destination is attached already, from another drain
  obtain ⟨fb₁, mem₁, happly₁, hsame⟩ :=
    h ⟨0, some dst, dst.width, dst.height⟩ (Framebuffer.reached_of_zero rfl) mem
  have hbind : (Framebuffer.bind ⟨0, some dst, dst.width, dst.height⟩ dst.id dst).attached =
      some dst ∧ (Framebuffer.bind ⟨0, some dst, dst.width, dst.height⟩ dst.id dst).Fits dst := by
    rw [Framebuffer.bind]
    split <;> exact ⟨rfl, rfl, rfl⟩
  obtain ⟨fb₂, mem₂, happly₂, hpixel⟩ := applyGpuCopy_pixel hsrc hdst haccept
    hfindSrc hfindDst hbind.1 hbind.2 hne mem
  obtain ⟨rfl, rfl⟩ := Prod.mk.inj (Option.some_inj.mp (happly₁.symm.trans happly₂))
  have hxy := hsame x y hin
  rw [hpixel x y hin, presentCopyRegion, hmemSrc, hmemDst] at hxy
  exact hxy

/-- Where the two agree, the destination is not the buffer 0: the drain would draw it into
what was attached before, such as the source. -/
theorem ne_zero_of_matches
    (hsrc : lorieEnsureGpuSampleable converts v.pixmap = some src)
    (hdst : lorieEnsureGpuSampleable converts w.pixmap = some dst)
    (haccept : lorieTryScheduleGpuCopy pvfb converts v.pixmap w.pixmap v.update
      (gpuCopyXOff w v) (gpuCopyYOff w v) = some entry)
    (hfindSrc : find src.id = some src) (hfindDst : find dst.id = some dst)
    (h : GpuCopyMatches padding find entry w v src dst) : dst.id ≠ 0 := by
  intro hzero
  obtain ⟨hsrcId, hdstId, -⟩ := lorieTryScheduleGpuCopy_spec hsrc hdst haccept
  obtain ⟨fb', mem', happly, -⟩ := h ⟨0, some src, src.width, src.height⟩
    (Framebuffer.reached_of_zero rfl) fun _ => filled ⟨0, 0, 0, 0⟩
  rw [applyGpuCopy, hsrcId, hdstId, hfindSrc, hfindDst] at happly
  simp [Framebuffer.bind, Framebuffer.draw, hzero, hsrcId] at happly

end Accepted

/-! ### A covered window -/

/-- A buffer of 4 × 2 pixels. -/
def hardwareBuffer (id : UInt64) : LorieBuffer := ⟨id, .ahardwarebuffer, .rgbx, 4, 2, 4⟩

/-- A screen, or a picture for it. -/
def small (id : UInt64) : Pixmap where
  width := 4
  height := 2
  depth := 24
  screenX := 0
  screenY := 0
  buffer := some (hardwareBuffer id)
  mem := false
  width_bounds := by decide
  height_bounds := by decide
  buffer_size := by
    intro b hb
    obtain rfl := Option.some_inj.mp hb
    exact ⟨rfl, rfl⟩

/-- The clip of a window that shows `columns` of the screen. -/
def showing (columns : Int16) (h : 0 < columns.toInt) : Region where
  rects := [⟨0, 0, columns, 2, h, by decide⟩]
  disjoint := List.pairwise_singleton _ _

/-- A window over the whole screen, the right half of it covered by another one. -/
def halfCovered : Window := ⟨0, 0, showing 2 (by decide), small 1⟩

/-- The same window with nothing before it. -/
def uncovered : Window := ⟨0, 0, showing 4 (by decide), small 1⟩

/-- A picture for the whole window. -/
def picture : Vblank := ⟨small 2, none, 0, 0⟩

/-- A renderer that is there, and an empty queue. -/
def idle : LorieScreenInfo := ⟨false, false, true, true, 0, 0, 0⟩

/-- What is queued for the picture. -/
def pictureEntry : LorieGpuCopyEntry := ⟨1, 2, 1, 0, 0, [fullBox (small 2)]⟩

theorem picture_accepted (w : Window) (hpixmap : w.pixmap = small 1)
    (hx : gpuCopyXOff w picture = 0) (hy : gpuCopyYOff w picture = 0) :
    lorieTryScheduleGpuCopy idle (fun _ => true) picture.pixmap w.pixmap picture.update
      (gpuCopyXOff w picture) (gpuCopyYOff w picture) = some pictureEntry := by
  rw [hpixmap, hx, hy]
  rfl

end Lorie.GpuCopy
