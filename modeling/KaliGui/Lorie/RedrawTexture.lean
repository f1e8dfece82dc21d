/-
What of the root buffer's texture is sampled (`renderer.cpp`, lines 907 to 1019; `buffer.c`,
lines 434 to 471).

The texture of a buffer that is uploaded has the stride of the buffer for its width, and the
code scales the columns to leave out the padding.  Without zoom it shows the columns that the
buffer has; zoomed in it shows a part of the expected screen, and a buffer may have up to seven
columns less than that.

* `textureRect` — the texture coordinates of the code;
* `OnlyPicture` — no padding is sampled and nothing behind the last pixel;
* `WithinPicture` — the scenes and pans where the part that is shown ends before the padding;
* `only_picture_iff` — the two are the same.
-/
import KaliGui.Lorie.Redraw

namespace Lorie.Redraw

open Clamp

/-! ### The texture -/

/-- The size of the texture that `LorieBuffer_attachToGL` makes. -/
def RootBuffer.textureWidth (b : RootBuffer) : ℕ := if b.fd then b.stride else b.width

def RootBuffer.textureHeight (b : RootBuffer) : ℕ := b.height

/-- `xfactor` -/
def RootBuffer.xfactor (b : RootBuffer) : ℚ := if b.fd then b.width / b.stride else 1

/-- The last arguments of `drawRegion`. -/
structure TextureRect where
  u0 : ℚ
  v0 : ℚ
  u1 : ℚ
  v1 : ℚ
  deriving DecidableEq

def textureRect (b : RootBuffer) (f : Frame) : TextureRect where
  u0 := f.pan.panSourceLeft / b.width * b.xfactor
  v0 := f.pan.panSourceTop / b.height
  u1 := (f.pan.panSourceLeft + f.layout.sourceWidth) / b.width * b.xfactor
  v1 := (f.pan.panSourceTop + f.layout.sourceHeight) / b.height

/-! ### What should hold -/

/-- From one texture coordinate to the other, on a side of `texels`, are the first `pixels`
only. -/
def Covers (t0 t1 : ℚ) (texels pixels : ℕ) : Prop :=
  0 ≤ t0 * texels ∧ t0 * texels ≤ t1 * texels ∧ t1 * texels ≤ pixels

def OnlyPicture (b : RootBuffer) (f : Frame) : Prop :=
  Covers (textureRect b f).u0 (textureRect b f).u1 b.textureWidth b.width ∧
    Covers (textureRect b f).v0 (textureRect b f).v1 b.textureHeight b.height

/-- The share of the screen's width for which the surface has room at the zoom. -/
def Scene.share (s : Scene) : ℚ :=
  if 0 < s.viewportW ∧ 0 < s.viewportH then
    let room := 2 * min (center s.viewportX s.viewportW)
      (s.surfaceW - center s.viewportX s.viewportW) / s.viewportW
    max (100 / s.zoom.percent) (min 1 (room * (100 / s.zoom.percent)))
  else 100 / s.zoom.percent

/-- A part that is `shown` wide ends before the columns that the buffer lacks, where the
pinch wants it or else where it follows the cursor to. -/
def Scene.EndsInPicture (s : Scene) (anchor : Anchor) (p : Pan) (shown : ℚ) : Prop :=
  shown ≤ s.buffer.width ∧
    if 0 ≤ anchor.sourceX then anchor.sourceX + (1 - anchor.fracX) * shown ≤ s.buffer.width
    else
      s.cursorX + shown * (5 / 100) ≤ s.buffer.width ∧
        (p.panSourceLeft + shown ≤ s.buffer.width ∨
          s.cursorX + shown * (95 / 100) ≤ s.buffer.width)

instance (s : Scene) (anchor : Anchor) (p : Pan) (shown : ℚ) :
    Decidable (s.EndsInPicture anchor p shown) :=
  inferInstanceAs (Decidable (_ ∧ if 0 ≤ anchor.sourceX then _ else _ ∧ (_ ∨ _)))

/-- The buffer is as wide as the screen, or what is to be shown ends in it. -/
def Scene.WithinPicture (s : Scene) (anchor : Anchor) (p : Pan) : Prop :=
  s.buffer.width = s.expectedW ∨
    if 100 < s.zoom.percent then s.EndsInPicture anchor p (s.expectedW * s.share)
    else 0 ≤ anchor.sourceX → anchor.sourceX ≤ anchor.fracX * s.buffer.width

instance (s : Scene) (anchor : Anchor) (p : Pan) : Decidable (s.WithinPicture anchor p) :=
  inferInstanceAs (Decidable (_ ∨ if 100 < s.zoom.percent then _ else (_ → _)))

/-! ### Columns and rows -/

variable {s : Scene} {lround : ℚ → ℚ} {hiddenBottom : ℤ} {anchor : Anchor} {p : Pan} {f : Frame}

/-- The columns are those of the buffer, with or without padding. -/
theorem RootBuffer.column_eq (b : RootBuffer) (x : ℚ) :
    x / b.width * b.xfactor * b.textureWidth = x := by
  have hwidth : (b.width : ℚ) ≠ 0 := by exact_mod_cast b.legal.1.ne'
  have hstride : (b.stride : ℚ) ≠ 0 := by
    exact_mod_cast (b.legal.1.trans_le b.legal.2.2).ne'
  rw [RootBuffer.xfactor, RootBuffer.textureWidth]
  split
  · field_simp
  · field_simp

theorem RootBuffer.row_eq (b : RootBuffer) (y : ℚ) : y / b.height * b.textureHeight = y := by
  have hheight : (b.height : ℚ) ≠ 0 := by exact_mod_cast b.legal.2.1.ne'
  rw [RootBuffer.textureHeight]
  field_simp

/-- What is shown is in the screen; it is in the picture if it ends before the padding. -/
theorem onlyPicture_iff {b : RootBuffer}
    (hleft : 0 ≤ f.pan.panSourceLeft) (hwidth : 0 ≤ f.layout.sourceWidth)
    (hrows : Inside f.pan.panSourceTop f.layout.sourceHeight b.height) :
    OnlyPicture b f ↔ f.pan.panSourceLeft + f.layout.sourceWidth ≤ b.width := by
  obtain ⟨htop, hheight, hbottom⟩ := hrows
  rw [OnlyPicture, Covers, Covers, textureRect, b.column_eq, b.column_eq, b.row_eq, b.row_eq]
  constructor
  · rintro ⟨⟨-, -, hright⟩, -⟩
    exact hright
  · intro hright
    exact ⟨⟨hleft, by linarith, hright⟩, htop, by linarith, hbottom⟩

/-! ### How wide the shown part is -/

theorem sourceLength_of_not_zoomed (hzoom : ¬ 100 < s.zoom.percent) (scale : ℚ)
    (expected whole : ℕ) : s.sourceLength scale expected whole = whole :=
  if_neg hzoom

/-- Zoomed in, the picture grows into the room, and the rest of the zoom shows less. -/
theorem sourceLength_of_zoomed (hzoom : 100 < s.zoom.percent) (expected whole : ℕ) :
    s.sourceLength s.destinationScaleX expected whole = expected * s.share := by
  have hpos : (0 : ℚ) < s.zoom.percent := by exact_mod_cast (by omega : 0 < s.zoom.percent)
  have hinv : s.requestedScale⁻¹ = 100 / s.zoom.percent := by rw [Scene.requestedScale, inv_div]
  have hrequested := requestedScale_pos hzoom
  rw [Scene.sourceLength, if_pos hzoom, mul_div_assoc]
  congr 1
  rw [Scene.destinationScaleX, Scene.destinationScale, Scene.share]
  by_cases hviewport : 0 < s.viewportW ∧ 0 < s.viewportH
  · have hgrows : s.Grows := ⟨hzoom, hviewport⟩
    rw [if_pos hviewport, if_pos hgrows, ← hinv]
    have hmax {x : ℚ} : (if x < 1 then 1 else x) = max 1 x := by
      rw [max_comm, max_def_lt]
    rw [hmax, div_eq_mul_inv, max_mul_of_nonneg _ _ (inv_nonneg.mpr hrequested.le),
      min_mul_of_nonneg _ _ (inv_nonneg.mpr hrequested.le), one_mul,
      mul_inv_cancel₀ hrequested.ne']
  · have hstays : ¬ s.Grows := fun h => hviewport h.2
    rw [if_neg hviewport, if_neg hstays, ← hinv, one_div]

/-! ### Where the shown part ends -/

/-- In a length that is longer than the picture, the shown part ends in the picture if it
would so without the clamp. -/
theorem clamp_add_le_iff {x shown total picture : ℚ} (h : picture < total) :
    clamp 0 (total - shown) x + shown ≤ picture ↔ shown ≤ picture ∧ x + shown ≤ picture := by
  rw [← le_sub_iff_add_le, clamp_le_iff, sub_nonneg]
  refine and_congr_right fun _ => ⟨?_, fun hx => .inl (by linarith)⟩
  rintro (hx | hx)
  · linarith
  · linarith

theorem panToCursor_add_le_iff {offset cursor shown total picture : ℚ} (hshown : 0 ≤ shown)
    (h : picture < total) :
    panToCursor offset cursor shown total + shown ≤ picture ↔
      shown ≤ picture ∧ cursor + shown * (5 / 100) ≤ picture ∧
        (offset + shown ≤ picture ∨ cursor + shown * (95 / 100) ≤ picture) := by
  rw [panToCursor_eq hshown, clamp_add_le_iff h, ← le_sub_iff_add_le, clamp_le_iff]
  refine and_congr_right fun _ => and_congr ?_ (or_congr ?_ ?_)
  · constructor
    · intro hcursor
      linarith
    · intro hcursor
      linarith
  · exact le_sub_iff_add_le
  · constructor
    · intro hcursor
      linarith
    · intro hcursor
      linarith

theorem movePan_left (s : Scene) (anchor : Anchor) (l : Layout) (p : Pan) :
    (movePan s anchor l p).panSourceLeft =
      if 0 ≤ anchor.sourceX then
        clamp 0 (s.expectedW - l.sourceWidth) (anchor.sourceX - anchor.fracX * l.sourceWidth)
      else if 100 < s.zoom.percent then
        panToCursor p.panSourceLeft s.cursorX l.sourceWidth s.expectedW
      else 0 := by
  rw [movePan]
  split
  · rfl
  · rfl

/-- A frame samples only pixels of the picture exactly if the part that it is to show ends
within the columns of the buffer. -/
theorem only_picture_iff (hframe : redrawLocked lround s hiddenBottom anchor p = some f) :
    OnlyPicture s.buffer f ↔ s.WithinPicture anchor p := by
  obtain ⟨hfits, hlayout, hpan⟩ := redrawLocked_eq_some hframe
  obtain ⟨⟨hleft, hwidth, hright⟩, hrows⟩ := shown_inside hframe
  obtain ⟨-, -, hbufferH, hbufferW⟩ := hfits.size
  rw [← hbufferH] at hrows
  rw [onlyPicture_iff hleft hwidth hrows, Scene.WithinPicture]
  by_cases hsame : s.buffer.width = s.expectedW
  · have hscreen : (s.expectedW : ℚ) = s.buffer.width := by rw [hsame]
    exact iff_of_true (hright.trans_eq hscreen) (.inl hsame)
  have hnarrow : (s.buffer.width : ℚ) < s.expectedW := by
    exact_mod_cast lt_of_le_of_ne hbufferW hsame
  rw [hlayout, layout_sourceWidth] at hwidth
  rw [or_iff_right hsame, hpan, hlayout, movePan_left, layout_sourceWidth, switchKeyboard_left]
  by_cases hzoom : 100 < s.zoom.percent
  · rw [sourceLength_of_zoomed hzoom] at hwidth ⊢
    rw [if_pos hzoom, if_pos hzoom, Scene.EndsInPicture]
    split
    next hpinch =>
      rw [clamp_add_le_iff hnarrow]
      refine and_congr_right fun _ => ?_
      constructor
      · intro hend
        linarith
      · intro hend
        linarith
    next hno => exact panToCursor_add_le_iff hwidth hnarrow
  · rw [sourceLength_of_not_zoomed hzoom, if_neg hzoom, if_neg hzoom]
    split
    next hpinch =>
      rw [clamp_add_le_iff hnarrow]
      refine ⟨fun hend _ => ?_, fun hend => ⟨le_rfl, ?_⟩⟩
      · linarith [hend.2]
      · linarith [hend hpinch]
    next hno =>
      rw [zero_add]
      exact iff_of_true le_rfl fun hpinch => absurd hpinch hno

/-- At the left edge of the screen nothing is missing. -/
theorem tallSurface_only_picture :
    ∃ f, redrawLocked lroundf { tallSurface with cursorX := 100 } 500 {} {} = some f ∧
      OnlyPicture tallSurface.buffer f := by
  have hframe : redrawLocked lroundf { tallSurface with cursorX := 100 } 500 {} {} = some _ :=
    if_pos (by decide)
  exact ⟨_, hframe, (only_picture_iff hframe).mpr (by decide +kernel)⟩

/-- At the right edge, the last seven columns that are asked for are none of the picture: the
rectangle ends at column 1919 of 1912. -/
theorem tallSurface_beyond :
    ∃ f, redrawLocked lroundf tallSurface 500 {} {} = some f ∧
      (textureRect tallSurface.buffer f).u1 * tallSurface.buffer.textureWidth = 1919 ∧
      ¬ OnlyPicture tallSurface.buffer f := by
  have hframe : redrawLocked lroundf tallSurface 500 {} {} = some _ := if_pos (by decide)
  have hend : (textureRect tallSurface.buffer
      ⟨tallSurface.layout lroundf 500, movePan tallSurface {} (tallSurface.layout lroundf 500)
        (switchKeyboard tallSurface.zoom
          (tallSurface.BottomHidden 500 (tallSurface.whole lroundf)) {})⟩).u1 *
      tallSurface.buffer.textureWidth = 1919 := by decide +kernel
  refine ⟨_, hframe, hend, fun h => ?_⟩
  have hright := h.1.2.2
  rw [hend] at hright
  exact absurd hright (by norm_num [tallSurface])

end Lorie.Redraw
