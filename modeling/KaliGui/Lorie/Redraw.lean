/-
Where a frame is drawn and which part of the screen it shows (`renderer.cpp`, lines 637 to 679
and 876 to 995).

Zoomed in, the picture first grows into the surface around the middle of its viewport, and
what does not fit shows a part of the screen.  The soft keyboard cuts off the bottom, and the
part that is shown moves with the cursor, or with a pinch.  Numbers are exact here, and what
takes lengths to pixels, `lroundf` in the code, is a parameter.

* `Scene`, `Pan` — what a frame is drawn of, and what is kept from frame to frame;
* `panToCursor`, `redrawLocked` — the code;
* `inside_layout`, `layout_shown` — where the picture is laid out, and how much of the screen
  it shows;
* `zoom_geometry` — zoomed in, nothing is drawn outside of the surface, nothing is shown
  outside of the screen, and the picture is as large as the zoom says.
-/
import KaliGui.Lib.Clamp
import Mathlib.Algebra.Order.Field.Rat
import Mathlib.Data.Rat.Floor
import Mathlib.Tactic.FieldSimp
import Mathlib.Tactic.Linarith

namespace Lorie.Redraw

open Clamp

/-! ### Data -/

/-- `zoomPercent` -/
structure Zoom where
  percent : ℤ
  legal : 100 ≤ percent ∧ percent ≤ 400
  deriving DecidableEq

def setZoom (percent : ℤ) : Zoom :=
  if hlow : percent < 100 then ⟨100, by decide⟩
  else if hhigh : 400 < percent then ⟨400, by decide⟩
  else ⟨percent, by omega⟩

/-- The description of a buffer that can be sent to the renderer. -/
structure RootBuffer where
  width : ℕ
  height : ℕ
  stride : ℕ
  /-- the type is `LORIEBUFFER_FD`, and not `LORIEBUFFER_AHARDWAREBUFFER` -/
  fd : Bool
  legal : 0 < width ∧ 0 < height ∧ width ≤ stride
  deriving DecidableEq

/-- What a frame is drawn of. -/
structure Scene where
  surfaceW : ℤ
  surfaceH : ℤ
  viewportX : ℤ
  viewportY : ℤ
  viewportW : ℤ
  viewportH : ℤ
  expectedW : ℕ
  expectedH : ℕ
  zoom : Zoom
  buffer : RootBuffer
  cursorX : ℕ
  cursorY : ℕ

/-- `pinchAnchorSourceX` and so on; no pinch if `sourceX` is negative. -/
structure Anchor where
  sourceX : ℚ := -1
  sourceY : ℚ := -1
  fracX : ℚ := 1 / 2
  fracY : ℚ := 1 / 2

/-- What is kept from frame to frame. -/
structure Pan where
  panSourceLeft : ℚ := 0
  panSourceTop : ℚ := 0
  hiddenPanSourceTop : ℚ := -1
  bottomWasHidden : Bool := false
  deriving DecidableEq

/-- The render viewport and the size of what is shown in it, of the root buffer and of the
screen. -/
structure Layout where
  renderViewportX : ℚ
  renderViewportY : ℚ
  renderViewportW : ℚ
  renderViewportH : ℚ
  sourceWidth : ℚ
  sourceHeight : ℚ
  logicalSourceWidth : ℚ
  logicalSourceHeight : ℚ

/-- A frame; the part of the screen starts where the pan is. -/
structure Frame where
  layout : Layout
  pan : Pan

/-! ### The code -/

/-- `CVT_H_GRANULARITY` -/
def cvtHGranularity : ℕ := 8

/-- A root buffer is of the expected size. -/
def SizeFits (expectedW expectedH width height : ℕ) : Prop :=
  let alignedExpectedW := expectedW - expectedW % cvtHGranularity
  ¬ (expectedW = 0 ∨ expectedH = 0 ∨ height ≠ expectedH ∨
    (width ≠ alignedExpectedW ∧ width ≠ expectedW))

instance (expectedW expectedH width height : ℕ) :
    Decidable (SizeFits expectedW expectedH width height) :=
  inferInstanceAs (Decidable (¬ (_ ∨ _ ∨ _ ∨ (_ ∧ _))))

def Scene.Fits (s : Scene) : Prop :=
  SizeFits s.expectedW s.expectedH s.buffer.width s.buffer.height

instance (s : Scene) : Decidable s.Fits := inferInstanceAs (Decidable (SizeFits ..))

/-- Half a pixel goes away from zero. -/
def lroundf (x : ℚ) : ℚ := if 0 ≤ x then ⌊x + 1 / 2⌋ else ⌈x - 1 / 2⌉

def panToCursor (offset cursor shown total : ℚ) : ℚ :=
  let edge := shown * (5 / 100)
  let offset :=
    if cursor < offset + edge then cursor - edge
    else if offset + shown - edge < cursor then cursor - shown + edge
    else offset
  max 0 (min offset (total - shown))

def Scene.requestedScale (s : Scene) : ℚ := s.zoom.percent / 100

/-- The picture grows with the zoom. -/
def Scene.Grows (s : Scene) : Prop := 100 < s.zoom.percent ∧ 0 < s.viewportW ∧ 0 < s.viewportH

instance (s : Scene) : Decidable s.Grows := inferInstanceAs (Decidable (_ ∧ _ ∧ _))

/-- `centerX`, `centerY` -/
def center (start length : ℤ) : ℚ := start + length / 2

/-- `destinationScaleX`, `destinationScaleY` -/
def Scene.destinationScale (s : Scene) (start length surface : ℤ) : ℚ :=
  if s.Grows then
    let maxLength := 2 * min (center start length) (surface - center start length)
    let scale := min s.requestedScale (maxLength / length)
    if scale < 1 then 1 else scale
  else 1

def Scene.destinationScaleX (s : Scene) : ℚ :=
  s.destinationScale s.viewportX s.viewportW s.surfaceW

def Scene.destinationScaleY (s : Scene) : ℚ :=
  s.destinationScale s.viewportY s.viewportH s.surfaceH

/-- `renderViewportW`, `renderViewportH` before the keyboard. -/
def Scene.renderLength (s : Scene) (lround : ℚ → ℚ) (scale : ℚ) (length : ℤ) : ℚ :=
  if s.Grows then lround (length * scale) else length

/-- `renderViewportX`, `renderViewportY` -/
def Scene.renderStart (s : Scene) (lround : ℚ → ℚ) (renderLength : ℚ) (start length : ℤ) : ℚ :=
  if s.Grows then lround (center start length - renderLength / 2) else start

/-- `sourceWidth`, `sourceHeight` before the keyboard, of a root buffer of the length `whole`;
of a screen of that length, `logicalSourceWidth`, `logicalSourceHeight`. -/
def Scene.sourceLength (s : Scene) (scale : ℚ) (expected whole : ℕ) : ℚ :=
  if 100 < s.zoom.percent then expected * scale / s.requestedScale else whole

/-- The layout without a keyboard. -/
def Scene.whole (s : Scene) (lround : ℚ → ℚ) : Layout :=
  let renderViewportW := s.renderLength lround s.destinationScaleX s.viewportW
  let renderViewportH := s.renderLength lround s.destinationScaleY s.viewportH
  { renderViewportX := s.renderStart lround renderViewportW s.viewportX s.viewportW
    renderViewportY := s.renderStart lround renderViewportH s.viewportY s.viewportH
    renderViewportW
    renderViewportH
    sourceWidth := s.sourceLength s.destinationScaleX s.expectedW s.buffer.width
    sourceHeight := s.sourceLength s.destinationScaleY s.expectedH s.buffer.height
    logicalSourceWidth := s.sourceLength s.destinationScaleX s.expectedW s.expectedW
    logicalSourceHeight := s.sourceLength s.destinationScaleY s.expectedH s.expectedH }

/-- What the keyboard covers of the render viewport. -/
def Scene.cut (s : Scene) (hiddenBottom : ℤ) (l : Layout) : ℚ :=
  l.renderViewportY + l.renderViewportH - (s.viewportY + s.viewportH - hiddenBottom)

/-- `bottomHidden` -/
def Scene.BottomHidden (s : Scene) (hiddenBottom : ℤ) (l : Layout) : Prop :=
  0 < hiddenBottom ∧ 0 < s.cut hiddenBottom l ∧ s.cut hiddenBottom l < l.renderViewportH

instance (s : Scene) (hiddenBottom : ℤ) (l : Layout) : Decidable (s.BottomHidden hiddenBottom l) :=
  inferInstanceAs (Decidable (_ ∧ _ ∧ _))

/-- The layout with only the part above the keyboard. -/
def Scene.layout (s : Scene) (lround : ℚ → ℚ) (hiddenBottom : ℤ) : Layout :=
  let l := s.whole lround
  if s.BottomHidden hiddenBottom l then
    let shown := (l.renderViewportH - s.cut hiddenBottom l) / l.renderViewportH
    { l with
      renderViewportH := l.renderViewportH - s.cut hiddenBottom l
      sourceHeight := l.sourceHeight * shown
      logicalSourceHeight := l.logicalSourceHeight * shown }
  else l

/-- The keyboard swaps the zone the picture is at for the one of the other side. -/
def switchKeyboard (zoom : Zoom) (bottomHidden : Bool) (p : Pan) : Pan :=
  if bottomHidden = p.bottomWasHidden then p
  else
    { p with
      bottomWasHidden := bottomHidden
      hiddenPanSourceTop := p.panSourceTop
      panSourceTop :=
        if 0 ≤ p.hiddenPanSourceTop ∧ (bottomHidden = false ∨ zoom.percent = 100) then
          p.hiddenPanSourceTop
        else p.panSourceTop }

def movePan (s : Scene) (anchor : Anchor) (l : Layout) (p : Pan) : Pan :=
  if 0 ≤ anchor.sourceX then
    { p with
      panSourceLeft :=
        max 0 (min (anchor.sourceX - anchor.fracX * l.sourceWidth) (s.expectedW - l.sourceWidth))
      panSourceTop :=
        max 0 (min (anchor.sourceY - anchor.fracY * l.sourceHeight)
          (s.expectedH - l.sourceHeight)) }
  else
    { p with
      panSourceLeft :=
        if 100 < s.zoom.percent then
          panToCursor p.panSourceLeft s.cursorX l.sourceWidth s.expectedW
        else 0
      panSourceTop :=
        if l.sourceHeight < s.expectedH then
          panToCursor p.panSourceTop s.cursorY l.sourceHeight s.expectedH
        else 0 }

/-- `redrawLocked`; `none` where the root buffer is not of the expected size. -/
def redrawLocked (lround : ℚ → ℚ) (s : Scene) (hiddenBottom : ℤ) (anchor : Anchor) (p : Pan) :
    Option Frame :=
  if s.Fits then
    let l := s.layout lround hiddenBottom
    let bottomHidden := decide (s.BottomHidden hiddenBottom (s.whole lround))
    some ⟨l, movePan s anchor l (switchKeyboard s.zoom bottomHidden p)⟩
  else none

/-! ### What should hold -/

/-- A part of a length that starts at zero. -/
def Inside (start length total : ℚ) : Prop := 0 ≤ start ∧ 0 ≤ length ∧ start + length ≤ total

/-- The viewport is in the surface. -/
def Scene.Contained (s : Scene) : Prop :=
  Inside s.viewportX s.viewportW s.surfaceW ∧ Inside s.viewportY s.viewportH s.surfaceH

/-- Along one side, the shown part is drawn at the zoom. -/
def Scene.Scaled (s : Scene) (drawn shown : ℚ) (viewport : ℤ) (expected : ℕ) : Prop :=
  0 < shown ∧ drawn / shown = s.zoom.percent / 100 * (viewport / expected)

structure Exact (s : Scene) (f : Frame) : Prop where
  drawnX : Inside f.layout.renderViewportX f.layout.renderViewportW s.surfaceW
  drawnY : Inside f.layout.renderViewportY f.layout.renderViewportH s.surfaceH
  shownX : Inside f.pan.panSourceLeft f.layout.sourceWidth s.expectedW
  shownY : Inside f.pan.panSourceTop f.layout.sourceHeight s.expectedH
  scaledX : s.Scaled f.layout.renderViewportW f.layout.sourceWidth s.viewportW s.expectedW
  scaledY : s.Scaled f.layout.renderViewportH f.layout.sourceHeight s.viewportH s.expectedH

/-! ### The scale -/

variable {s : Scene} {lround : ℚ → ℚ} {hiddenBottom : ℤ} {anchor : Anchor} {p : Pan} {f : Frame}

theorem Scene.Fits.size (h : s.Fits) :
    0 < s.expectedW ∧ 0 < s.expectedH ∧ s.buffer.height = s.expectedH ∧
      s.buffer.width ≤ s.expectedW := by
  simp only [Scene.Fits, SizeFits, cvtHGranularity, not_or] at h
  omega

theorem one_lt_requestedScale (h : 100 < s.zoom.percent) : 1 < s.requestedScale := by
  have hcast : (100 : ℚ) < s.zoom.percent := by exact_mod_cast h
  rw [Scene.requestedScale]
  linarith

theorem one_le_destinationScale (s : Scene) (start length surface : ℤ) :
    1 ≤ s.destinationScale start length surface := by
  rw [Scene.destinationScale]
  split
  · dsimp only
    split
    · exact le_rfl
    next hscale => exact not_lt.mp hscale
  · exact le_rfl

theorem destinationScale_le (h : 100 < s.zoom.percent) (start length surface : ℤ) :
    s.destinationScale start length surface ≤ s.requestedScale := by
  rw [Scene.destinationScale]
  split
  · dsimp only
    split
    · exact (one_lt_requestedScale h).le
    · exact min_le_left _ _
  · exact (one_lt_requestedScale h).le

/-- The surface has room for the picture around the middle of a viewport that is in it. -/
theorem mul_destinationScale_le {start length surface : ℤ} (hinside : Inside start length surface)
    (hlength : 0 < length) :
    length * s.destinationScale start length surface ≤
      2 * min (center start length) (surface - center start length) := by
  obtain ⟨hstart, -, hend⟩ := hinside
  have hpos : (0 : ℚ) < length := by exact_mod_cast hlength
  have hroom : (length : ℚ) ≤ 2 * min (center start length) (surface - center start length) := by
    rw [center, min_def]
    split
    · linarith
    · linarith
  rw [Scene.destinationScale]
  split
  · dsimp only
    split
    · rwa [mul_one]
    · calc (length : ℚ) * min s.requestedScale _
          ≤ length * (2 * min (center start length) (surface - center start length) / length) :=
            mul_le_mul_of_nonneg_left (min_le_right _ _) hpos.le
        _ = _ := mul_div_cancel₀ _ hpos.ne'
  · rwa [mul_one]

/-! ### What is drawn -/

/-- Without rounding, the grown picture stays in the surface around the same middle. -/
theorem inside_render {start length surface : ℤ} (hlength : s.Grows → 0 < length)
    (hinside : Inside start length surface) :
    Inside (s.renderStart id (s.renderLength id (s.destinationScale start length surface) length)
        start length)
      (s.renderLength id (s.destinationScale start length surface) length) surface := by
  rw [Scene.renderStart, Scene.renderLength]
  split
  next hgrows =>
    have hscale := one_le_destinationScale s start length surface
    have hroom := mul_destinationScale_le (s := s) hinside (hlength hgrows)
    have hleft := min_le_left (center start length) (surface - center start length)
    have hright := min_le_right (center start length) (surface - center start length)
    refine ⟨?_, mul_nonneg hinside.2.1 (by linarith), ?_⟩
    · simp only [id_eq]
      linarith
    · simp only [id_eq]
      linarith
  next => exact hinside

/-- What is above the keyboard is a part of the whole. -/
theorem inside_layout (hcontained : s.Contained) (hiddenBottom : ℤ) :
    Inside (s.layout id hiddenBottom).renderViewportX (s.layout id hiddenBottom).renderViewportW
        s.surfaceW ∧
      Inside (s.layout id hiddenBottom).renderViewportY (s.layout id hiddenBottom).renderViewportH
        s.surfaceH := by
  have hx := inside_render (fun h => h.2.1) hcontained.1
  have hy := inside_render (fun h => h.2.2) hcontained.2
  rw [Scene.layout]
  split
  next hhidden =>
    obtain ⟨-, hcut, hless⟩ := hhidden
    obtain ⟨hstart, hlength, hend⟩ := hy
    refine ⟨hx, hstart, by linarith, ?_⟩
    have hcover : (s.whole id).renderViewportY + (s.whole id).renderViewportH ≤ s.surfaceH := hend
    dsimp only
    linarith
  next => exact ⟨hx, hy⟩

/-! ### What is shown -/

theorem requestedScale_pos (h : 100 < s.zoom.percent) : 0 < s.requestedScale :=
  zero_lt_one.trans (one_lt_requestedScale h)

/-- Zoomed in, a part of the screen that is not empty is shown; otherwise all of the root
buffer. -/
theorem sourceLength_spec (start length surface : ℤ) {expected whole : ℕ}
    (hexpected : 0 < expected) (hwhole : 0 < whole) (hle : whole ≤ expected) :
    0 < s.sourceLength (s.destinationScale start length surface) expected whole ∧
      s.sourceLength (s.destinationScale start length surface) expected whole ≤ expected := by
  have hpos : (0 : ℚ) < expected := by exact_mod_cast hexpected
  rw [Scene.sourceLength]
  split
  next hzoom =>
    have hrequested := requestedScale_pos hzoom
    have hscale := one_le_destinationScale s start length surface
    have hlimit := destinationScale_le hzoom start length surface
    refine ⟨div_pos (mul_pos hpos (zero_lt_one.trans_le hscale)) hrequested, ?_⟩
    rw [div_le_iff₀ hrequested]
    exact mul_le_mul_of_nonneg_left hlimit hpos.le
  next => exact ⟨by exact_mod_cast hwhole, by exact_mod_cast hle⟩

/-- The part above the keyboard, and its share of the height. -/
theorem shown_mem (h : s.BottomHidden hiddenBottom (s.whole lround)) :
    0 < ((s.whole lround).renderViewportH - s.cut hiddenBottom (s.whole lround)) /
        (s.whole lround).renderViewportH ∧
      ((s.whole lround).renderViewportH - s.cut hiddenBottom (s.whole lround)) /
        (s.whole lround).renderViewportH ≤ 1 := by
  obtain ⟨-, hcut, hless⟩ := h
  have hheight : 0 < (s.whole lround).renderViewportH := hcut.trans hless
  refine ⟨div_pos (by linarith) hheight, ?_⟩
  rw [div_le_iff₀ hheight]
  linarith

theorem layout_sourceWidth (s : Scene) (lround : ℚ → ℚ) (hiddenBottom : ℤ) :
    (s.layout lround hiddenBottom).sourceWidth =
      s.sourceLength s.destinationScaleX s.expectedW s.buffer.width := by
  rw [Scene.layout]
  split
  · rfl
  · rfl

/-- What is shown is not empty and not larger than the screen. -/
theorem layout_shown (hfits : s.Fits) (lround : ℚ → ℚ) (hiddenBottom : ℤ) :
    (0 < (s.layout lround hiddenBottom).sourceWidth ∧
        (s.layout lround hiddenBottom).sourceWidth ≤ s.expectedW) ∧
      0 < (s.layout lround hiddenBottom).sourceHeight ∧
        (s.layout lround hiddenBottom).sourceHeight ≤ s.expectedH := by
  obtain ⟨hwidth, hheight, hbufferH, hbufferW⟩ := hfits.size
  obtain ⟨hpos, hle⟩ := sourceLength_spec (s := s) s.viewportY s.viewportH s.surfaceH hheight
    s.buffer.legal.2.1 hbufferH.le
  refine ⟨?_, ?_⟩
  · rw [layout_sourceWidth]
    exact sourceLength_spec _ _ _ hwidth s.buffer.legal.1 hbufferW
  · rw [Scene.layout]
    split
    next hhidden =>
      obtain ⟨hshown, hshown'⟩ := shown_mem hhidden
      exact ⟨mul_pos hpos hshown, (mul_le_of_le_one_right hpos.le hshown').trans hle⟩
    next => exact ⟨hpos, hle⟩

theorem inside_clamp {x length total : ℚ} (hlength : 0 ≤ length) (hle : length ≤ total) :
    Inside (clamp 0 (total - length) x) length total := by
  have hend : clamp 0 (total - length) x ≤ total - length := clamp_le (sub_nonneg.mpr hle)
  exact ⟨le_clamp, hlength, by linarith⟩

theorem inside_panToCursor {offset cursor shown total : ℚ} (hshown : 0 ≤ shown)
    (hle : shown ≤ total) : Inside (panToCursor offset cursor shown total) shown total :=
  inside_clamp hshown hle

/-- The part that is shown is moved within the screen, and along the height always. -/
theorem inside_movePan {l : Layout} (anchor : Anchor) (p : Pan) (hwidth : 0 < l.sourceWidth)
    (hwidth' : l.sourceWidth ≤ s.expectedW) (hheight : 0 < l.sourceHeight)
    (hheight' : l.sourceHeight ≤ s.expectedH) :
    Inside (movePan s anchor l p).panSourceLeft l.sourceWidth s.expectedW ∧
      Inside (movePan s anchor l p).panSourceTop l.sourceHeight s.expectedH := by
  have hzero {length total : ℚ} (hlength : 0 < length) (hle : length ≤ total) :
      Inside 0 length total := ⟨le_rfl, hlength.le, by linarith⟩
  rw [movePan]
  split
  · exact ⟨inside_clamp hwidth.le hwidth', inside_clamp hheight.le hheight'⟩
  · constructor
    · dsimp only
      split
      · exact inside_panToCursor hwidth.le hwidth'
      · exact hzero hwidth hwidth'
    · dsimp only
      split
      · exact inside_panToCursor hheight.le hheight'
      · exact hzero hheight hheight'

/-- The rule takes the offset to where the cursor is in sight, and then into the screen. -/
theorem panToCursor_eq {offset cursor shown total : ℚ} (hshown : 0 ≤ shown) :
    panToCursor offset cursor shown total =
      clamp 0 (total - shown)
        (clamp (cursor - shown + shown * (5 / 100)) (cursor - shown * (5 / 100)) offset) := by
  have hband : cursor - shown + shown * (5 / 100) ≤ cursor - shown * (5 / 100) := by linarith
  have hmoved : clamp (cursor - shown + shown * (5 / 100)) (cursor - shown * (5 / 100)) offset =
      if cursor < offset + shown * (5 / 100) then cursor - shown * (5 / 100)
      else if offset + shown - shown * (5 / 100) < cursor then
        cursor - shown + shown * (5 / 100)
      else offset := by
    split
    next hleft => exact clamp_of_ge hband (by linarith)
    next hleft =>
      split
      next hright => exact clamp_of_le (by linarith)
      next hright => exact clamp_of_mem (by linarith) (by linarith)
  rw [hmoved, panToCursor, clamp]

/-! ### The zoom -/

theorem Scene.Scaled.mul {drawn shown t : ℚ} {viewport : ℤ} {expected : ℕ}
    (h : s.Scaled drawn shown viewport expected) (ht : 0 < t) :
    s.Scaled (drawn * t) (shown * t) viewport expected := by
  refine ⟨mul_pos h.1 ht, ?_⟩
  rw [mul_div_mul_right _ _ ht.ne']
  exact h.2

/-- The scale of the picture is divided out. -/
theorem scaled_whole (hzoom : 100 < s.zoom.percent) (start length surface : ℤ) {expected : ℕ}
    (hexpected : 0 < expected) (whole : ℕ) :
    s.Scaled (s.renderLength id (s.destinationScale start length surface) length)
      (s.sourceLength (s.destinationScale start length surface) expected whole) length
      expected := by
  have hpos : (0 : ℚ) < expected := by exact_mod_cast hexpected
  have hrequested := requestedScale_pos hzoom
  have hscale : 0 < s.destinationScale start length surface :=
    zero_lt_one.trans_le (one_le_destinationScale s start length surface)
  have hdrawn : s.renderLength id (s.destinationScale start length surface) length =
      length * s.destinationScale start length surface := by
    rw [Scene.renderLength]
    split
    · rfl
    next hnot => rw [Scene.destinationScale, if_neg hnot, mul_one]
  rw [Scene.Scaled, hdrawn, Scene.sourceLength, if_pos hzoom]
  refine ⟨div_pos (mul_pos hpos hscale) hrequested, ?_⟩
  have hpercent : (s.zoom.percent : ℚ) / 100 = s.requestedScale := rfl
  rw [hpercent]
  field_simp

/-! ### Frames -/

theorem redrawLocked_eq_some (h : redrawLocked lround s hiddenBottom anchor p = some f) :
    s.Fits ∧ f.layout = s.layout lround hiddenBottom ∧
      f.pan = movePan s anchor (s.layout lround hiddenBottom)
        (switchKeyboard s.zoom (s.BottomHidden hiddenBottom (s.whole lround)) p) := by
  rw [redrawLocked] at h
  split at h <;> [skip; cases h]
  next hfits =>
    obtain rfl := Option.some_inj.mp h
    exact ⟨hfits, rfl, rfl⟩

theorem switchKeyboard_left (zoom : Zoom) (bottomHidden : Bool) (p : Pan) :
    (switchKeyboard zoom bottomHidden p).panSourceLeft = p.panSourceLeft := by
  rw [switchKeyboard]
  split
  · rfl
  · rfl

/-- Every frame shows a part of the screen. -/
theorem shown_inside (h : redrawLocked lround s hiddenBottom anchor p = some f) :
    Inside f.pan.panSourceLeft f.layout.sourceWidth s.expectedW ∧
      Inside f.pan.panSourceTop f.layout.sourceHeight s.expectedH := by
  obtain ⟨hfits, hlayout, hpan⟩ := redrawLocked_eq_some h
  obtain ⟨⟨hpos, hle⟩, hpos', hle'⟩ := layout_shown hfits lround hiddenBottom
  rw [hlayout, hpan]
  exact inside_movePan anchor _ hpos hle hpos' hle'

/-- Zoomed in, a frame stays inside of the surface and shows a part inside of the screen, at
the zoom along both sides, if no lengths are rounded to pixels. -/
theorem zoom_geometry (hcontained : s.Contained) (hzoom : 100 < s.zoom.percent)
    (hiddenBottom : ℤ) (anchor : Anchor) (p : Pan)
    (hframe : redrawLocked id s hiddenBottom anchor p = some f) : Exact s f := by
  obtain ⟨hfits, hlayout, -⟩ := redrawLocked_eq_some hframe
  obtain ⟨hshownX, hshownY⟩ := shown_inside hframe
  obtain ⟨hdrawnX, hdrawnY⟩ := inside_layout hcontained hiddenBottom
  obtain ⟨hwidth, hheight, -, -⟩ := hfits.size
  have hscaledX := scaled_whole hzoom s.viewportX s.viewportW s.surfaceW hwidth s.buffer.width
  have hscaledY := scaled_whole hzoom s.viewportY s.viewportH s.surfaceH hheight s.buffer.height
  rw [← hlayout] at hdrawnX hdrawnY
  refine ⟨hdrawnX, hdrawnY, hshownX, hshownY, ?_, ?_⟩
  · rw [hlayout, Scene.layout]
    split
    · exact hscaledX
    · exact hscaledX
  · rw [hlayout, Scene.layout]
    split
    next hhidden =>
      -- what the keyboard cuts off is cut off the shown part in the same proportion
      have hmul := Scene.Scaled.mul hscaledY (shown_mem hhidden).1
      have hrender : (s.whole id).renderViewportH ≠ 0 := (hhidden.2.1.trans hhidden.2.2).ne'
      have hpart := mul_div_cancel₀
        ((s.whole id).renderViewportH - s.cut hiddenBottom (s.whole id)) hrender
      have hdrawn : (s.whole id).renderViewportH =
        s.renderLength id (s.destinationScale s.viewportY s.viewportH s.surfaceH)
          s.viewportH := rfl
      rw [← hdrawn, hpart] at hmul
      exact hmul
    next => exact hscaledY

/-- A tall surface with the picture of a wide screen in the middle, at 200 percent. -/
def tallSurface : Scene where
  surfaceW := 1080
  surfaceH := 2000
  viewportX := 0
  viewportY := 600
  viewportW := 1080
  viewportH := 608
  expectedW := 1919
  expectedH := 1080
  zoom := setZoom 200
  buffer := ⟨1912, 1080, 1912, true, by decide⟩
  cursorX := 1911
  cursorY := 540

/-- The keyboard covers the lower 500 rows of the viewport. -/
theorem tallSurface_exact :
    ∃ f, redrawLocked id tallSurface 500 {} {} = some f ∧ Exact tallSurface f := by
  have hcontained : tallSurface.Contained := by
    refine ⟨⟨?_, ?_, ?_⟩, ?_, ?_, ?_⟩
    all_goals norm_num [tallSurface]
  have hframe : redrawLocked id tallSurface 500 {} {} = some _ := if_pos (by decide)
  exact ⟨_, hframe, zoom_geometry hcontained (by decide) 500 {} {} hframe⟩

end Lorie.Redraw
