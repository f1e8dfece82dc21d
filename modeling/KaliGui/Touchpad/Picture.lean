/-
The picture and the touch mapping (`X11Renderer.kt`, `Geometry.kt`).

The renderer draws the desktop and the pointer with GL, which measures the viewport from
the bottom of the surface; the touch layer takes the same numbers to be measured from the
top.  The two agree where the margins above and below the picture are equal.  The margin
is half of what the picture leaves, rounded down: of an odd number of rows the extra one is
above the picture, and the touch layer takes it to be below.  Numbers are exact here.

* `toView`, `Shows` — what a strip of triangles shows at a point of the view;
* `quad`, `cursorQuad` — the strips of the desktop and of the pointer;
* `Agrees` — a touched point shows the pixel it maps to;
* `agrees_iff_even`, `agrees_iff` — the sizes for which they agree.
-/
import KaliGui.Lib.Rounding
import KaliGui.Lib.TriangleStrip
import KaliGui.Touchpad.Renderer
import Mathlib.Tactic.FieldSimp

namespace Touchpad

open Rounding TriangleStrip

/-! ### What is drawn -/

/-- Where `glViewport` puts a point, in the coordinates of a touch: from the top left of
the surface. -/
def toView (box : Letterbox) (surfaceH : ℤ) (n : ℚ × ℚ) : ℚ × ℚ :=
  (box.x + (n.1 + 1) / 2 * box.width, surfaceH - (box.y + (n.2 + 1) / 2 * box.height))

/-- Nothing is drawn outside of the viewport. -/
def Unclipped (n : ℚ × ℚ) : Prop := (-1 ≤ n.1 ∧ n.1 ≤ 1) ∧ (-1 ≤ n.2 ∧ n.2 ≤ 1)

/-- `glDrawArrays` of the strip shows the texture coordinate `t` at the point `p`. -/
def Shows (strip : List (Vertex ℚ)) (box : Letterbox) (surfaceH : ℤ) (p t : ℚ × ℚ) : Prop :=
  ∃ n, Unclipped n ∧ toView box surfaceH n = p ∧ Interpolates strip n t

/-- The strip of `drawQuad`. -/
def quad : List (Vertex ℚ) := [⟨-1, -1, 0, 1⟩, ⟨1, -1, 1, 1⟩, ⟨-1, 1, 0, 0⟩, ⟨1, 1, 1, 0⟩]

/-- `ARROW_W`, `ARROW_H` -/
def arrowW : ℤ := 16
def arrowH : ℤ := 16

/-- The strip of `drawCursor`. -/
def cursorQuad (pointerX pointerY fbW fbH : ℤ) : List (Vertex ℚ) :=
  let left : ℚ := pointerX
  let top : ℚ := pointerY
  let x0 := 2 * left / fbW - 1
  let x1 := 2 * (left + arrowW) / fbW - 1
  let y0 := 1 - 2 * top / fbH
  let y1 := 1 - 2 * (top + arrowH) / fbH
  [⟨x0, y1, 0, 1⟩, ⟨x1, y1, 1, 1⟩, ⟨x0, y0, 0, 0⟩, ⟨x1, y0, 1, 0⟩]

/-- The texture coordinate is one of the texel `q` of `w` by `h`, the first row of the
texels being at zero. -/
def InTexel (w h : ℤ) (q : ℤ × ℤ) (t : ℚ × ℚ) : Prop :=
  ((q.1 : ℚ) ≤ t.1 * w ∧ t.1 * w ≤ q.1 + 1) ∧ ((q.2 : ℚ) ≤ t.2 * h ∧ t.2 * h ≤ q.2 + 1)

/-! ### What should hold -/

/-- What the touch layer reads once the picture is laid out. -/
def touchViewport (surfaceW surfaceH fbW fbH : ℤ) : Viewport :=
  let box := letterbox ℚ surfaceW surfaceH fbW fbH
  ⟨box.x, box.y, box.width, box.height, fbW, fbH⟩

/-- The desktop is drawn at the point; it is drawn once there is a frame. -/
def InPicture (surfaceW surfaceH fbW fbH : ℤ) (p : ℚ × ℚ) : Prop :=
  0 < fbW ∧ 0 < fbH ∧ ∃ t, Shows quad (letterbox ℚ surfaceW surfaceH fbW fbH) surfaceH p t

/-- The pixel `q` of the desktop is drawn at the point. -/
def ShowsPixel (surfaceW surfaceH fbW fbH : ℤ) (q : ℤ × ℤ) (p : ℚ × ℚ) : Prop :=
  ∃ t, Shows quad (letterbox ℚ surfaceW surfaceH fbW fbH) surfaceH p t ∧ InTexel fbW fbH q t

/-- The hot spot of the arrow, its first texel, is drawn at the point if the pointer is at
the pixel `q`. -/
def ShowsHotSpot (surfaceW surfaceH fbW fbH : ℤ) (q : ℤ × ℤ) (p : ℚ × ℚ) : Prop :=
  ∃ t, Shows (cursorQuad q.1 q.2 fbW fbH) (letterbox ℚ surfaceW surfaceH fbW fbH) surfaceH p t ∧
    InTexel arrowW arrowH (0, 0) t

/-- A point of the picture maps to a pixel that is drawn there, by itself and as the hot
spot of the pointer; every other point maps to null. -/
structure Agrees (surfaceW surfaceH fbW fbH : ℤ) : Prop where
  inside : ∀ p : ℚ × ℚ, InPicture surfaceW surfaceH fbW fbH p →
    ∃ q, (touchViewport surfaceW surfaceH fbW fbH).toFramebuffer p.1 p.2 = some (some q) ∧
      ShowsPixel surfaceW surfaceH fbW fbH q p ∧ ShowsHotSpot surfaceW surfaceH fbW fbH q p
  outside : ∀ p : ℚ × ℚ, ¬ InPicture surfaceW surfaceH fbW fbH p →
    (touchViewport surfaceW surfaceH fbW fbH).toFramebuffer p.1 p.2 = some none

/-! ### The strips -/

/-- The picture fills the viewport, the first row at the top. -/
theorem shows_quad_iff {box : Letterbox} {surfaceH : ℤ} {p t : ℚ × ℚ} :
    Shows quad box surfaceH p t ↔
      ((0 ≤ t.1 ∧ t.1 ≤ 1) ∧ (0 ≤ t.2 ∧ t.2 ≤ 1)) ∧
        p = (box.x + t.1 * box.width, surfaceH - box.y - box.height + t.2 * box.height) := by
  have hquad : quad = upright (-1) 1 1 (-1) := rfl
  rw [Shows, hquad]
  constructor
  · rintro ⟨n, -, rfl, hshow⟩
    obtain ⟨ht, rfl⟩ := interpolates_upright_iff.mp hshow
    refine ⟨ht, Prod.ext ?_ ?_⟩
    · simp only [toView]
      ring
    · simp only [toView]
      ring
  · rintro ⟨ht, rfl⟩
    refine ⟨_, ?_, ?_, interpolates_upright_iff.mpr ⟨ht, rfl⟩⟩
    · obtain ⟨⟨hu0, hu1⟩, hv0, hv1⟩ := ht
      exact ⟨⟨by linarith, by linarith⟩, by linarith, by linarith⟩
    · refine Prod.ext ?_ ?_
      · simp only [toView]
        ring
      · simp only [toView]
        ring

/-- The arrow is drawn at the size of the framebuffer's pixels, from its hot spot on. -/
theorem shows_cursorQuad {box : Letterbox} {surfaceH x y fbW fbH : ℤ} (hfbW : 0 < fbW)
    (hfbH : 0 < fbH) {t : ℚ × ℚ} (ht : (0 ≤ t.1 ∧ t.1 ≤ 1) ∧ (0 ≤ t.2 ∧ t.2 ≤ 1))
    (hx : 0 ≤ (x + t.1 * arrowW) / fbW ∧ (x + t.1 * arrowW) / fbW ≤ 1)
    (hy : 0 ≤ (y + t.2 * arrowH) / fbH ∧ (y + t.2 * arrowH) / fbH ≤ 1) :
    Shows (cursorQuad x y fbW fbH) box surfaceH
      (box.x + (x + t.1 * arrowW) / fbW * box.width,
        surfaceH - box.y - box.height + (y + t.2 * arrowH) / fbH * box.height) t := by
  have hw : (fbW : ℚ) ≠ 0 := by exact_mod_cast hfbW.ne'
  have hh : (fbH : ℚ) ≠ 0 := by exact_mod_cast hfbH.ne'
  have hstrip : cursorQuad x y fbW fbH =
      upright (2 * (x : ℚ) / fbW - 1) (2 * ((x : ℚ) + arrowW) / fbW - 1) (1 - 2 * (y : ℚ) / fbH)
        (1 - 2 * ((y : ℚ) + arrowH) / fbH) := rfl
  have hnx : 2 * (x : ℚ) / fbW - 1 +
      t.1 * (2 * ((x : ℚ) + arrowW) / fbW - 1 - (2 * (x : ℚ) / fbW - 1)) =
        2 * ((x + t.1 * arrowW) / fbW) - 1 := by
    field_simp
    ring
  have hny : 1 - 2 * (y : ℚ) / fbH +
      t.2 * (1 - 2 * ((y : ℚ) + arrowH) / fbH - (1 - 2 * (y : ℚ) / fbH)) =
        1 - 2 * ((y + t.2 * arrowH) / fbH) := by
    field_simp
    ring
  rw [hstrip]
  refine ⟨_, ?_, ?_, interpolates_upright_iff.mpr ⟨ht, rfl⟩⟩
  · rw [hnx, hny]
    exact ⟨⟨by linarith [hx.1], by linarith [hx.2]⟩, by linarith [hy.2], by linarith [hy.1]⟩
  · rw [hnx, hny]
    refine Prod.ext ?_ ?_
    · simp only [toView]
      ring
    · simp only [toView]
      ring

/-! ### The touch mapping -/

/-- The fraction of a point, and the point of a fraction. -/
theorem fraction_eq_some_iff {v : Viewport} {x y a b : ℚ} :
    v.fraction x y = some (a, b) ↔
      (0 < v.viewportWidth ∧ 0 < v.viewportHeight) ∧ ((0 ≤ a ∧ a ≤ 1) ∧ (0 ≤ b ∧ b ≤ 1)) ∧
        x = v.viewportX + a * v.viewportWidth ∧ y = v.viewportY + b * v.viewportHeight := by
  rw [Viewport.fraction]
  by_cases hempty : v.viewportWidth ≤ 0 ∨ v.viewportHeight ≤ 0
  · rw [if_pos hempty]
    exact iff_of_false (by simp) fun h => by omega
  have hsizes : 0 < v.viewportWidth ∧ 0 < v.viewportHeight := by omega
  have hw : (v.viewportWidth : ℚ) ≠ 0 := by exact_mod_cast hsizes.1.ne'
  have hh : (v.viewportHeight : ℚ) ≠ 0 := by exact_mod_cast hsizes.2.ne'
  have hx : (x - v.viewportX) / v.viewportWidth = a ↔ x = v.viewportX + a * v.viewportWidth := by
    rw [div_eq_iff hw, sub_eq_iff_eq_add']
  have hy : (y - v.viewportY) / v.viewportHeight = b ↔ y = v.viewportY + b * v.viewportHeight := by
    rw [div_eq_iff hh, sub_eq_iff_eq_add']
  rw [if_neg hempty, ← hx, ← hy]
  simp only [FloatOps.ofInt, FloatOps.lt, Int.cast_zero, Int.cast_one, Bool.or_eq_true,
    decide_eq_true_eq]
  constructor
  · intro h
    split at h <;> [cases h; skip]
    next hinside =>
      obtain ⟨rfl, rfl⟩ := Prod.mk.inj (Option.some_inj.mp h)
      simp only [not_or, not_lt] at hinside
      obtain ⟨⟨⟨ha0, ha1⟩, hb0⟩, hb1⟩ := hinside
      exact ⟨hsizes, ⟨⟨ha0, ha1⟩, hb0, hb1⟩, rfl, rfl⟩
  · rintro ⟨-, ⟨⟨ha0, ha1⟩, hb0, hb1⟩, rfl, rfl⟩
    rw [if_neg]
    simp only [not_or, not_lt]
    exact ⟨⟨⟨ha0, ha1⟩, hb0⟩, hb1⟩

/-- The pixel of a fraction on one axis, and what it is a pixel of. -/
theorem pixel_of_fraction {size : ℤ} (hsize : 0 < size) {a : ℚ} (h0 : 0 ≤ a) (h1 : a ≤ 1) :
    ∃ q, coerceIn (FloatOps.toInt (a * FloatOps.ofInt size : ℚ)) 0 (size - 1) = some q ∧
      (q : ℚ) ≤ a * size ∧ a * size ≤ q + 1 := by
  have hpos : (0 : ℚ) < size := by exact_mod_cast hsize
  have hle : a * size ≤ size := by
    calc a * size ≤ 1 * size := mul_le_mul_of_nonneg_right h1 hpos.le
      _ = size := one_mul _
  have hnonneg : 0 ≤ a * size := mul_nonneg h0 hpos.le
  have htrunc : (FloatOps.toInt (a * FloatOps.ofInt size : ℚ) : ℤ) = ⌊a * size⌋ :=
    trunc_of_nonneg hnonneg
  have hfloor0 : 0 ≤ ⌊a * (size : ℚ)⌋ := Int.floor_nonneg.mpr hnonneg
  rw [htrunc, coerceIn, if_neg (by omega), if_neg (by omega)]
  split
  next hlast =>
    -- the far edge counts as the last pixel
    have hge : (size : ℚ) ≤ ⌊a * (size : ℚ)⌋ := by exact_mod_cast (by omega : size ≤ _)
    have heq : a * size = size := le_antisymm hle (hge.trans (Int.floor_le _))
    refine ⟨size - 1, rfl, ?_, ?_⟩
    · rw [heq]
      push_cast
      linarith
    · rw [heq]
      push_cast
      linarith
  next => exact ⟨_, rfl, Int.floor_le _, (Int.lt_floor_add_one _).le⟩

/-- A point inside of the viewport, with the pixel it maps to. -/
theorem toFramebuffer_of_fraction {v : Viewport} {x y a b : ℚ}
    (h : v.fraction x y = some (a, b)) (hfbW : 0 < v.framebufferWidth)
    (hfbH : 0 < v.framebufferHeight) :
    ∃ q : ℤ × ℤ, v.toFramebuffer x y = some (some q) ∧
      ((q.1 : ℚ) ≤ a * v.framebufferWidth ∧ a * v.framebufferWidth ≤ q.1 + 1) ∧
        ((q.2 : ℚ) ≤ b * v.framebufferHeight ∧ b * v.framebufferHeight ≤ q.2 + 1) := by
  obtain ⟨-, ⟨⟨ha0, ha1⟩, hb0, hb1⟩, -, -⟩ := fraction_eq_some_iff.mp h
  obtain ⟨qx, hqx, hx⟩ := pixel_of_fraction hfbW ha0 ha1
  obtain ⟨qy, hqy, hy⟩ := pixel_of_fraction hfbH hb0 hb1
  refine ⟨(qx, qy), ?_, hx, hy⟩
  simp only [Viewport.toFramebuffer, h]
  rw [hqx, Option.bind_some, hqy, Option.map_some]

/-! ### Where they agree -/

section Layout

variable {surfaceW surfaceH fbW fbH : ℤ}

/-- The margin is half of the rows the picture leaves. -/
theorem letterbox_y (hfbW : 0 < fbW) (hfbH : 0 < fbH) :
    (letterbox ℚ surfaceW surfaceH fbW fbH).y =
      (surfaceH - (letterbox ℚ surfaceW surfaceH fbW fbH).height).tdiv 2 := by
  rw [letterbox, if_neg (by omega)]

theorem minOf_eq_min (a b : ℚ) : minOf a b = min a b := by
  rw [minOf, min_def]
  simp only [FloatOps.le, decide_eq_true_eq]

/-- The height of the picture: that of the surface, or what keeps its shape, rounded down. -/
theorem letterbox_height (hsurfaceW : 0 < surfaceW) (hsurfaceH : 0 < surfaceH) (hfbW : 0 < fbW)
    (hfbH : 0 < fbH) :
    (letterbox ℚ surfaceW surfaceH fbW fbH).height =
      if surfaceH * fbW ≤ surfaceW * fbH then surfaceH else fbH * surfaceW / fbW := by
  have hw : (0 : ℚ) < fbW := by exact_mod_cast hfbW
  have hh : (0 : ℚ) < fbH := by exact_mod_cast hfbH
  have hsw : (0 : ℚ) < surfaceW := by exact_mod_cast hsurfaceW
  have hsh : (0 : ℚ) < surfaceH := by exact_mod_cast hsurfaceH
  have hscale : pictureScale ℚ surfaceW surfaceH fbW fbH =
      min ((surfaceW : ℚ) / fbW) (surfaceH / fbH) := minOf_eq_min _ _
  have hnonneg : 0 ≤ (fbH : ℚ) * pictureScale ℚ surfaceW surfaceH fbW fbH := by
    rw [hscale]
    positivity
  have hheight : (letterbox ℚ surfaceW surfaceH fbW fbH).height =
      ⌊(fbH : ℚ) * pictureScale ℚ surfaceW surfaceH fbW fbH⌋ := by
    rw [letterbox, if_neg (by omega)]
    exact trunc_of_nonneg hnonneg
  have horder : (surfaceH : ℚ) / fbH ≤ surfaceW / fbW ↔ surfaceH * fbW ≤ surfaceW * fbH := by
    rw [div_le_div_iff₀ hh hw]
    exact_mod_cast Iff.rfl
  rw [hheight, hscale]
  split
  next hwide =>
    rw [min_eq_right (horder.mpr hwide), mul_div_cancel₀ _ hh.ne', Int.floor_intCast]
  next hnarrow =>
    obtain ⟨n, rfl⟩ := Int.eq_ofNat_of_zero_le hfbW.le
    have hfloor :
        (fbH : ℚ) * (surfaceW / ((n : ℤ) : ℚ)) = ((fbH * surfaceW : ℤ) : ℚ) / (n : ℚ) := by
      push_cast
      ring
    rw [min_eq_left (not_le.mp (horder.not.mpr hnarrow)).le, hfloor,
      Rat.floor_intCast_div_natCast]

theorem letterbox_height_le (hsurfaceW : 0 < surfaceW) (hsurfaceH : 0 < surfaceH)
    (hfbW : 0 < fbW) (hfbH : 0 < fbH) :
    (letterbox ℚ surfaceW surfaceH fbW fbH).height ≤ surfaceH := by
  rw [letterbox_height hsurfaceW hsurfaceH hfbW hfbH]
  split
  · exact Int.le_refl _
  next hnarrow =>
    refine Int.ediv_le_of_le_mul hfbW ?_
    rw [Int.mul_comm fbH surfaceW]
    omega

/-- A box with as many rows of the surface below it as above. -/
structure Letterbox.Centred (box : Letterbox) (surfaceH : ℤ) : Prop where
  width : 0 < box.width
  height : 0 < box.height
  rows : surfaceH - box.y - box.height = box.y

/-- With equal margins above and below, the picture is where the touch layer has it. -/
theorem shows_quad_iff_fraction (h : (letterbox ℚ surfaceW surfaceH fbW fbH).Centred surfaceH)
    {p t : ℚ × ℚ} :
    Shows quad (letterbox ℚ surfaceW surfaceH fbW fbH) surfaceH p t ↔
      (touchViewport surfaceW surfaceH fbW fbH).fraction p.1 p.2 = some (t.1, t.2) := by
  have htop : (surfaceH : ℚ) - (letterbox ℚ surfaceW surfaceH fbW fbH).y -
      (letterbox ℚ surfaceW surfaceH fbW fbH).height =
        (letterbox ℚ surfaceW surfaceH fbW fbH).y := by exact_mod_cast h.rows
  rw [shows_quad_iff, fraction_eq_some_iff, htop, Prod.ext_iff]
  exact (and_iff_right ⟨h.width, h.height⟩).symm

theorem agrees_of_centred (h : (letterbox ℚ surfaceW surfaceH fbW fbH).Centred surfaceH)
    (hfbW : 0 < fbW) (hfbH : 0 < fbH) : Agrees surfaceW surfaceH fbW fbH where
  inside := by
    rintro p ⟨-, -, t, hshow⟩
    have hw : (fbW : ℚ) ≠ 0 := by exact_mod_cast hfbW.ne'
    have hh : (fbH : ℚ) ≠ 0 := by exact_mod_cast hfbH.ne'
    obtain ⟨⟨⟨hu0, hu1⟩, hv0, hv1⟩, hp⟩ := shows_quad_iff.mp hshow
    obtain ⟨q, hq, hx, hy⟩ := toFramebuffer_of_fraction
      ((shows_quad_iff_fraction h).mp hshow) hfbW hfbH
    refine ⟨q, hq, ⟨t, hshow, hx, hy⟩, ?_⟩
    have hx : (q.1 : ℚ) ≤ t.1 * fbW ∧ t.1 * fbW ≤ q.1 + 1 := hx
    have hy : (q.2 : ℚ) ≤ t.2 * fbH ∧ t.2 * fbH ≤ q.2 + 1 := hy
    -- the place in the hot spot is the place in the pixel
    have hplaceX : (q.1 + (t.1 * fbW - q.1) / 16 * arrowW) / (fbW : ℚ) = t.1 := by
      rw [show (arrowW : ℚ) = 16 by norm_num [arrowW]]
      field_simp
      ring
    have hplaceY : (q.2 + (t.2 * fbH - q.2) / 16 * arrowH) / (fbH : ℚ) = t.2 := by
      rw [show (arrowH : ℚ) = 16 by norm_num [arrowH]]
      field_simp
      ring
    have hspot : Shows (cursorQuad q.1 q.2 fbW fbH) (letterbox ℚ surfaceW surfaceH fbW fbH) surfaceH
        _ ((t.1 * fbW - q.1) / 16, (t.2 * fbH - q.2) / 16) := shows_cursorQuad hfbW hfbH
      ⟨⟨by linarith, by linarith⟩, by linarith, by linarith⟩
      (by rw [hplaceX]; exact ⟨hu0, hu1⟩) (by rw [hplaceY]; exact ⟨hv0, hv1⟩)
    rw [hplaceX, hplaceY, ← hp] at hspot
    refine ⟨_, hspot, ⟨?_, ?_⟩, ?_, ?_⟩
    · norm_num [arrowW]
      linarith
    · norm_num [arrowW]
      linarith
    · norm_num [arrowH]
      linarith
    · norm_num [arrowH]
      linarith
  outside := by
    intro p hout
    rw [Viewport.toFramebuffer]
    rcases hf : (touchViewport surfaceW surfaceH fbW fbH).fraction p.1 p.2 with _ | ⟨a, b⟩
    · rfl
    · have hshow := (shows_quad_iff_fraction h (p := p) (t := (a, b))).mpr hf
      exact absurd ⟨hfbW, hfbH, _, hshow⟩ hout

/-- The corner of the viewport maps to a pixel, so the picture must be there. -/
theorem Agrees.corner (h : Agrees surfaceW surfaceH fbW fbH)
    (hwidth : 0 < (letterbox ℚ surfaceW surfaceH fbW fbH).width)
    (hheight : 0 < (letterbox ℚ surfaceW surfaceH fbW fbH).height) :
    InPicture surfaceW surfaceH fbW fbH ((letterbox ℚ surfaceW surfaceH fbW fbH).x,
      (letterbox ℚ surfaceW surfaceH fbW fbH).y) := by
  have hcorner : (touchViewport surfaceW surfaceH fbW fbH).fraction
      ((letterbox ℚ surfaceW surfaceH fbW fbH).x : ℚ)
      ((letterbox ℚ surfaceW surfaceH fbW fbH).y : ℚ) = some (0, 0) := by
    refine fraction_eq_some_iff.mpr ⟨⟨hwidth, hheight⟩, ?_, ?_, ?_⟩
    · exact ⟨⟨le_refl 0, zero_le_one⟩, le_refl 0, zero_le_one⟩
    · rw [zero_mul, add_zero]
      rfl
    · rw [zero_mul, add_zero]
      rfl
  by_contra hout
  have hinside := Viewport.toFramebuffer_isSome (h.outside _ hout)
  rw [Viewport.inside, hcorner] at hinside
  cases hinside

/-- An extra row above the picture maps to its first row of pixels. -/
theorem not_agrees_of_odd (hwidth : 0 < (letterbox ℚ surfaceW surfaceH fbW fbH).width)
    (hheight : 0 < (letterbox ℚ surfaceW surfaceH fbW fbH).height)
    (hodd : (letterbox ℚ surfaceW surfaceH fbW fbH).y <
      surfaceH - (letterbox ℚ surfaceW surfaceH fbW fbH).y -
        (letterbox ℚ surfaceW surfaceH fbW fbH).height) : ¬ Agrees surfaceW surfaceH fbW fbH := by
  intro h
  obtain ⟨-, -, t, hshow⟩ := h.corner hwidth hheight
  obtain ⟨⟨-, hv0, -⟩, hp⟩ := shows_quad_iff.mp hshow
  -- the picture begins below the corner
  have hy := congrArg Prod.snd hp
  dsimp only at hy
  have hpos : (0 : ℚ) < (letterbox ℚ surfaceW surfaceH fbW fbH).height := by
    exact_mod_cast hheight
  have hrow : ((letterbox ℚ surfaceW surfaceH fbW fbH).y : ℚ) <
      surfaceH - (letterbox ℚ surfaceW surfaceH fbW fbH).y -
        (letterbox ℚ surfaceW surfaceH fbW fbH).height := by exact_mod_cast hodd
  have hdown := mul_nonneg hv0 hpos.le
  linarith

/-- Picture and touch mapping agree exactly if there is a framebuffer and the picture leaves
an even number of rows of the surface. -/
theorem agrees_iff_even (hsurfaceW : 0 < surfaceW) (hsurfaceH : 0 < surfaceH)
    (hwidth : 0 < (letterbox ℚ surfaceW surfaceH fbW fbH).width)
    (hheight : 0 < (letterbox ℚ surfaceW surfaceH fbW fbH).height) :
    Agrees surfaceW surfaceH fbW fbH ↔ (0 < fbW ∧ 0 < fbH) ∧
      2 ∣ surfaceH - (letterbox ℚ surfaceW surfaceH fbW fbH).height := by
  by_cases hfb : 0 < fbW ∧ 0 < fbH
  · have hy : (letterbox ℚ surfaceW surfaceH fbW fbH).y =
        (surfaceH - (letterbox ℚ surfaceW surfaceH fbW fbH).height).tdiv 2 :=
      letterbox_y hfb.1 hfb.2
    have hle := letterbox_height_le hsurfaceW hsurfaceH hfb.1 hfb.2
    rw [Int.tdiv_eq_ediv_of_nonneg (by omega)] at hy
    constructor
    · intro h
      refine ⟨hfb, ?_⟩
      by_contra hodd
      exact not_agrees_of_odd hwidth hheight (by omega) h
    · rintro ⟨-, heven⟩
      exact agrees_of_centred ⟨hwidth, hheight, by omega⟩ hfb.1 hfb.2
  · refine iff_of_false (fun h => hfb ?_) fun h => hfb h.1
    obtain ⟨hfbW, hfbH, -⟩ := h.corner hwidth hheight
    exact ⟨hfbW, hfbH⟩

/-- Picture and touch mapping agree exactly if there is a framebuffer, and the picture is
as high as the surface or leaves an even number of its rows. -/
theorem agrees_iff (hsurfaceW : 0 < surfaceW) (hsurfaceH : 0 < surfaceH)
    (hwidth : 0 < (letterbox ℚ surfaceW surfaceH fbW fbH).width)
    (hheight : 0 < (letterbox ℚ surfaceW surfaceH fbW fbH).height) :
    Agrees surfaceW surfaceH fbW fbH ↔ (0 < fbW ∧ 0 < fbH) ∧
      (surfaceH * fbW ≤ surfaceW * fbH ∨ 2 ∣ surfaceH - fbH * surfaceW / fbW) := by
  rw [agrees_iff_even hsurfaceW hsurfaceH hwidth hheight]
  refine and_congr_right fun hfb => ?_
  rw [letterbox_height hsurfaceW hsurfaceH hfb.1 hfb.2]
  split
  next hwide => exact iff_of_true (by rw [sub_self]; exact dvd_zero 2) (Or.inl hwide)
  next hnarrow => exact (or_iff_right hnarrow).symm

end Layout

/-! ### A phone -/

/-- A desktop of 1280 by 720 pixels on a phone held upright: the picture takes 607 rows of
2340. -/
theorem phone_not_agrees : ¬ Agrees 1080 2340 1280 720 :=
  not_agrees_of_odd (by decide +kernel) (by decide +kernel) (by decide +kernel)

/-- On a surface of one row more they agree. -/
theorem phone_agrees : Agrees 1080 2341 1280 720 :=
  (agrees_iff (by decide) (by decide) (by decide +kernel) (by decide +kernel)).mpr (by decide)

end Touchpad
