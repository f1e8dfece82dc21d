/-
How the picture follows the cursor (`panToCursor` in `renderer.cpp`).

The cursor is kept out of a band of 5% at the edges of what is shown, as far as the screen goes.
The offset is taken to where the cursor is out of the bands, and then into the screen, and the
second does not take the cursor out of sight again.

* `panToCursor_inSight`, `panToCursor_still`, `panToCursor_mono` — where the cursor is, when
  nothing moves, and a cursor further on never moves the picture back;
* `panToCursor_between` — no offset that will do is nearer;
* `panToCursor_follows` — the rule as a whole;
* `framePan_inSight` — a frame shows the cursor.
-/
import KaliGui.Lorie.RedrawPan

namespace Lorie.Redraw

open Clamp

variable {offset cursor cursor' shown total : ℚ}

/-- The width of the bands. -/
def edge (shown : ℚ) : ℚ := shown * (5 / 100)

/-- Where the cursor is out of the bands. -/
def OutOfBands (offset cursor shown : ℚ) : Prop :=
  offset + edge shown ≤ cursor ∧ cursor ≤ offset + shown - edge shown

theorem bands_le (hshown : 0 ≤ shown) :
    cursor - shown + shown * (5 / 100) ≤ cursor - shown * (5 / 100) := by linarith

/-- The clamp into the screen does not lose the cursor, which is in the screen. -/
theorem panToCursor_inSight (hshown : 0 ≤ shown) (hcursor : 0 ≤ cursor)
    (hcursor' : cursor ≤ total) :
    panToCursor offset cursor shown total ≤ cursor ∧
      cursor ≤ panToCursor offset cursor shown total + shown := by
  have hedge : 0 ≤ shown * (5 / 100) := by linarith
  rw [panToCursor_eq hshown]
  constructor
  · refine clamp_le_iff.mpr ⟨hcursor, .inl ?_⟩
    exact (clamp_le (bands_le hshown)).trans (sub_le_self _ hedge)
  · have hin : cursor - shown ≤
        clamp (cursor - shown + shown * (5 / 100)) (cursor - shown * (5 / 100)) offset :=
      (le_add_of_nonneg_right hedge).trans le_clamp
    rw [← sub_le_iff_le_add]
    exact le_clamp_iff.mpr (.inr ⟨hin, sub_le_sub_right hcursor' _⟩)

theorem panToCursor_still (hshown : 0 ≤ shown) (hoffset : 0 ≤ offset)
    (hoffset' : offset ≤ total - shown) (h : OutOfBands offset cursor shown) :
    panToCursor offset cursor shown total = offset := by
  obtain ⟨hleft, hright⟩ := h
  rw [edge] at hleft hright
  have hinner : clamp (cursor - shown + shown * (5 / 100)) (cursor - shown * (5 / 100)) offset =
      offset := clamp_of_mem (by linarith) (by linarith)
  rw [panToCursor_eq hshown, hinner, clamp_of_mem hoffset hoffset']

theorem panToCursor_mono (hshown : 0 ≤ shown) (h : cursor ≤ cursor') :
    panToCursor offset cursor shown total ≤ panToCursor offset cursor' shown total := by
  rw [panToCursor_eq hshown, panToCursor_eq hshown]
  exact clamp_mono le_rfl le_rfl (clamp_mono (by linarith) (by linarith) le_rfl)

/-- The offset goes towards any offset in the screen where the cursor is out of the bands, and
not beyond it. -/
theorem panToCursor_between (hshown : 0 ≤ shown) {other : ℚ} (hother : 0 ≤ other)
    (hother' : other ≤ total - shown) (h : OutOfBands other cursor shown) :
    (offset ≤ other → offset ≤ panToCursor offset cursor shown total ∧
      panToCursor offset cursor shown total ≤ other) ∧
    (other ≤ offset → other ≤ panToCursor offset cursor shown total ∧
      panToCursor offset cursor shown total ≤ offset) := by
  obtain ⟨hleft, hright⟩ := h
  rw [edge] at hleft hright
  rw [panToCursor_eq hshown]
  have hlo : cursor - shown + shown * (5 / 100) ≤ other := by linarith
  have hhi : other ≤ cursor - shown * (5 / 100) := by linarith
  constructor
  · intro hle
    have hinner : clamp (cursor - shown + shown * (5 / 100)) (cursor - shown * (5 / 100)) offset ≤
        other := clamp_le_iff.mpr ⟨hlo, .inl hle⟩
    exact ⟨(le_clamp_of_le hhi hle).trans (le_clamp_of_le hother' hinner),
      clamp_le_iff.mpr ⟨hother, .inl hinner⟩⟩
  · intro hle
    have hinner : other ≤
        clamp (cursor - shown + shown * (5 / 100)) (cursor - shown * (5 / 100)) offset :=
      le_clamp_iff.mpr (.inr ⟨hle, hhi⟩)
    exact ⟨le_clamp_iff.mpr (.inr ⟨hinner, hother'⟩),
      (clamp_le_of_le hother hinner).trans (clamp_le_of_le hlo hle)⟩

/-- For a cursor in the screen: the result is in the screen and shows the cursor, a valid offset
with the cursor out of the bands stays, the rule moves nothing the second time, and a cursor
further on never gives a lower offset. -/
theorem panToCursor_follows (offset : ℚ) (hshown : 0 < shown) (hle : shown ≤ total)
    (hcursor : 0 ≤ cursor) (hcursor' : cursor ≤ total) :
    let r := panToCursor offset cursor shown total
    (0 ≤ r ∧ r ≤ total - shown) ∧ (r ≤ cursor ∧ cursor ≤ r + shown) ∧
      (0 ≤ offset → offset ≤ total - shown → OutOfBands offset cursor shown → r = offset) ∧
      panToCursor r cursor shown total = r ∧
      ∀ cursor', cursor ≤ cursor' → cursor' ≤ total →
        r ≤ panToCursor offset cursor' shown total := by
  obtain ⟨hfirst, -, hlast⟩ := @inside_panToCursor offset cursor _ _ hshown.le hle
  refine ⟨⟨hfirst, le_sub_iff_add_le.mpr hlast⟩, panToCursor_inSight hshown.le hcursor hcursor',
    fun hoffset hoffset' => panToCursor_still hshown.le hoffset hoffset',
    panToCursor_idem hshown.le, fun _ hmore _ => panToCursor_mono hshown.le hmore⟩

/-- The cursor moves down from the top of a screen of which half is shown. -/
theorem halfShown_follows :
    panToCursor 0 90 50 100 ≤ 90 ∧ (90 : ℚ) ≤ panToCursor 0 90 50 100 + 50 := by
  obtain ⟨-, hsight, -⟩ := panToCursor_follows 0 (by norm_num : (0 : ℚ) < 50)
    (by norm_num : (50 : ℚ) ≤ 100) (by norm_num : (0 : ℚ) ≤ 90) (by norm_num)
  exact hsight

/-! ### Frames -/

variable {s : Scene} {lround : ℚ → ℚ} {anchor : Anchor} {p p' : Pan} {hiddenBottom : ℤ}

/-- Without a pinch, a frame shows the cursor, where not all of the screen is shown. -/
theorem framePan_inSight (hno : anchor.sourceX < 0)
    (h : framePan lround s anchor p hiddenBottom = some p') :
    (100 < s.zoom.percent → s.cursorX ≤ s.expectedW → p'.panSourceLeft ≤ s.cursorX ∧
      s.cursorX ≤ p'.panSourceLeft + (s.layout lround hiddenBottom).sourceWidth) ∧
    ((s.layout lround hiddenBottom).sourceHeight < s.expectedH → s.cursorY ≤ s.expectedH →
      p'.panSourceTop ≤ s.cursorY ∧
        s.cursorY ≤ p'.panSourceTop + (s.layout lround hiddenBottom).sourceHeight) := by
  obtain ⟨hfits, rfl⟩ := framePan_eq_some hno h
  obtain ⟨⟨hwidth, -⟩, hheight, -⟩ := layout_shown hfits lround hiddenBottom
  constructor
  · intro hzoom hcursor
    rw [moveLeft, if_pos hzoom]
    exact panToCursor_inSight hwidth.le (Nat.cast_nonneg _) (Nat.cast_le.mpr hcursor)
  · intro hless hcursor
    rw [moveTop, if_pos hless]
    exact panToCursor_inSight hheight.le (Nat.cast_nonneg _) (Nat.cast_le.mpr hcursor)

end Lorie.Redraw
