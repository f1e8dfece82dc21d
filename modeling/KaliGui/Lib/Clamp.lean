/-
Clamping into an interval.

`clamp lo hi` takes a point to the nearest one of the interval; where the interval is empty it
takes every point to `lo`.  Two clamps after another do nothing the second time, although the
first of them may undo what the second did.

* `le_clamp`, `clamp_le` — a clamped point is in the interval;
* `clamp_le_iff`, `le_clamp_iff` — when a clamped point is below or above a bound;
* `clamp_mono` — clamping is monotone in the point and in the interval;
* `le_clamp_of_le`, `clamp_le_of_le` — a clamped point is between the point and the interval;
* `clamp_clamp_idem` — two clamps after another are idempotent.
-/
import Mathlib.Order.MinMax

namespace Clamp

variable {α : Type*} [LinearOrder α] {lo hi lo' hi' x a : α}

def clamp (lo hi x : α) : α := max lo (min x hi)

theorem le_clamp : lo ≤ clamp lo hi x := le_max_left _ _

theorem clamp_le (h : lo ≤ hi) : clamp lo hi x ≤ hi := max_le h (min_le_right _ _)

theorem clamp_of_mem (hlo : lo ≤ x) (hhi : x ≤ hi) : clamp lo hi x = x := by
  rw [clamp, min_eq_left hhi, max_eq_right hlo]

theorem clamp_of_le (h : x ≤ lo) : clamp lo hi x = lo :=
  max_eq_left ((min_le_left _ _).trans h)

theorem clamp_of_ge (h : lo ≤ hi) (hx : hi ≤ x) : clamp lo hi x = hi := by
  rw [clamp, min_eq_right hx, max_eq_right h]

theorem clamp_of_empty (h : hi ≤ lo) : clamp lo hi x = lo :=
  max_eq_left ((min_le_right _ _).trans h)

theorem clamp_idem : clamp lo hi (clamp lo hi x) = clamp lo hi x := by
  rcases le_total lo hi with h | h
  · exact clamp_of_mem le_clamp (clamp_le h)
  · rw [clamp_of_empty h, clamp_of_empty h]

theorem clamp_le_iff : clamp lo hi x ≤ a ↔ lo ≤ a ∧ (x ≤ a ∨ hi ≤ a) := by
  rw [clamp, max_le_iff, min_le_iff]

theorem le_clamp_iff : a ≤ clamp lo hi x ↔ a ≤ lo ∨ a ≤ x ∧ a ≤ hi := by
  rw [clamp, le_max_iff, le_min_iff]

theorem clamp_mono (hlo : lo ≤ lo') (hhi : hi ≤ hi') {x' : α} (h : x ≤ x') :
    clamp lo hi x ≤ clamp lo' hi' x' :=
  max_le_max hlo (min_le_min h hhi)

/-- A point below one of the interval is not moved down. -/
theorem le_clamp_of_le (ha : a ≤ hi) (h : x ≤ a) : x ≤ clamp lo hi x :=
  le_clamp_iff.mpr (.inr ⟨le_rfl, h.trans ha⟩)

/-- A point above one of the interval is not moved up. -/
theorem clamp_le_of_le (ha : lo ≤ a) (h : a ≤ x) : clamp lo hi x ≤ x :=
  clamp_le_iff.mpr ⟨ha.trans h, .inl le_rfl⟩

/-- The second clamp moves a point out of the first interval only where the intervals are
apart, and then it takes every point of the first interval to the same end. -/
theorem clamp_clamp_idem :
    clamp lo hi (clamp lo' hi' (clamp lo hi (clamp lo' hi' x))) =
      clamp lo hi (clamp lo' hi' x) := by
  rcases le_total hi lo with hempty | h
  · rw [clamp_of_empty hempty, clamp_of_empty hempty]
  rcases le_total hi' lo' with hempty | h'
  · rw [clamp_of_empty hempty, clamp_of_empty hempty]
  have hge : lo' ≤ clamp lo' hi' x := le_clamp
  have hle : clamp lo' hi' x ≤ hi' := clamp_le h'
  rcases le_total (clamp lo' hi' x) lo with hbelow | hlo
  · -- the point is taken up to `lo`, and comes back there
    have hback : clamp lo' hi' lo ≤ lo := clamp_le_iff.mpr ⟨hge.trans hbelow, .inl le_rfl⟩
    rw [clamp_of_le hbelow, clamp_of_le hback]
  rcases le_total (clamp lo' hi' x) hi with hhi | habove
  · rw [clamp_of_mem hlo hhi, clamp_idem, clamp_of_mem hlo hhi]
  · -- the point is taken down to `hi`, and comes back there
    have hback : hi ≤ clamp lo' hi' hi :=
      le_max_of_le_right (le_min le_rfl (habove.trans hle))
    rw [clamp_of_ge h habove, clamp_of_ge h hback]

end Clamp
