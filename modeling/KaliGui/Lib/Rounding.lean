/-
Numbers rounded to whole ones, once and step by step.

* `trunc_of_nonneg`, `nonneg_of_trunc_pos` — rounding towards zero, where it is rounding
  down;
* `floor_div_of_eq` — how often a unit goes into a length;
* `sum_floor_add_sum_fract` — what is lost when every summand is rounded down by itself;
* `strides`, `strides_sum` — a way from place to place, scaled, and its length.
-/
import Mathlib.Algebra.Order.Floor.Ring
import Mathlib.Algebra.Order.BigOperators.Group.List
import Mathlib.Data.Rat.Floor
import Mathlib.Tactic.Ring

namespace Rounding

/-! ### Towards zero -/

theorem trunc_of_nonneg {q : ℚ} (h : 0 ≤ q) : q.num.tdiv q.den = ⌊q⌋ := by
  have hnum : 0 ≤ q.num := Rat.num_nonneg.mpr h
  rw [Int.tdiv_eq_ediv_of_nonneg hnum, Rat.floor_def']

theorem nonneg_of_trunc_pos {q : ℚ} (h : 0 < q.num.tdiv q.den) : 0 ≤ q := by
  by_contra hneg
  have hnum : q.num < 0 := Rat.num_neg.mpr (not_le.mp hneg)
  have hle : q.num.tdiv q.den ≤ 0 := by
    have hflip : 0 ≤ (-q.num).tdiv q.den := Int.tdiv_nonneg (by omega) (Int.natCast_nonneg _)
    rw [Int.neg_tdiv] at hflip
    omega
  omega

/-! ### Whole units -/

variable {K : Type*} [Field K] [LinearOrder K] [FloorRing K]

/-- A length of `n` units, and less than one more. -/
theorem floor_div_of_eq [IsStrictOrderedRing K] {unit length rest : K} {n : ℕ} (hunit : 0 < unit)
    (h : length = n * unit + rest) (hrest : 0 ≤ rest) (hless : rest < unit) :
    ⌊length / unit⌋₊ = n := by
  have hlength : length / unit = n + rest / unit := by
    rw [h, add_div, mul_div_cancel_right₀ _ hunit.ne']
  have hrest' : 0 ≤ rest / unit := div_nonneg hrest hunit.le
  have hless' : rest / unit < 1 := (div_lt_one hunit).mpr hless
  rw [hlength, Nat.floor_eq_iff (add_nonneg n.cast_nonneg hrest')]
  exact ⟨le_add_of_nonneg_right hrest', add_lt_add_right hless' _⟩

/-! ### Summand by summand -/

/-- A sum is what is left of it when every summand is rounded down, and what they lose. -/
theorem sum_floor_add_sum_fract (l : List K) :
    (((l.map Int.floor).sum : ℤ) : K) + (l.map Int.fract).sum = l.sum := by
  induction l with
  | nil => simp
  | cons x l ih =>
    have hx : (⌊x⌋ : K) + Int.fract x = x := Int.floor_add_fract x
    rw [List.map_cons, List.map_cons, List.sum_cons, List.sum_cons, List.sum_cons, Int.cast_add,
      ← ih]
    calc ((⌊x⌋ : K) + ((l.map Int.floor).sum : ℤ)) + (Int.fract x + (l.map Int.fract).sum)
        = (⌊x⌋ + Int.fract x) + ((((l.map Int.floor).sum : ℤ) : K) + (l.map Int.fract).sum) := by
          ring
      _ = _ := by rw [hx]

theorem sum_fract_nonneg [IsStrictOrderedRing K] (l : List K) : 0 ≤ (l.map Int.fract).sum := by
  refine List.sum_nonneg fun y hy => ?_
  obtain ⟨x, -, rfl⟩ := List.mem_map.mp hy
  exact Int.fract_nonneg x

/-! ### A way from place to place -/

/-- The stretches of a way that starts at `p`, in a unit that `view` of the places make
`frame` of. -/
def strides (view frame : K) : K → List K → List K
  | _, [] => []
  | p, q :: qs => (q - p) / view * frame :: strides view frame q qs

omit [LinearOrder K] [FloorRing K] in
/-- Together the stretches lead from the first place to the last. -/
theorem strides_sum (view frame p : K) (qs : List K) :
    (strides view frame p qs).sum = (qs.getLastD p - p) / view * frame := by
  induction qs generalizing p with
  | nil => simp [strides]
  | cons q qs ih =>
    rw [strides, List.sum_cons, ih, List.getLastD_cons]
    ring

end Rounding
