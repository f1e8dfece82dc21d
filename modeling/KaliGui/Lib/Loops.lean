/-
Loops that are given fuel.

A loop that may go round any number of times is a function of the turns it is allowed; it is
`none` where they run out.

* `IsWhile` — the function is `while test do body`;
* `IsWhile.induction` — what relates the end of a loop to its start, from the last turn to
  the first;
* `IsWhile.total` — a loop ends if every turn takes the same amount off a measure.
-/
import Mathlib.Algebra.Order.Archimedean.Basic

namespace Loops

variable {σ : Type*} {loop : ℕ → σ → Option σ} {test : σ → Bool} {body : σ → σ}

/-- `while test do body`, for at most so many turns. -/
structure IsWhile (loop : ℕ → σ → Option σ) (test : σ → Bool) (body : σ → σ) : Prop where
  stops : ∀ s fuel, test s = false → loop fuel s = some s
  runsOut : ∀ s, test s = true → loop 0 s = none
  turns : ∀ s fuel, test s = true → loop (fuel + 1) s = loop fuel (body s)

theorem IsWhile.induction (h : IsWhile loop test body) {R : σ → σ → Prop}
    (hstop : ∀ s, test s = false → R s s)
    (hturn : ∀ s s', test s = true → R (body s) s' → R s s') {fuel : ℕ} {s s' : σ}
    (hloop : loop fuel s = some s') : R s s' := by
  induction fuel generalizing s with
  | zero =>
    cases htest : test s with
    | true =>
      rw [h.runsOut s htest] at hloop
      cases hloop
    | false =>
      rw [h.stops s 0 htest] at hloop
      obtain rfl := Option.some_inj.mp hloop
      exact hstop s htest
  | succ fuel ih =>
    cases htest : test s with
    | true =>
      rw [h.turns s fuel htest] at hloop
      exact hturn s s' htest (ih hloop)
    | false =>
      rw [h.stops s (fuel + 1) htest] at hloop
      obtain rfl := Option.some_inj.mp hloop
      exact hstop s htest

/-- The loop ends, however many more turns it is allowed than it needs. -/
theorem IsWhile.total {K : Type*} [AddCommGroup K] [LinearOrder K] [IsOrderedAddMonoid K]
    [Archimedean K] (h : IsWhile loop test body) (measure : σ → K) {unit : K} (hunit : 0 < unit)
    (htest : ∀ s, test s = true → unit ≤ measure s)
    (hbody : ∀ s, test s = true → measure (body s) = measure s - unit) (s : σ) :
    ∃ (N : ℕ) (s' : σ), ∀ n, N ≤ n → loop n s = some s' := by
  -- by induction on a bound for the turns
  have hbounded : ∀ (k : ℕ) (s : σ), measure s < (k + 1) • unit →
      ∃ s', ∀ n, k ≤ n → loop n s = some s' := by
    intro k
    induction k with
    | zero =>
      intro s hlt
      rw [Nat.zero_add, one_nsmul] at hlt
      have hfalse : test s = false := by
        by_contra htrue
        exact absurd (htest s (Bool.eq_true_of_not_eq_false htrue)) (not_le.mpr hlt)
      exact ⟨s, fun n _ => h.stops s n hfalse⟩
    | succ k ih =>
      intro s hlt
      cases hs : test s with
      | false => exact ⟨s, fun n _ => h.stops s n hs⟩
      | true =>
        have hnext : measure (body s) < (k + 1) • unit := by
          rw [hbody s hs, sub_lt_iff_lt_add, ← succ_nsmul]
          exact hlt
        obtain ⟨s', hs'⟩ := ih (body s) hnext
        refine ⟨s', fun n hn => ?_⟩
        obtain ⟨m, rfl⟩ := Nat.exists_eq_add_of_le' (Nat.le_trans (Nat.le_add_left 1 k) hn)
        rw [h.turns s m hs]
        exact hs' m (Nat.le_of_succ_le_succ hn)
  obtain ⟨k, hk⟩ := Archimedean.arch (measure s) hunit
  have hlt : measure s < (k + 1) • unit := by
    rw [succ_nsmul]
    exact lt_of_le_of_lt hk (lt_add_of_pos_right _ hunit)
  obtain ⟨s', hs'⟩ := hbounded k s hlt
  exact ⟨k, s', hs'⟩

end Loops
