/-
Latches that a stream of writes sets and clears.

A latch is on or off; a write sets one latch, and `apply` is what a stream leaves.  A stream
may be wrapped: some writes before it, their opposites after it.  Whether that leaves a latch
alone is decided by the latch itself:

* `apply_of_forall_ne`, `apply_of_const` — latches that are not written, or all one way;
* `apply_wrap_of_forall_ne`, `apply_wrap_of_const` — the same of a wrapped stream.

In a `Matched` stream every write that clears a latch finds it set.
-/
import Mathlib.Data.Nat.Notation
import Mathlib.Logic.Function.Basic

namespace Latch

/-- Set one latch on or off. -/
structure Write (ι : Type*) where
  key : ι
  on : Bool

variable {ι : Type*}

def Write.opposite (w : Write ι) : Write ι := ⟨w.key, !w.on⟩

variable [DecidableEq ι]

/-- What a stream of writes leaves. -/
def apply : List (Write ι) → (ι → Bool) → ι → Bool
  | [], f => f
  | w :: ws, f => apply ws (Function.update f w.key w.on)

/-- A stream with writes before it and their opposites after it. -/
def wrap (fakes ws : List (Write ι)) : List (Write ι) :=
  fakes ++ ws ++ fakes.map Write.opposite

@[simp] theorem apply_nil (f : ι → Bool) : apply [] f = f := rfl

theorem apply_cons (w : Write ι) (ws : List (Write ι)) (f : ι → Bool) :
    apply (w :: ws) f = apply ws (Function.update f w.key w.on) := rfl

theorem apply_append (ws vs : List (Write ι)) (f : ι → Bool) :
    apply (ws ++ vs) f = apply vs (apply ws f) := by
  induction ws generalizing f with
  | nil => rfl
  | cons w ws ih => rw [List.cons_append, apply_cons, apply_cons, ih]

/-- A latch depends on itself and on the stream. -/
theorem apply_congr (ws : List (Write ι)) {f g : ι → Bool} {i : ι} (h : f i = g i) :
    apply ws f i = apply ws g i := by
  induction ws generalizing f g with
  | nil => exact h
  | cons w ws ih =>
    refine ih ?_
    by_cases hi : i = w.key
    · rw [hi, Function.update_self, Function.update_self]
    · rw [Function.update_of_ne hi, Function.update_of_ne hi, h]

theorem apply_of_forall_ne {ws : List (Write ι)} {i : ι} (h : ∀ w ∈ ws, w.key ≠ i)
    (f : ι → Bool) : apply ws f i = f i := by
  induction ws generalizing f with
  | nil => rfl
  | cons w ws ih =>
    rw [apply_cons, ih fun v hv => h v (List.mem_cons_of_mem _ hv)]
    exact Function.update_of_ne (h w List.mem_cons_self).symm _ _

theorem apply_of_const {ws : List (Write ι)} {b : Bool} {i : ι} (hconst : ∀ w ∈ ws, w.on = b)
    (hi : ∃ w ∈ ws, w.key = i) (f : ι → Bool) : apply ws f i = b := by
  induction ws generalizing f with
  | nil =>
    obtain ⟨w, hw, -⟩ := hi
    exact absurd hw List.not_mem_nil
  | cons w ws ih =>
    rw [apply_cons]
    have hrest := fun v hv => hconst v (List.mem_cons_of_mem w hv)
    by_cases hlater : ∃ v ∈ ws, v.key = i
    · exact ih hrest hlater _
    · have hkey : w.key = i := by
        obtain ⟨v, hv, hvi⟩ := hi
        rcases List.mem_cons.mp hv with rfl | hv
        · exact hvi
        · exact absurd ⟨v, hv, hvi⟩ hlater
      rw [apply_of_forall_ne fun v hv hvi => hlater ⟨v, hv, hvi⟩, hkey, Function.update_self]
      exact hconst w List.mem_cons_self

theorem apply_wrap_of_forall_ne {fakes : List (Write ι)} {i : ι}
    (h : ∀ w ∈ fakes, w.key ≠ i) (ws : List (Write ι)) (f : ι → Bool) :
    apply (wrap fakes ws) f i = apply ws f i := by
  have hopp : ∀ w ∈ fakes.map Write.opposite, w.key ≠ i := by
    intro w hw
    obtain ⟨v, hv, rfl⟩ := List.mem_map.mp hw
    exact h v hv
  rw [wrap, apply_append, apply_append, apply_of_forall_ne hopp]
  exact apply_congr ws (apply_of_forall_ne h f)

/-- Latches that are all set one way before the stream are left the other way. -/
theorem apply_wrap_of_const {fakes : List (Write ι)} {b : Bool} {i : ι}
    (hconst : ∀ w ∈ fakes, w.on = b) (hi : ∃ w ∈ fakes, w.key = i) (ws : List (Write ι))
    (f : ι → Bool) : apply (wrap fakes ws) f i = !b := by
  rw [wrap, apply_append]
  refine apply_of_const (fun w hw => ?_) ?_ _
  · obtain ⟨v, hv, rfl⟩ := List.mem_map.mp hw
    rw [Write.opposite, hconst v hv]
  · obtain ⟨w, hw, hwi⟩ := hi
    exact ⟨w.opposite, List.mem_map_of_mem hw, hwi⟩

/-- Every latch that is cleared is set before. -/
def Matched : List (Write ι) → (ι → Bool) → Prop
  | [], _ => True
  | w :: ws, f => (w.on = false → f w.key = true) ∧ Matched ws (Function.update f w.key w.on)

theorem matched_append {ws vs : List (Write ι)} {f : ι → Bool} :
    Matched (ws ++ vs) f ↔ Matched ws f ∧ Matched vs (apply ws f) := by
  induction ws generalizing f with
  | nil => exact (and_iff_right trivial).symm
  | cons w ws ih => rw [List.cons_append, Matched, Matched, apply_cons, ih, and_assoc]

theorem matched_concat {ws : List (Write ι)} {w : Write ι} {f : ι → Bool} :
    Matched (ws ++ [w]) f ↔ Matched ws f ∧ (w.on = false → apply ws f w.key = true) := by
  rw [matched_append, Matched, Matched, and_true]

theorem apply_concat (ws : List (Write ι)) (w : Write ι) (f : ι → Bool) :
    apply (ws ++ [w]) f = Function.update (apply ws f) w.key w.on := by
  rw [apply_append, apply_cons, apply_nil]

end Latch
