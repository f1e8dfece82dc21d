/-
Numbered things, each in exactly one place until it is finished.

`holds a x` says that `x` is in the place `a`; `of t` is the thing with the number `t`.

* `Accounted` — of the numbers given out, each is in one place or finished, and there
  is nothing else in any place;
* `Accounted.move`, `.finish`, `.issue` — what the changes of a step keep;
* `Accounted.unique` — one place, and no other;
* `length_le_of_places` — no more things than places.
-/
import Mathlib.Data.List.Nodup
import Mathlib.Data.List.Perm.Subperm
import Mathlib.Data.Nat.Notation
import Mathlib.Logic.Function.Basic

namespace Tokens

variable {P X : Type*}

/-- `place` says where each number is, if it is anywhere. -/
structure Placed (of : ℕ → X) (holds : P → X → Prop) (issued : ℕ) (finished : ℕ → Prop)
    (place : ℕ → Option P) : Prop where
  held : ∀ t a, place t = some a → holds a (of t)
  owner : ∀ a x, holds a x → ∃ t, x = of t ∧ place t = some a
  isSome_iff : ∀ t, (place t).isSome ↔ t < issued ∧ ¬ finished t

def Accounted (of : ℕ → X) (holds : P → X → Prop) (issued : ℕ) (finished : ℕ → Prop) : Prop :=
  ∃ place, Placed of holds issued finished place

variable {of : ℕ → X} {holds holds' : P → X → Prop} {issued : ℕ} {finished finished' : ℕ → Prop}
  {t : ℕ} {a b : P} {x : X}

theorem Accounted.congr (h : Accounted of holds issued finished)
    (hholds : ∀ a x, holds' a x ↔ holds a x) (hfinished : ∀ t, finished' t ↔ finished t) :
    Accounted of holds' issued finished' := by
  obtain ⟨place, hplace⟩ := h
  exact ⟨place, fun t a ht => (hholds a _).mpr (hplace.held t a ht),
    fun a x hx => hplace.owner a x ((hholds a x).mp hx),
    fun t => by rw [hplace.isSome_iff, hfinished]⟩

/-- What is in a place has a number, and is not finished. -/
theorem Accounted.owner (h : Accounted of holds issued finished) (hx : holds a x) :
    ∃ t, x = of t ∧ t < issued ∧ ¬ finished t := by
  obtain ⟨place, hplace⟩ := h
  obtain ⟨t, rfl, ht⟩ := hplace.owner a x hx
  exact ⟨t, rfl, (hplace.isSome_iff t).mp (ht ▸ rfl)⟩

/-- A number that was given out is finished, or in one place alone. -/
theorem Accounted.unique (hof : Function.Injective of) (h : Accounted of holds issued finished)
    (ht : t < issued) (hfinished : ¬ finished t) :
    ∃ a, holds a (of t) ∧ ∀ b, holds b (of t) → b = a := by
  obtain ⟨place, hplace⟩ := h
  obtain ⟨a, ha⟩ := Option.isSome_iff_exists.mp ((hplace.isSome_iff t).mpr ⟨ht, hfinished⟩)
  refine ⟨a, hplace.held t a ha, fun b hb => ?_⟩
  obtain ⟨u, hu, hub⟩ := hplace.owner b _ hb
  rw [← hof hu, ha] at hub
  exact (Option.some_inj.mp hub).symm

/-- A place holds one thing, so there are no more things than places. -/
theorem length_le_of_places (hfun : ∀ a x y, holds a x → holds a y → x = y) {xs : List X}
    (hnodup : xs.Nodup) {places : List P} (hheld : ∀ x ∈ xs, ∃ a ∈ places, holds a x) :
    xs.length ≤ places.length := by
  by_cases hxs : xs = []
  · rw [hxs]
    exact Nat.zero_le _
  obtain ⟨x, hx⟩ := List.exists_mem_of_ne_nil xs hxs
  have : Nonempty P := ⟨(hheld x hx).choose⟩
  choose! place hmem hholds using hheld
  have hdistinct : (xs.map place).Nodup := by
    refine List.Nodup.map_on (fun x hx y hy heq => ?_) hnodup
    exact hfun (place x) x y (hholds x hx) (heq ▸ hholds y hy)
  have hsub : xs.map place ⊆ places := by
    intro a ha
    obtain ⟨x, hx, rfl⟩ := List.mem_map.mp ha
    exact hmem x hx
  rw [← List.length_map place]
  exact (List.subperm_of_subset hdistinct hsub).length_le

/-! ### Steps -/

/-- Two numbers are not in one place, if a place holds one thing. -/
theorem Placed.inj {place : ℕ → Option P} (h : Placed of holds issued finished place)
    (hof : Function.Injective of) (hfun : ∀ x y, holds a x → holds a y → x = y) {u : ℕ}
    (ht : place t = some a) (hu : place u = some a) : t = u :=
  hof (hfun _ _ (h.held t a ht) (h.held u a hu))

/-- What is in a place goes to one that was empty. -/
theorem Accounted.move (h : Accounted of holds issued finished) (hof : Function.Injective of)
    (hfun : ∀ a x y, holds a x → holds a y → x = y) (ha : holds a x) (hb : ∀ y, ¬ holds b y)
    (ha' : ∀ y, ¬ holds' a y) (hb' : ∀ y, holds' b y ↔ y = x)
    (hrest : ∀ c, c ≠ a → c ≠ b → ∀ y, holds' c y ↔ holds c y) :
    Accounted of holds' issued finished := by
  obtain ⟨place, hplace⟩ := h
  obtain ⟨t, rfl, ht⟩ := hplace.owner a x ha
  refine ⟨Function.update place t (some b), fun u c hu => ?_, fun c y hy => ?_, fun u => ?_⟩
  · by_cases hut : u = t
    · subst hut
      rw [Function.update_self] at hu
      exact Option.some_inj.mp hu ▸ (hb' _).mpr rfl
    · rw [Function.update_of_ne hut] at hu
      have hheld := hplace.held u c hu
      refine (hrest c ?_ ?_ _).mpr hheld
      · rintro rfl
        exact hut (hplace.inj hof (hfun c) hu ht)
      · rintro rfl
        exact hb _ hheld
  · by_cases hcb : c = b
    · subst hcb
      exact ⟨t, (hb' y).mp hy, Function.update_self ..⟩
    · have hca : c ≠ a := by
        rintro rfl
        exact ha' y hy
      obtain ⟨u, rfl, hu⟩ := hplace.owner c y ((hrest c hca hcb y).mp hy)
      refine ⟨u, rfl, ?_⟩
      rw [Function.update_of_ne, hu]
      rintro rfl
      exact hca (Option.some_inj.mp (hu.symm.trans ht))
  · by_cases hut : u = t
    · subst hut
      rw [Function.update_self, ← hplace.isSome_iff, ht]
      rfl
    · rw [Function.update_of_ne hut]
      exact hplace.isSome_iff u

/-- What is in a place is finished, and gone from there. -/
theorem Accounted.finish (h : Accounted of holds issued finished) (hof : Function.Injective of)
    (hfun : ∀ a x y, holds a x → holds a y → x = y) (ha : holds a (of t))
    (ha' : ∀ y, ¬ holds' a y) (hrest : ∀ c, c ≠ a → ∀ y, holds' c y ↔ holds c y)
    (hfinished : ∀ u, finished' u ↔ finished u ∨ u = t) :
    Accounted of holds' issued finished' := by
  obtain ⟨place, hplace⟩ := h
  have ht : place t = some a := by
    obtain ⟨u, hu, hua⟩ := hplace.owner a _ ha
    rwa [hof hu]
  refine ⟨Function.update place t none, fun u c hu => ?_, fun c y hy => ?_, fun u => ?_⟩
  · by_cases hut : u = t
    · rw [hut, Function.update_self] at hu
      simp at hu
    · rw [Function.update_of_ne hut] at hu
      refine (hrest c ?_ _).mpr (hplace.held u c hu)
      rintro rfl
      exact hut (hplace.inj hof (hfun c) hu ht)
  · have hca : c ≠ a := by
      rintro rfl
      exact ha' y hy
    obtain ⟨u, rfl, hu⟩ := hplace.owner c y ((hrest c hca y).mp hy)
    refine ⟨u, rfl, ?_⟩
    rw [Function.update_of_ne, hu]
    rintro rfl
    exact hca (Option.some_inj.mp (hu.symm.trans ht))
  · by_cases hut : u = t
    · rw [hut, Function.update_self, hfinished]
      simp
    · rw [Function.update_of_ne hut, hplace.isSome_iff, hfinished]
      simp [hut]

/-- The next number is given out, to a place that was empty. -/
theorem Accounted.issue (h : Accounted of holds issued finished)
    (hnew : ¬ finished issued) (hb : ∀ y, ¬ holds b y)
    (hb' : ∀ y, holds' b y ↔ y = of issued) (hrest : ∀ c, c ≠ b → ∀ y, holds' c y ↔ holds c y) :
    Accounted of holds' (issued + 1) finished := by
  obtain ⟨place, hplace⟩ := h
  have hout : place issued = none := by
    rw [← Option.not_isSome_iff_eq_none, hplace.isSome_iff]
    exact fun hlt => absurd hlt.1 (Nat.lt_irrefl _)
  refine ⟨Function.update place issued (some b), fun u c hu => ?_, fun c y hy => ?_, fun u => ?_⟩
  · by_cases hut : u = issued
    · subst hut
      rw [Function.update_self] at hu
      exact Option.some_inj.mp hu ▸ (hb' _).mpr rfl
    · rw [Function.update_of_ne hut] at hu
      have hheld := hplace.held u c hu
      refine (hrest c ?_ _).mpr hheld
      rintro rfl
      exact hb _ hheld
  · by_cases hcb : c = b
    · subst hcb
      exact ⟨issued, (hb' y).mp hy, Function.update_self ..⟩
    · obtain ⟨u, rfl, hu⟩ := hplace.owner c y ((hrest c hcb y).mp hy)
      refine ⟨u, rfl, ?_⟩
      rw [Function.update_of_ne, hu]
      rintro rfl
      rw [hout] at hu
      simp at hu
  · by_cases hut : u = issued
    · rw [hut, Function.update_self]
      simp [hnew]
    · rw [Function.update_of_ne hut, hplace.isSome_iff]
      have hlt : u < issued ↔ u < issued + 1 := by omega
      rw [hlt]

end Tokens
