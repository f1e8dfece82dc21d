/-
Pictures handed from a writer to a reader through two slots.

The writer fills the slots in turn, cell by cell, and shows each when it is full; the reader
takes the slot that is shown and copies it, cell by cell.  Nothing keeps the writer from a
slot that is being copied.

* `step` — what the two do, in any order;
* `Overtaken` — a picture was shown since the reader took the one it copies;
* `Paced` — no picture is begun then;
* `Inv`, `inv_step` — if a run is paced, no slot changes while it is copied;
* `paced_iff_apart` — and only then;
* `Inv.copy_eq` — every copy is the picture that was shown last when it was begun.
-/
import KaliGui.Lib.Run

namespace DoubleBuffer

open Machine

variable {n : ℕ} {T : Type*}

structure Writing (n : ℕ) (T : Type*) where
  slot : Bool
  picture : Fin n → T
  /-- the cells that are written -/
  done : ℕ

structure Reading (n : ℕ) (T : Type*) where
  slot : Bool
  /-- the picture that was shown last when the slot was taken -/
  picture : Fin n → T
  /-- the cells that are copied -/
  done : ℕ

structure State (n : ℕ) (T : Type*) where
  slots : Bool → Fin n → T
  /-- the slot that is filled next -/
  turn : Bool
  writing : Option (Writing n T) := none
  shown : Option Bool := none
  reading : Option (Reading n T) := none
  /-- what the reader has, from copies before and the one under way -/
  copy : Fin n → T
  /-- the pictures that were shown, the last one first -/
  pictures : List (Fin n → T) := []
  /-- the last of them has not been taken -/
  late : Bool := false

inductive Act (n : ℕ) (T : Type*)
  | start (picture : Fin n → T)
  | write
  | publish
  | take
  | copy
  | finish

def step (s : State n T) : Act n T → Option (State n T)
  | .start picture =>
    if s.writing.isNone then
      some { s with writing := some ⟨s.turn, picture, 0⟩, turn := !s.turn }
    else none
  | .write => s.writing.bind fun w =>
    if h : w.done < n then
      some { s with
        slots := Function.update s.slots w.slot
          (Function.update (s.slots w.slot) ⟨w.done, h⟩ (w.picture ⟨w.done, h⟩))
        writing := some { w with done := w.done + 1 } }
    else none
  | .publish => s.writing.bind fun w =>
    if w.done = n then
      some { s with
        writing := none, shown := some w.slot, pictures := w.picture :: s.pictures, late := true }
    else none
  | .take => s.shown.bind fun slot =>
    if s.reading.isNone then
      some { s with reading := some ⟨slot, s.pictures.head?.getD s.copy, 0⟩, late := false }
    else none
  | .copy => s.reading.bind fun r =>
    if h : r.done < n then
      some { s with
        copy := Function.update s.copy ⟨r.done, h⟩ (s.slots r.slot ⟨r.done, h⟩)
        reading := some { r with done := r.done + 1 } }
    else none
  | .finish => s.reading.bind fun r =>
    if r.done = n then some { s with reading := none } else none

/-- A picture was shown since the reader took the slot that it copies. -/
def Overtaken (s : State n T) : Prop := s.reading.isSome = true ∧ s.late = true

instance (s : State n T) : Decidable (Overtaken s) := inferInstanceAs (Decidable (_ ∧ _))

/-- No picture is begun while the reader is overtaken. -/
def Paced (s : State n T) : Act n T → Prop
  | .start _ => ¬Overtaken s
  | _ => True

/-- The slot that is copied is not the one that is written. -/
def Apart (s : State n T) : Prop :=
  ∀ r w, s.reading = some r → s.writing = some w → r.slot ≠ w.slot

/-- What holds in every state of a run that is paced. -/
structure Inv (s : State n T) : Prop where
  shown_idle : ∀ k, s.writing = none → s.shown = some k → k = !s.turn
  writing : ∀ w, s.writing = some w → w.slot = !s.turn
  shown_writing : ∀ w k, s.writing = some w → s.shown = some k → k ≠ w.slot
  written : ∀ w, s.writing = some w → ∀ i : Fin n, i.val < w.done → s.slots w.slot i = w.picture i
  picture : s.pictures.head? = s.shown.map s.slots
  apart : Apart s
  /-- the turn of a slot comes again when the reader of it is overtaken -/
  overtaken : ∀ r, s.reading = some r → s.late = true → s.writing = none → r.slot = s.turn
  source : ∀ r, s.reading = some r → s.slots r.slot = r.picture ∧ r.picture ∈ s.pictures
  copied : ∀ r, s.reading = some r → ∀ i : Fin n, i.val < r.done → s.copy i = r.picture i
  fresh : ∀ r, s.reading = some r → s.late = false → s.shown = some r.slot
  idle : s.reading = none → s.late = false → ∀ picture ∈ s.pictures.head?, s.copy = picture
  late : s.late = true → s.shown.isSome = true

variable {s s' : State n T} {a : Act n T}

/-! ### What a step does -/

theorem step_start {picture : Fin n → T} (hs : step s (.start picture) = some s') :
    s.writing = none ∧
      { s with writing := some ⟨s.turn, picture, 0⟩, turn := !s.turn } = s' := by
  obtain ⟨hidle, heq⟩ := enabled_eq_some.mp hs
  exact ⟨Option.isNone_iff_eq_none.mp hidle, heq⟩

theorem step_write (hs : step s .write = some s') :
    ∃ w, ∃ hdone : w.done < n, s.writing = some w ∧
      { s with
        slots := Function.update s.slots w.slot
          (Function.update (s.slots w.slot) ⟨w.done, hdone⟩ (w.picture ⟨w.done, hdone⟩))
        writing := some { w with done := w.done + 1 } } = s' := by
  obtain ⟨w, hw, hs⟩ := Option.bind_eq_some_iff.mp hs
  obtain ⟨hdone, heq⟩ := Option.dite_none_right_eq_some.mp hs
  exact ⟨w, hdone, hw, Option.some_inj.mp heq⟩

theorem step_publish (hs : step s .publish = some s') :
    ∃ w, s.writing = some w ∧ w.done = n ∧
      { s with
        writing := none, shown := some w.slot, pictures := w.picture :: s.pictures
        late := true } = s' := by
  obtain ⟨w, hw, hs⟩ := Option.bind_eq_some_iff.mp hs
  exact ⟨w, hw, enabled_eq_some.mp hs⟩

theorem step_take (hs : step s .take = some s') :
    ∃ slot, s.shown = some slot ∧
      { s with
        reading := some ⟨slot, s.pictures.head?.getD s.copy, 0⟩, late := false } = s' := by
  obtain ⟨slot, hslot, hs⟩ := Option.bind_eq_some_iff.mp hs
  exact ⟨slot, hslot, (enabled_eq_some.mp hs).2⟩

theorem step_copy (hs : step s .copy = some s') :
    ∃ r, ∃ hdone : r.done < n, s.reading = some r ∧
      { s with
        copy := Function.update s.copy ⟨r.done, hdone⟩ (s.slots r.slot ⟨r.done, hdone⟩)
        reading := some { r with done := r.done + 1 } } = s' := by
  obtain ⟨r, hr, hs⟩ := Option.bind_eq_some_iff.mp hs
  obtain ⟨hdone, heq⟩ := Option.dite_none_right_eq_some.mp hs
  exact ⟨r, hdone, hr, Option.some_inj.mp heq⟩

theorem step_finish (hs : step s .finish = some s') :
    ∃ r, s.reading = some r ∧ r.done = n ∧ { s with reading := none } = s' := by
  obtain ⟨r, hr, hs⟩ := Option.bind_eq_some_iff.mp hs
  exact ⟨r, hr, enabled_eq_some.mp hs⟩

/-- Nothing is taken only if nothing was shown yet. -/
theorem shown_of_take (hidle : s.reading = none) (hs : step s .take = none) : s.shown = none := by
  cases hshown : s.shown with
  | none => rfl
  | some slot =>
    have hsome : step s .take = some { s with
        reading := some ⟨slot, s.pictures.head?.getD s.copy, 0⟩, late := false } := by
      rw [step, hshown, Option.bind_some, hidle]
      rfl
    rw [hsome] at hs
    exact absurd hs (Option.some_ne_none _)

/-! ### What holds in every state -/

theorem inv_start (turn : Bool) (slots : Bool → Fin n → T) (copy : Fin n → T) :
    Inv { slots, turn, copy } where
  shown_idle _ _ h := absurd h.symm (Option.some_ne_none _)
  writing _ h := absurd h.symm (Option.some_ne_none _)
  shown_writing _ _ h := absurd h.symm (Option.some_ne_none _)
  written _ h := absurd h.symm (Option.some_ne_none _)
  picture := rfl
  apart _ _ h := absurd h.symm (Option.some_ne_none _)
  overtaken _ h := absurd h.symm (Option.some_ne_none _)
  source _ h := absurd h.symm (Option.some_ne_none _)
  copied _ h := absurd h.symm (Option.some_ne_none _)
  fresh _ h := absurd h.symm (Option.some_ne_none _)
  idle _ _ _ h := absurd h.symm (Option.some_ne_none _)
  late h := absurd h Bool.false_ne_true

theorem not_ne_self (b : Bool) : (!b) ≠ b := by
  cases b <;> decide

/-- The slot that is written next is not the one that is copied, unless the reader is
overtaken. -/
theorem Inv.slot_ne_turn (h : Inv s) (hidle : s.writing = none) (hpaced : ¬Overtaken s)
    {r : Reading n T} (hr : s.reading = some r) : r.slot ≠ s.turn := by
  have hlate : s.late = false := by
    rw [← Bool.not_eq_true]
    exact fun hlate => hpaced ⟨by rw [hr]; rfl, hlate⟩
  rw [h.shown_idle r.slot hidle (h.fresh r hr hlate)]
  exact not_ne_self s.turn

theorem Inv.start (h : Inv s) (hidle : s.writing = none) (hpaced : ¬Overtaken s)
    (picture : Fin n → T) :
    Inv { s with writing := some ⟨s.turn, picture, 0⟩, turn := !s.turn } where
  shown_idle _ hnone := absurd hnone (Option.some_ne_none _)
  writing w hw := by
    rw [← Option.some_inj.mp hw]
    exact (Bool.not_not s.turn).symm
  shown_writing w k hw hk := by
    rw [← Option.some_inj.mp hw, h.shown_idle k hidle hk]
    exact not_ne_self s.turn
  written w hw i hi := by
    rw [← Option.some_inj.mp hw] at hi
    exact absurd hi (Nat.not_lt_zero _)
  picture := h.picture
  apart r w hr hw := by
    rw [← Option.some_inj.mp hw]
    exact h.slot_ne_turn hidle hpaced hr
  overtaken _ _ _ hnone := absurd hnone (Option.some_ne_none _)
  source := h.source
  copied := h.copied
  fresh := h.fresh
  idle := h.idle
  late := h.late

theorem Inv.write (h : Inv s) {w : Writing n T} (hw : s.writing = some w) (hdone : w.done < n) :
    Inv { s with
      slots := Function.update s.slots w.slot
        (Function.update (s.slots w.slot) ⟨w.done, hdone⟩ (w.picture ⟨w.done, hdone⟩))
      writing := some { w with done := w.done + 1 } } where
  shown_idle _ hnone := absurd hnone (Option.some_ne_none _)
  writing w' hw' := by
    rw [← Option.some_inj.mp hw']
    exact h.writing w hw
  shown_writing w' k hw' hk := by
    rw [← Option.some_inj.mp hw']
    exact h.shown_writing w k hw hk
  written w' hw' i hi := by
    rw [← Option.some_inj.mp hw'] at hi ⊢
    dsimp only
    rw [Function.update_self]
    by_cases heq : i = ⟨w.done, hdone⟩
    · rw [heq, Function.update_self]
    · rw [Function.update_of_ne heq]
      have hne : i.val ≠ w.done := fun hval => heq (Fin.ext hval)
      have hlt : i.val < w.done + 1 := hi
      exact h.written w hw i (by omega)
  picture := by
    refine h.picture.trans ?_
    cases hk : s.shown with
    | none => rfl
    | some k =>
      refine congrArg some ?_
      exact (Function.update_of_ne (h.shown_writing w k hw hk) ..).symm
  apart r w' hr hw' := by
    rw [← Option.some_inj.mp hw']
    exact h.apart r w hr hw
  overtaken _ _ _ hnone := absurd hnone (Option.some_ne_none _)
  source r hr := by
    dsimp only
    rw [Function.update_of_ne (h.apart r w hr hw)]
    exact h.source r hr
  copied := h.copied
  fresh := h.fresh
  idle := h.idle
  late := h.late

theorem Inv.publish (h : Inv s) {w : Writing n T} (hw : s.writing = some w) (hdone : w.done = n) :
    Inv { s with
      writing := none, shown := some w.slot, pictures := w.picture :: s.pictures
      late := true } where
  shown_idle k _ hk := by
    rw [← Option.some_inj.mp hk]
    exact h.writing w hw
  writing _ hnone := absurd hnone.symm (Option.some_ne_none _)
  shown_writing _ _ hnone := absurd hnone.symm (Option.some_ne_none _)
  written _ hnone := absurd hnone.symm (Option.some_ne_none _)
  picture := by
    refine congrArg some (funext fun i => ?_)
    exact (h.written w hw i (by omega)).symm
  apart _ _ _ hnone := absurd hnone.symm (Option.some_ne_none _)
  overtaken r hr _ _ := by
    have hne := h.apart r w hr hw
    rw [h.writing w hw] at hne
    exact Bool.not_eq_not.mp hne
  source r hr := ⟨(h.source r hr).1, List.mem_cons_of_mem _ (h.source r hr).2⟩
  copied := h.copied
  fresh _ _ hlate := absurd hlate.symm Bool.false_ne_true
  idle _ hlate := absurd hlate.symm Bool.false_ne_true
  late _ := rfl

theorem Inv.take (h : Inv s) {slot : Bool} (hshown : s.shown = some slot) :
    Inv { s with
      reading := some ⟨slot, s.pictures.head?.getD s.copy, 0⟩, late := false } where
  shown_idle := h.shown_idle
  writing := h.writing
  shown_writing := h.shown_writing
  written := h.written
  picture := h.picture
  apart r w hr hw := by
    rw [← Option.some_inj.mp hr]
    exact h.shown_writing w slot hw hshown
  overtaken _ _ hlate := absurd hlate Bool.false_ne_true
  source r hr := by
    rw [← Option.some_inj.mp hr]
    have hhead : s.pictures.head? = some (s.slots slot) := by
      rw [h.picture, hshown, Option.map_some]
    dsimp only
    rw [hhead, Option.getD_some]
    exact ⟨rfl, List.mem_of_head? hhead⟩
  copied r hr i hi := by
    rw [← Option.some_inj.mp hr] at hi
    exact absurd hi (Nat.not_lt_zero _)
  fresh r hr _ := by
    rw [← Option.some_inj.mp hr]
    exact hshown
  idle hnone := absurd hnone (Option.some_ne_none _)
  late hlate := absurd hlate Bool.false_ne_true

theorem Inv.copy (h : Inv s) {r : Reading n T} (hr : s.reading = some r) (hdone : r.done < n) :
    Inv { s with
      copy := Function.update s.copy ⟨r.done, hdone⟩ (s.slots r.slot ⟨r.done, hdone⟩)
      reading := some { r with done := r.done + 1 } } where
  shown_idle := h.shown_idle
  writing := h.writing
  shown_writing := h.shown_writing
  written := h.written
  picture := h.picture
  apart r' w hr' hw := by
    rw [← Option.some_inj.mp hr']
    exact h.apart r w hr hw
  overtaken r' hr' hlate hidle := by
    rw [← Option.some_inj.mp hr']
    exact h.overtaken r hr hlate hidle
  source r' hr' := by
    rw [← Option.some_inj.mp hr']
    exact h.source r hr
  copied r' hr' i hi := by
    rw [← Option.some_inj.mp hr'] at hi ⊢
    dsimp only
    by_cases heq : i = ⟨r.done, hdone⟩
    · rw [heq, Function.update_self, (h.source r hr).1]
    · rw [Function.update_of_ne heq]
      have hne : i.val ≠ r.done := fun hval => heq (Fin.ext hval)
      have hlt : i.val < r.done + 1 := hi
      exact h.copied r hr i (by omega)
  fresh r' hr' hlate := by
    rw [← Option.some_inj.mp hr']
    exact h.fresh r hr hlate
  idle hnone := absurd hnone (Option.some_ne_none _)
  late := h.late

/-- A copy that is complete is the picture that was shown last when it was begun. -/
theorem Inv.copy_eq (h : Inv s) {r : Reading n T} (hr : s.reading = some r) (hdone : r.done = n) :
    s.copy = r.picture ∧ r.picture ∈ s.pictures := by
  refine ⟨funext fun i => ?_, (h.source r hr).2⟩
  exact h.copied r hr i (by omega)

theorem Inv.finish (h : Inv s) {r : Reading n T} (hr : s.reading = some r) (hdone : r.done = n) :
    Inv { s with reading := none } where
  shown_idle := h.shown_idle
  writing := h.writing
  shown_writing := h.shown_writing
  written := h.written
  picture := h.picture
  apart _ _ hnone := absurd hnone.symm (Option.some_ne_none _)
  overtaken _ hnone := absurd hnone.symm (Option.some_ne_none _)
  source _ hnone := absurd hnone.symm (Option.some_ne_none _)
  copied _ hnone := absurd hnone.symm (Option.some_ne_none _)
  fresh _ hnone := absurd hnone.symm (Option.some_ne_none _)
  idle _ hlate picture hhead := by
    have hsource := h.picture
    rw [h.fresh r hr hlate, Option.map_some, (h.source r hr).1] at hsource
    rw [hsource, Option.mem_some_iff] at hhead
    rw [← hhead]
    exact (h.copy_eq hr hdone).1
  late := h.late

theorem inv_step (h : Inv s) (hpaced : Paced s a) (hs : step s a = some s') : Inv s' := by
  cases a with
  | start picture =>
    obtain ⟨hidle, rfl⟩ := step_start hs
    exact h.start hidle hpaced picture
  | write =>
    obtain ⟨w, hdone, hw, rfl⟩ := step_write hs
    exact h.write hw hdone
  | publish =>
    obtain ⟨w, hw, hdone, rfl⟩ := step_publish hs
    exact h.publish hw hdone
  | take =>
    obtain ⟨slot, hslot, rfl⟩ := step_take hs
    exact h.take hslot
  | copy =>
    obtain ⟨r, hdone, hr, rfl⟩ := step_copy hs
    exact h.copy hr hdone
  | finish =>
    obtain ⟨r, hr, hdone, rfl⟩ := step_finish hs
    exact h.finish hr hdone

/-- The steps that are not paced are those by which the writer comes to the slot that is
copied. -/
theorem paced_iff_apart (h : Inv s) (hs : step s a = some s') : Paced s a ↔ Apart s' := by
  refine ⟨fun hpaced => (inv_step h hpaced hs).apart, fun hapart => ?_⟩
  cases a with
  | start picture =>
    rintro ⟨hreading, hlate⟩
    obtain ⟨r, hr⟩ := Option.isSome_iff_exists.mp hreading
    obtain ⟨hidle, rfl⟩ := step_start hs
    exact hapart r _ hr rfl (h.overtaken r hr hlate hidle)
  | write => trivial
  | publish => trivial
  | take => trivial
  | copy => trivial
  | finish => trivial

end DoubleBuffer
