/-
Runs of a partial step function.

A system is given by `step : σ → α → Option σ`: from a state, an action either
is not enabled (`none`) or leads to one next state.  Nondeterminism (scheduling,
the environment) is the choice of the action.

* `run` — the state a list of actions leads to, if all of them are enabled;
* `Meets` — every step of a run meets a condition on the state before the step
  and the action;
* `Always` — a property holds in every state of a run;
* `run_invariant` — the induction over a run whose steps all meet a condition;
* `Always.of_invariant` — and what follows from an invariant holds throughout such a run;
* `run_restrict_eq_some` — a run whose steps are tested as they are taken;
* `run_pays` — what a run costs is paid from what is left in its first state;
* `always_iff_meets` — when a condition on the single steps is exactly what
  keeps a property, it is so over whole runs;
* `run_map`, `Meets.of_map` — a system that carries more than another one, step by step;
* `outputs` — what the single steps of a run show, one after another.
-/
import Mathlib.Algebra.GroupWithZero.Nat
import Mathlib.Data.List.Basic
import Mathlib.Order.Notation

namespace Machine

variable {σ α : Type*}

/-- The state after the actions, in order; `none` if one of them is not enabled. -/
def run (step : σ → α → Option σ) : σ → List α → Option σ
  | s, [] => some s
  | s, a :: as => (step s a).bind fun s' => run step s' as

/-- Every step the run takes meets `ok`. -/
def Meets (step : σ → α → Option σ) (ok : σ → α → Prop) : σ → List α → Prop
  | _, [] => True
  | s, a :: as => ok s a ∧ ∀ s', step s a = some s' → Meets step ok s' as

/-- `P` holds in every state the run passes through, the first one included. -/
def Always (step : σ → α → Option σ) (P : σ → Prop) : σ → List α → Prop
  | s, [] => P s
  | s, a :: as => P s ∧ ∀ s', step s a = some s' → Always step P s' as

variable {step : σ → α → Option σ} {ok : σ → α → Prop} {P I : σ → Prop}

@[simp] theorem run_nil (s : σ) : run step s [] = some s := rfl

theorem run_cons (s : σ) (a : α) (as : List α) :
    run step s (a :: as) = (step s a).bind fun s' => run step s' as := rfl

theorem run_cons_eq_some {s t : σ} {a : α} {as : List α} :
    run step s (a :: as) = some t ↔
      ∃ s', step s a = some s' ∧ run step s' as = some t := by
  rw [run_cons, Option.bind_eq_some_iff]

theorem run_append (s : σ) (as bs : List α) :
    run step s (as ++ bs) = (run step s as).bind fun s' => run step s' bs := by
  induction as generalizing s with
  | nil => rfl
  | cons a as ih =>
    rw [List.cons_append, run_cons, run_cons]
    rcases step s a with _ | s'
    · rfl
    · exact ih s'

theorem run_append_of_eq {s s' : σ} {as bs : List α} (h : run step s as = some s') :
    run step s (as ++ bs) = run step s' bs := by
  rw [run_append, h, Option.bind_some]

theorem run_singleton (s : σ) (a : α) : run step s [a] = step s a := by
  rw [run_cons]
  rcases step s a with _ | s' <;> rfl

theorem run_concat_eq_some {s t : σ} {a : α} {as : List α} :
    run step s (as ++ [a]) = some t ↔ ∃ s', run step s as = some s' ∧ step s' a = some t := by
  rw [run_append, Option.bind_eq_some_iff]
  simp only [run_singleton]

/-- A step that is enabled under a condition. -/
theorem enabled_eq_some {p : Prop} [Decidable p] {s t : σ} :
    (if p then some s else none) = some t ↔ p ∧ s = t := by
  rw [Option.ite_none_right_eq_some, Option.some_inj]

/-- A step that a condition disables. -/
theorem disabled_eq_some {p : Prop} [Decidable p] {s t : σ} :
    (if p then none else some s) = some t ↔ ¬p ∧ s = t := by
  rw [Option.ite_none_left_eq_some, Option.some_inj]

@[simp] theorem meets_nil (s : σ) : Meets step ok s [] := trivial

theorem Meets.of_step {s s' : σ} {a : α} {as : List α}
    (h : Meets step ok s (a :: as)) (hs : step s a = some s') : Meets step ok s' as :=
  h.2 s' hs

theorem Meets.of_append {as bs : List α} : ∀ {s s' : σ}, Meets step ok s (as ++ bs) →
    run step s as = some s' → Meets step ok s' bs := by
  induction as with
  | nil =>
    intro s s' h hrun
    rw [run_nil, Option.some_inj] at hrun
    exact hrun ▸ h
  | cons a as ih =>
    intro s s' h hrun
    obtain ⟨t, hs, hrun'⟩ := run_cons_eq_some.mp hrun
    exact ih (h.of_step hs) hrun'

/-- A condition that every step meets is met by every run. -/
theorem meets_of_forall (h : ∀ s a, ok s a) (s : σ) (as : List α) : Meets step ok s as := by
  induction as generalizing s with
  | nil => trivial
  | cons a as ih => exact ⟨h s a, fun s' _ => ih s'⟩

/-- A condition on the actions alone. -/
theorem meets_of_forall_mem {p : α → Prop} {as : List α} (h : ∀ a ∈ as, p a) (s : σ) :
    Meets step (fun _ a => p a) s as := by
  induction as generalizing s with
  | nil => trivial
  | cons a as ih =>
    exact ⟨h a List.mem_cons_self, fun s' _ => ih (fun b hb => h b (List.mem_cons_of_mem a hb)) s'⟩

/-- Two conditions that every step meets. -/
theorem Meets.and {ok' : σ → α → Prop} {s : σ} {as : List α} (h : Meets step ok s as)
    (h' : Meets step ok' s as) : Meets step (fun s a => ok s a ∧ ok' s a) s as := by
  induction as generalizing s with
  | nil => trivial
  | cons a as ih => exact ⟨⟨h.1, h'.1⟩, fun s' hs => ih (h.2 s' hs) (h'.2 s' hs)⟩

/-- Where the steps lead is known, a condition on them is checked one by one. -/
theorem meets_cons_of_eq {s s' : σ} {a : α} {as : List α} (hs : step s a = some s') (ha : ok s a)
    (has : Meets step ok s' as) : Meets step ok s (a :: as) := by
  refine ⟨ha, fun s'' hs' => ?_⟩
  obtain rfl : s' = s'' := Option.some_inj.mp (hs.symm.trans hs')
  exact has

/-- A condition that can be tested on every step can be tested on a run. -/
instance Meets.decidable [∀ s a, Decidable (ok s a)] :
    ∀ (s : σ) (as : List α), Decidable (Meets step ok s as)
  | _, [] => isTrue trivial
  | s, a :: as =>
    match h : step s a with
    | none => decidable_of_iff (ok s a)
      ⟨fun ha => ⟨ha, fun s' hs => absurd (h.symm.trans hs) (by simp)⟩, And.left⟩
    | some s' =>
      have := Meets.decidable s' as
      decidable_of_iff (ok s a ∧ Meets step ok s' as)
        ⟨fun hmeets => meets_cons_of_eq h hmeets.1 hmeets.2, fun hmeets =>
          ⟨hmeets.1, hmeets.2 s' h⟩⟩

/-- The induction over runs: what every step that meets `ok` keeps holds at the
end of every run whose steps all meet it. -/
theorem run_invariant
    (hstep : ∀ s a s', I s → ok s a → step s a = some s' → I s') :
    ∀ {as : List α} {s t : σ}, I s → Meets step ok s as → run step s as = some t → I t := by
  intro as
  induction as with
  | nil =>
    intro s t hI _ hrun
    rw [run_nil, Option.some_inj] at hrun
    exact hrun ▸ hI
  | cons a as ih =>
    intro s t hI hmeets hrun
    obtain ⟨s', hs, hrun'⟩ := run_cons_eq_some.mp hrun
    exact ih (hstep s a s' hI hmeets.1 hs) (hmeets.of_step hs) hrun'

/-- `run_invariant` with no condition on the steps. -/
theorem run_invariant_of_step (hstep : ∀ s a s', I s → step s a = some s' → I s')
    {as : List α} {s t : σ} (hI : I s) (hrun : run step s as = some t) : I t := by
  have hok : Meets step (fun _ _ => True) s as := meets_of_forall (fun _ _ => trivial) s as
  exact run_invariant (fun s a s' h _ => hstep s a s' h) hI hok hrun

/-- Steps that meet `ok` keep `I`, and where `I` holds they meet `ok'` too. -/
theorem Meets.of_invariant {ok' : σ → α → Prop}
    (hstep : ∀ s a s', I s → ok s a → step s a = some s' → I s')
    (hok' : ∀ s a, I s → ok s a → ok' s a) :
    ∀ {as : List α} {s : σ}, I s → Meets step ok s as → Meets step ok' s as := by
  intro as
  induction as with
  | nil => exact fun _ _ => trivial
  | cons a as ih =>
    intro s hI hmeets
    exact ⟨hok' s a hI hmeets.1,
      fun s' hs => ih (hstep s a s' hI hmeets.1 hs) (hmeets.of_step hs)⟩

/-- A system with fewer steps. -/
theorem Meets.of_sub {step' : σ → α → Option σ}
    (hsub : ∀ s a s', step' s a = some s' → step s a = some s') :
    ∀ {as : List α} {s : σ}, Meets step ok s as → Meets step' ok s as := by
  intro as
  induction as with
  | nil => exact fun _ => trivial
  | cons a as ih =>
    intro s hmeets
    exact ⟨hmeets.1, fun s' hs => ih (hmeets.of_step (hsub s a s' hs))⟩

/-- `Meets.of_invariant` for the steps that a run takes. -/
theorem Meets.of_run {ok' : σ → α → Prop}
    (hstep : ∀ s a s', I s → ok s a → step s a = some s' → I s' ∧ ok' s a) :
    ∀ {as : List α} {s t : σ}, I s → Meets step ok s as → run step s as = some t →
      Meets step ok' s as := by
  intro as
  induction as with
  | nil => exact fun _ _ _ => trivial
  | cons a as ih =>
    intro s t hI hmeets hrun
    obtain ⟨s', hs, hrun'⟩ := run_cons_eq_some.mp hrun
    obtain ⟨hI', ha⟩ := hstep s a s' hI hmeets.1 hs
    exact meets_cons_of_eq hs ha (ih hI' (hmeets.of_step hs) hrun')

/-- A weaker condition. -/
theorem Meets.imp {ok' : σ → α → Prop} (h : ∀ s a, ok s a → ok' s a) {s : σ} {as : List α}
    (hmeets : Meets step ok s as) : Meets step ok' s as :=
  Meets.of_invariant (I := fun _ => True) (fun _ _ _ _ _ _ => trivial) (fun s a _ => h s a)
    trivial hmeets

/-- The steps that `ok` allows. -/
def restrict (step : σ → α → Option σ) (ok : σ → α → Prop) [∀ s a, Decidable (ok s a)] (s : σ)
    (a : α) : Option σ := if ok s a then step s a else none

/-- One test finds where a run leads and whether its steps meet a condition. -/
theorem run_restrict_eq_some [∀ s a, Decidable (ok s a)] {as : List α} :
    ∀ {s t : σ}, run (restrict step ok) s as = some t →
      run step s as = some t ∧ Meets step ok s as := by
  induction as with
  | nil => exact fun hrun => ⟨hrun, trivial⟩
  | cons a as ih =>
    intro s t hrun
    obtain ⟨s', hs, hrun'⟩ := run_cons_eq_some.mp hrun
    rw [restrict, Option.ite_none_right_eq_some] at hs
    obtain ⟨hrest, hmeets⟩ := ih hrun'
    exact ⟨run_cons_eq_some.mpr ⟨s', hs.2, hrest⟩, meets_cons_of_eq hs.2 hs.1 hmeets⟩

/-- What each step costs, less what it gains, is taken from a quantity that `W` says is left:
so is what a whole run costs. -/
theorem run_pays {W : σ → ℕ → Prop} {cost gain : α → ℕ}
    (hstep : ∀ s a s' k, W s k → ok s a → step s a = some s' →
      ∃ k', W s' k' ∧ k' + cost a ≤ k + gain a) :
    ∀ {as : List α} {s t : σ} {k : ℕ}, W s k → Meets step ok s as → run step s as = some t →
      ∃ k', W t k' ∧ k' + (as.map cost).sum ≤ k + (as.map gain).sum := by
  intro as
  induction as with
  | nil =>
    intro s t k hW _ hrun
    rw [run_nil, Option.some_inj] at hrun
    exact ⟨k, hrun ▸ hW, Nat.le_refl _⟩
  | cons a as ih =>
    intro s t k hW hmeets hrun
    obtain ⟨s', hs, hrun'⟩ := run_cons_eq_some.mp hrun
    obtain ⟨k₁, hW₁, hle₁⟩ := hstep s a s' k hW hmeets.1 hs
    obtain ⟨k', hW', hle⟩ := ih hW₁ (hmeets.of_step hs) hrun'
    refine ⟨k', hW', ?_⟩
    rw [List.map_cons, List.map_cons, List.sum_cons, List.sum_cons]
    omega

/-- A property that can be tested in a state can be tested over a run. -/
instance Always.decidable [∀ s, Decidable (P s)] :
    ∀ (s : σ) (as : List α), Decidable (Always step P s as)
  | s, [] => inferInstanceAs (Decidable (P s))
  | s, a :: as =>
    match h : step s a with
    | none => decidable_of_iff (P s)
      ⟨fun hs => ⟨hs, fun s' hs' => absurd (h.symm.trans hs') (by simp)⟩, And.left⟩
    | some s' =>
      have := Always.decidable s' as
      decidable_of_iff (P s ∧ Always step P s' as)
        ⟨fun hall => ⟨hall.1, fun _ hs => Option.some_inj.mp (h.symm.trans hs) ▸ hall.2⟩,
          fun hall => ⟨hall.1, hall.2 s' h⟩⟩

theorem Always.head {s : σ} {as : List α} (h : Always step P s as) : P s := by
  cases as with
  | nil => exact h
  | cons a as => exact h.1

theorem Always.of_step {s s' : σ} {a : α} {as : List α}
    (h : Always step P s (a :: as)) (hs : step s a = some s') : Always step P s' as :=
  h.2 s' hs

/-- What holds throughout a run holds at its end. -/
theorem Always.of_run : ∀ {as : List α} {s t : σ}, Always step P s as →
    run step s as = some t → P t := by
  intro as
  induction as with
  | nil =>
    intro s t h hrun
    rw [run_nil, Option.some_inj] at hrun
    exact hrun ▸ h
  | cons a as ih =>
    intro s t h hrun
    obtain ⟨s', hs, hrun'⟩ := run_cons_eq_some.mp hrun
    exact ih (h.of_step hs) hrun'

/-- What follows from an invariant of the steps that meet `ok` holds throughout a run of
such steps. -/
theorem Always.of_invariant (hP : ∀ s, I s → P s)
    (hstep : ∀ s a s', I s → ok s a → step s a = some s' → I s') :
    ∀ {as : List α} {s : σ}, I s → Meets step ok s as → Always step P s as := by
  intro as
  induction as with
  | nil => exact fun hI _ => hP _ hI
  | cons a as ih =>
    intro s hI hmeets
    exact ⟨hP s hI, fun s' hs => ih (hstep s a s' hI hmeets.1 hs) (hmeets.of_step hs)⟩

/-- If `I` holds, the steps that meet `ok` are exactly those after which `P`
still holds, and those keep `I`, then a run keeps `P` throughout exactly when
all its steps meet `ok`.  Both are asked only of steps that meet `pre`, which
the run is promised to take. -/
theorem always_iff_meets_of_pre {pre : σ → α → Prop} (hP : ∀ s, I s → P s)
    (hok : ∀ s a s', I s → pre s a → step s a = some s' → (ok s a ↔ P s'))
    (hI : ∀ s a s', I s → pre s a → ok s a → step s a = some s' → I s') :
    ∀ {as : List α} {s t : σ}, I s → Meets step pre s as → run step s as = some t →
      (Always step P s as ↔ Meets step ok s as) := by
  intro as
  induction as with
  | nil =>
    intro s t hs _ _
    exact ⟨fun _ => trivial, fun _ => hP s hs⟩
  | cons a as ih =>
    intro s t hs hpre hrun
    obtain ⟨s', hstep, hrun'⟩ := run_cons_eq_some.mp hrun
    have hpre' := hpre.of_step hstep
    constructor
    · rintro ⟨-, hall⟩
      have hoka : ok s a := (hok s a s' hs hpre.1 hstep).mpr (hall s' hstep).head
      refine ⟨hoka, fun s'' hstep'' => ?_⟩
      obtain rfl : s' = s'' := Option.some_inj.mp (hstep.symm.trans hstep'')
      exact (ih (hI s a s' hs hpre.1 hoka hstep) hpre' hrun').mp (hall s' hstep)
    · rintro ⟨hoka, hmeets⟩
      refine ⟨hP s hs, fun s'' hstep'' => ?_⟩
      obtain rfl : s' = s'' := Option.some_inj.mp (hstep.symm.trans hstep'')
      exact (ih (hI s a s' hs hpre.1 hoka hstep) hpre' hrun').mpr (hmeets s' hstep)

/-- `always_iff_meets_of_pre` with no promise about the steps. -/
theorem always_iff_meets (hP : ∀ s, I s → P s)
    (hok : ∀ s a s', I s → step s a = some s' → (ok s a ↔ P s'))
    (hI : ∀ s a s', I s → ok s a → step s a = some s' → I s') {as : List α} {s t : σ}
    (hs : I s) (hrun : run step s as = some t) :
    Always step P s as ↔ Meets step ok s as := by
  have hpre : Meets step (fun _ _ => True) s as := meets_of_forall (fun _ _ => trivial) s as
  exact always_iff_meets_of_pre hP (fun s a s' h _ => hok s a s' h)
    (fun s a s' h _ => hI s a s' h) hs hpre hrun

/-- A system in which every action is enabled. -/
theorem run_of_total (h : ∀ s a, ∃ s', step s a = some s') (s : σ) (as : List α) :
    ∃ t, run step s as = some t := by
  induction as generalizing s with
  | nil => exact ⟨s, rfl⟩
  | cons a as ih =>
    obtain ⟨s', hs⟩ := h s a
    obtain ⟨t, hrun⟩ := ih s'
    exact ⟨t, by rw [run_cons, hs, Option.bind_some, hrun]⟩

/-- Two conditions that agree on the steps a run takes. -/
theorem meets_congr {ok' : σ → α → Prop}
    (h : ∀ s a s', step s a = some s' → (ok s a ↔ ok' s a)) :
    ∀ {as : List α} {s t : σ}, run step s as = some t →
      (Meets step ok s as ↔ Meets step ok' s as) := by
  intro as
  induction as with
  | nil => exact fun _ => Iff.rfl
  | cons a as ih =>
    intro s t hrun
    obtain ⟨s', hs, hrun'⟩ := run_cons_eq_some.mp hrun
    have hrest := ih hrun'
    constructor
    · intro hmeets
      exact meets_cons_of_eq hs ((h s a s' hs).mp hmeets.1) (hrest.mp (hmeets.of_step hs))
    · intro hmeets
      exact meets_cons_of_eq hs ((h s a s' hs).mpr hmeets.1) (hrest.mpr (hmeets.of_step hs))

/-! ### A system that carries more -/

section Map

variable {τ : Type*} {step' : τ → α → Option τ} {f : τ → σ}

/-- `f` forgets what the system `step'` carries besides. -/
theorem run_map (hf : ∀ t a, (step' t a).map f = step (f t) a) :
    ∀ (as : List α) (t : τ), (run step' t as).map f = run step (f t) as := by
  intro as
  induction as with
  | nil => exact fun _ => rfl
  | cons a as ih =>
    intro t
    rw [run_cons, run_cons, ← hf]
    rcases step' t a with _ | t'
    · rfl
    · exact ih t'

theorem Meets.of_map (hf : ∀ t a, (step' t a).map f = step (f t) a) :
    ∀ {as : List α} {t : τ}, Meets step ok (f t) as → Meets step' (fun t a => ok (f t) a) t as := by
  intro as
  induction as with
  | nil => exact fun _ => trivial
  | cons a as ih =>
    intro t hmeets
    refine ⟨hmeets.1, fun t' ht' => ih (hmeets.of_step ?_)⟩
    rw [← hf, ht', Option.map_some]

theorem always_map (hf : ∀ t a, (step' t a).map f = step (f t) a) :
    ∀ {as : List α} {t : τ}, Always step' (fun t => P (f t)) t as ↔ Always step P (f t) as := by
  intro as
  induction as with
  | nil => exact Iff.rfl
  | cons a as ih =>
    intro t
    refine and_congr_right fun _ => ⟨fun hall s' hs' => ?_, fun hall t' ht' => ?_⟩
    · rw [← hf] at hs'
      obtain ⟨t', ht', rfl⟩ := Option.map_eq_some_iff.mp hs'
      exact ih.mp (hall t' ht')
    · refine ih.mpr (hall (f t') ?_)
      rw [← hf, ht', Option.map_some]

end Map

section Outputs

variable {β : Type*} {out : σ → σ → β}

/-- What each step shows, read off the states before and after it. -/
def outputs (step : σ → α → Option σ) (out : σ → σ → β) : σ → List α → Option (List β)
  | _, [] => some []
  | s, a :: as => (step s a).bind fun s' => (outputs step out s' as).map (out s s' :: ·)

theorem outputs_cons_of_eq {s s' : σ} {a : α} (h : step s a = some s') (as : List α) :
    outputs step out s (a :: as) = (outputs step out s' as).map (out s s' :: ·) := by
  rw [outputs, h, Option.bind_some]

/-- A phase that the actions `mid` do not leave and the action `z` ends. -/
theorem outputs_of_stay {Q : σ → Prop} {mid good : α → Prop} {f : α → β} {z : α} {y : β}
    (hstay : ∀ s a, Q s → mid a → ok s a →
      good a ∧ ∃ s', step s a = some s' ∧ Q s' ∧ out s s' = f a)
    (hlast : ∀ s, Q s → ∃ s', step s z = some s' ∧ out s s' = y) :
    ∀ {as : List α} {s : σ}, Q s → (∀ a ∈ as, mid a) → Meets step ok s (as ++ [z]) →
      (∀ a ∈ as, good a) ∧ outputs step out s (as ++ [z]) = some (as.map f ++ [y]) := by
  intro as
  induction as with
  | nil =>
    intro s hs _ _
    obtain ⟨s', hstep, hout⟩ := hlast s hs
    refine ⟨fun a ha => absurd ha List.not_mem_nil, ?_⟩
    rw [List.nil_append, outputs_cons_of_eq hstep, hout]
    rfl
  | cons a as ih =>
    intro s hs hmid hmeets
    obtain ⟨hgood, s', hstep, hs', hout⟩ := hstay s a hs (hmid a List.mem_cons_self) hmeets.1
    obtain ⟨hrest, htrace⟩ := ih hs' (fun b hb => hmid b (List.mem_cons_of_mem a hb))
      (hmeets.2 s' hstep)
    refine ⟨fun b hb => ?_, ?_⟩
    · rcases List.mem_cons.mp hb with rfl | hb
      · exact hgood
      · exact hrest b hb
    · rw [List.cons_append, outputs_cons_of_eq hstep, htrace, hout]
      rfl

end Outputs

end Machine
