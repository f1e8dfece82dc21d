/-
One system simulates another along a function of their states.

Each step of the concrete system is answered by at most one step of the abstract one; a
step that is answered by none leaves the abstract state as it is.

* `Simulation` — what is asked of single steps, under an invariant of the concrete system;
* `trace` — the abstract actions that answer a run, in order;
* `Simulation.run_trace` — they are a run of the abstract system, between the same states;
* `trace_filterMap` — what is seen of the actions is the same in both.
-/
import KaliGui.Lib.Run

namespace Machine

variable {σ τ α β γ : Type*}

/-- The steps of `step`, where `I` holds, are answered by steps of `step'`: `abs` is the
abstract state, and `act` the abstract action, if there is one. -/
structure Simulation (step : σ → α → Option σ) (step' : τ → β → Option τ) (I : σ → Prop)
    (abs : σ → τ) (act : σ → α → Option β) : Prop where
  keeps : ∀ s a s', I s → step s a = some s' → I s'
  answers : ∀ s a s' b, I s → step s a = some s' → act s a = some b →
    step' (abs s) b = some (abs s')
  stays : ∀ s a s', I s → step s a = some s' → act s a = none → abs s' = abs s

/-- The abstract actions that answer the actions of a run. -/
def trace (step : σ → α → Option σ) (act : σ → α → Option β) : σ → List α → List β
  | _, [] => []
  | s, a :: as => (act s a).toList ++ (step s a).elim [] fun s' => trace step act s' as

variable {step : σ → α → Option σ} {step' : τ → β → Option τ} {I : σ → Prop} {abs : σ → τ}
  {act : σ → α → Option β}

theorem trace_cons_of_eq {s s' : σ} {a : α} (as : List α) (h : step s a = some s') :
    trace step act s (a :: as) = (act s a).toList ++ trace step act s' as := by
  rw [trace, h]
  rfl

/-- A run is answered by a run, between the abstract states of its ends. -/
theorem Simulation.run_trace (h : Simulation step step' I abs act) :
    ∀ {as : List α} {s t : σ}, I s → run step s as = some t →
      run step' (abs s) (trace step act s as) = some (abs t) := by
  intro as
  induction as with
  | nil =>
    intro s t _ hrun
    rw [run_nil, Option.some_inj] at hrun
    rw [hrun]
    rfl
  | cons a as ih =>
    intro s t hI hrun
    obtain ⟨s', hs, hrun'⟩ := run_cons_eq_some.mp hrun
    have hrest := ih (h.keeps s a s' hI hs) hrun'
    rw [trace_cons_of_eq as hs]
    cases ha : act s a with
    | none =>
      rw [← h.stays s a s' hI hs ha]
      exact hrest
    | some b =>
      rw [Option.toList_some, List.singleton_append, run_cons, h.answers s a s' b hI hs ha]
      exact hrest

/-- The invariant holds at the end of a run. -/
theorem Simulation.invariant (h : Simulation step step' I abs act) {as : List α} {s t : σ}
    (hI : I s) (hrun : run step s as = some t) : I t :=
  run_invariant_of_step h.keeps hI hrun

/-- If the abstract action shows what the concrete one does, and an action that is not
answered shows nothing, then both runs show the same. -/
theorem trace_filterMap {see : α → Option γ} {see' : β → Option γ}
    (hsee : ∀ s a s', step s a = some s' → (act s a).bind see' = see a) :
    ∀ {as : List α} {s t : σ}, run step s as = some t →
      (trace step act s as).filterMap see' = as.filterMap see := by
  intro as
  induction as with
  | nil => exact fun _ => rfl
  | cons a as ih =>
    intro s t hrun
    obtain ⟨s', hs, hrun'⟩ := run_cons_eq_some.mp hrun
    rw [trace_cons_of_eq as hs, List.filterMap_append, ih hrun', List.filterMap_cons]
    rw [← hsee s a s' hs]
    cases act s a with
    | none => rfl
    | some b =>
      rw [Option.toList_some, Option.bind_some, List.filterMap_cons, List.filterMap_nil]
      cases see' b with
      | none => rfl
      | some c => rfl

end Machine
