/-
A fence in shared memory that is one word (`xshmfence_futex.c`).

The word is 1 while the fence is triggered, 0 while it is not, and -1 while it is not and
somebody may sleep on it.  Any number of threads, of the X server and of its clients, call
the four functions; each access of the word is one step, and so are putting a thread to
sleep, if the word is still -1, and waking all that sleep.

* `step` — one step of one thread, with wakings and signals at any time;
* `simulation` — each call takes effect at one moment, as on an event;
* `Sleepers`, `sleepers_step` — nobody sleeps on a triggered fence, unless somebody is about
  to wake everybody.
-/
import KaliGui.Lib.ManualEvent
import KaliGui.Lib.Simulation

namespace Lorie.Fence

open ManualEvent (Op Phase)

variable {T : Type*}

/-- What happens with the threads that use a fence. -/
inductive Act (T : Type*)
  /-- a function is called -/
  | call (t : T) (op : Op)
  /-- the next step of a call -/
  | move (t : T)
  /-- a wait in the kernel, or on the condition variable, ends for no reason -/
  | wakeUp (t : T)
  /-- a signal ends a wait in the kernel -/
  | interrupt (t : T)
  | ret (t : T) (result : ℤ)
  deriving DecidableEq, Repr

/-- What the threads see. -/
def Act.seen : Act T → Option (ManualEvent.Seen T)
  | .call t op => some (.call t op)
  | .ret t result => some (.ret t result)
  | _ => none

namespace Futex

/-! ### The functions -/

inductive Pc
  | idle
  /-- about to swap 0 for 1 -/
  | trigger
  /-- about to store 1 -/
  | store
  /-- about to call `futex_wake` -/
  | wake
  /-- about to swap 0 for -1 -/
  | await
  /-- about to call `futex_wait` -/
  | wait
  /-- in the kernel, in the queue of the word -/
  | asleep
  | query
  | reset
  | returning (result : ℤ)
  deriving DecidableEq, Repr

structure State (T : Type*) where
  v : ℤ := 0
  pc : T → Pc := fun _ => .idle

/-- Where a call starts. -/
def start : Op → Pc
  | .trigger => .trigger
  | .await => .await
  | .query => .query
  | .reset => .reset

/-- `__sync_val_compare_and_swap` leaves this in the word. -/
def swap (v old new : ℤ) : ℤ := if v = old then new else v

/-- `futex_wake`; those that are woken try again. -/
def State.wakeAll (s : State T) : State T :=
  { s with pc := fun u => if s.pc u = .asleep then .await else s.pc u }

def Pc.phase : Pc → Phase
  | .idle => .idle
  | .trigger | .store => .called .trigger
  | .wake => .done 0
  | .await | .wait | .asleep => .called .await
  | .query => .called .query
  | .reset => .called .reset
  | .returning result => .done result

/-- What the word and the threads mean. -/
def State.event (s : State T) : ManualEvent.State T := ⟨s.v = 1, fun t => (s.pc t).phase⟩

/-- The three values of the word. -/
def Valid (s : State T) : Prop := s.v = -1 ∨ s.v = 0 ∨ s.v = 1

theorem phase_start (op : Op) : (start op).phase = .called op := by
  cases op with
  | trigger => rfl
  | await => rfl
  | query => rfl
  | reset => rfl

theorem event_wakeAll (s : State T) : s.wakeAll.event = s.event := by
  rw [State.event, State.event]
  congr 1
  funext u
  show (if s.pc u = .asleep then Pc.await else s.pc u).phase = (s.pc u).phase
  split
  · rename_i hu
    rw [hu]
    rfl
  · rfl

theorem Valid.swap {s : State T} (h : Valid s) {old new : ℤ}
    (hnew : new = -1 ∨ new = 0 ∨ new = 1) : Valid { s with v := swap s.v old new } := by
  show Futex.swap s.v old new = -1 ∨ Futex.swap s.v old new = 0 ∨ Futex.swap s.v old new = 1
  rw [Futex.swap]
  split
  · exact hnew
  · exact h

variable [DecidableEq T]

def State.at (s : State T) (t : T) (p : Pc) : State T :=
  { s with pc := Function.update s.pc t p }

/-- The next step of a call. -/
def move (s : State T) (t : T) : Option (State T) :=
  match s.pc t with
  | .trigger =>
    let next := { s with v := swap s.v 0 1 }
    some (next.at t (if s.v = -1 then .store else .returning 0))
  | .store => some ({ s with v := 1 }.at t .wake)
  | .wake => some (s.wakeAll.at t (.returning 0))
  | .await =>
    let next := { s with v := swap s.v 0 (-1) }
    some (next.at t (if s.v = 1 then .returning 0 else .wait))
  -- `EWOULDBLOCK` where the word is no longer -1
  | .wait => some (s.at t (if s.v = -1 then .asleep else .await))
  | .query => some (s.at t (.returning (if s.v = 1 then 1 else 0)))
  | .reset => some ({ s with v := swap s.v 1 0 }.at t (.returning 0))
  | .idle | .asleep | .returning _ => none

def step (s : State T) : Act T → Option (State T)
  | .call t op => if s.pc t = .idle then some (s.at t (start op)) else none
  | .move t => move s t
  | .wakeUp t => if s.pc t = .asleep then some (s.at t .await) else none
  | .interrupt t => if s.pc t = .asleep then some (s.at t (.returning (-1))) else none
  | .ret t result => if s.pc t = .returning result then some (s.at t .idle) else none

/-! ### The event -/

/-- The moments at which the calls take effect. -/
def effect (s : State T) : Act T → Option (ManualEvent.Act T)
  | .call t op => some (.call t op)
  | .move t =>
    match s.pc t with
    | .trigger => if s.v = -1 then none else some (.effect t)
    | .await => if s.v = 1 then some (.effect t) else none
    | .store | .query | .reset => some (.effect t)
    | _ => none
  | .wakeUp _ => none
  | .interrupt t => some (.giveUp t)
  | .ret t result => some (.ret t result)

variable {s s' : State T} {t u : T}

theorem at_pc (s : State T) (t : T) (p : Pc) (u : T) :
    (s.at t p).pc u = if u = t then p else s.pc u :=
  Function.update_apply s.pc t p u

theorem at_pc_self (s : State T) (t : T) (p : Pc) : (s.at t p).pc t = p := by
  rw [at_pc, if_pos rfl]

theorem event_at (s : State T) (t : T) (p : Pc) : (s.at t p).event = s.event.at t p.phase := by
  rw [State.event, State.at, ManualEvent.State.at]
  congr 1
  funext u
  show ((s.at t p).pc u).phase = Function.update s.event.phase t p.phase u
  rw [at_pc, Function.update_apply]
  split
  · rfl
  · rfl

/-- The thread stays in its phase, and the word triggered or not. -/
theorem stays_at {p : Pc} {v : ℤ} (hp : p.phase = (s.pc t).phase) (hv : v = 1 ↔ s.v = 1) :
    ({ s with v := v }.at t p).event = s.event := by
  rw [event_at, hp, ManualEvent.State.at, State.event, State.event]
  congr 1
  · exact decide_eq_decide.mpr hv
  · exact Function.update_eq_self t s.event.phase

/-- The operation that the thread has called takes effect. -/
theorem effect_at {o : Op} {p : Pc} {v result : ℤ} (hop : (s.pc t).phase = .called o)
    (heffect : o.effect (decide (s.v = 1)) = some (decide (v = 1), result))
    (hp : p.phase = .done result) :
    ManualEvent.step s.event (.effect t) = some ({ s with v := v }.at t p).event := by
  rw [ManualEvent.step_effect (s := s.event) hop heffect, event_at, hp]
  rfl

/-- What a step is on the event: the action that it is, or nothing. -/
def Answered (s s' : State T) : Option (ManualEvent.Act T) → Prop
  | some b => ManualEvent.step s.event b = some s'.event
  | none => s'.event = s.event

theorem answered_move (hv : Valid s) (h : move s t = some s') :
    Answered s s' (effect s (.move t)) := by
  rw [effect]
  rw [move] at h
  cases hpc : s.pc t with
  | idle => simp [hpc] at h
  | asleep => simp [hpc] at h
  | returning result => simp [hpc] at h
  | trigger =>
    simp only [hpc, Option.some_inj] at h
    subst h
    -- with -1 the word is set by the next step only, which is the trigger then
    by_cases hm : s.v = -1
    · rw [if_pos hm, if_pos hm]
      refine stays_at (by rw [hpc]; rfl) ?_
      rw [swap, if_neg (by omega)]
    · rw [if_neg hm, if_neg hm]
      refine effect_at (o := .trigger) (by rw [hpc]; rfl) ?_ rfl
      have hset : swap s.v 0 1 = 1 := by
        rw [swap]
        split
        · rfl
        · rcases hv with hv | hv | hv
          · exact absurd hv hm
          · contradiction
          · exact hv
      rw [hset]
      rfl
  | store =>
    simp only [hpc, Option.some_inj] at h
    subst h
    exact effect_at (o := .trigger) (by rw [hpc]; rfl) rfl rfl
  | wake =>
    simp only [hpc, Option.some_inj] at h
    subst h
    -- the woken threads try again, and have not seen the event yet
    show (s.wakeAll.at t (.returning 0)).event = s.event
    rw [← event_wakeAll s]
    refine stays_at (s := s.wakeAll) (v := s.v) ?_ Iff.rfl
    show (Pc.returning 0).phase = (if s.pc t = .asleep then Pc.await else s.pc t).phase
    rw [hpc]
    rfl
  | await =>
    simp only [hpc, Option.some_inj] at h
    subst h
    -- the wait is over where the word is 1; else the thread marks it and sleeps
    by_cases hone : s.v = 1
    · rw [if_pos hone, if_pos hone]
      refine effect_at (o := .await) (by rw [hpc]; rfl) ?_ rfl
      rw [swap, if_neg (by omega), hone]
      rfl
    · rw [if_neg hone, if_neg hone]
      refine stays_at (by rw [hpc]; rfl) ?_
      rw [swap]
      split
      · omega
      · exact Iff.rfl
  | wait =>
    simp only [hpc, Option.some_inj] at h
    subst h
    refine stays_at (v := s.v) ?_ Iff.rfl
    rw [hpc]
    split
    · rfl
    · rfl
  | query =>
    simp only [hpc, Option.some_inj] at h
    subst h
    refine effect_at (o := .query) (v := s.v) (by rw [hpc]; rfl) ?_ rfl
    rw [Op.effect]
    by_cases hone : s.v = 1
    · rw [if_pos hone, decide_eq_true hone]
      rfl
    · rw [if_neg hone, decide_eq_false hone]
      rfl
  | reset =>
    simp only [hpc, Option.some_inj] at h
    subst h
    refine effect_at (o := .reset) (by rw [hpc]; rfl) ?_ rfl
    have hclear : ¬ swap s.v 1 0 = 1 := by
      rw [swap]
      split
      · omega
      · assumption
    rw [Op.effect, decide_eq_false hclear]

theorem answered_step {a : Act T} (hv : Valid s) (h : step s a = some s') :
    Answered s s' (effect s a) := by
  cases a with
  | call t op =>
    obtain ⟨hidle, hs'⟩ := Option.ite_none_right_eq_some.mp h
    obtain rfl := Option.some_inj.mp hs'
    show ManualEvent.step s.event (.call t op) = some (s.at t (start op)).event
    have hphase : s.event.phase t = .idle := congrArg Pc.phase hidle
    rw [ManualEvent.step_call hphase, event_at, phase_start]
  | move t => exact answered_move hv h
  | wakeUp t =>
    obtain ⟨hasleep, hs'⟩ := Option.ite_none_right_eq_some.mp h
    obtain rfl := Option.some_inj.mp hs'
    exact stays_at (v := s.v) (congrArg Pc.phase hasleep).symm Iff.rfl
  | interrupt t =>
    obtain ⟨hasleep, hs'⟩ := Option.ite_none_right_eq_some.mp h
    obtain rfl := Option.some_inj.mp hs'
    show ManualEvent.step s.event (.giveUp t) = some (s.at t (.returning (-1))).event
    have hphase : s.event.phase t = .called .await := congrArg Pc.phase hasleep
    rw [ManualEvent.step_giveUp hphase, event_at]
    rfl
  | ret t result =>
    obtain ⟨hdone, hs'⟩ := Option.ite_none_right_eq_some.mp h
    obtain rfl := Option.some_inj.mp hs'
    show ManualEvent.step s.event (.ret t result) = some (s.at t .idle).event
    have hphase : s.event.phase t = .done result := congrArg Pc.phase hdone
    rw [ManualEvent.step_ret hphase, event_at]
    rfl

theorem valid_step {a : Act T} (hv : Valid s) (h : step s a = some s') : Valid s' := by
  cases a with
  | move t =>
    rw [step, move] at h
    cases hpc : s.pc t with
    | idle => simp [hpc] at h
    | asleep => simp [hpc] at h
    | returning result => simp [hpc] at h
    | trigger =>
      simp only [hpc, Option.some_inj] at h
      exact h ▸ hv.swap (by omega)
    | store =>
      simp only [hpc, Option.some_inj] at h
      exact h ▸ .inr (.inr rfl)
    | wake =>
      simp only [hpc, Option.some_inj] at h
      exact h ▸ hv
    | await =>
      simp only [hpc, Option.some_inj] at h
      exact h ▸ hv.swap (by omega)
    | wait =>
      simp only [hpc, Option.some_inj] at h
      exact h ▸ hv
    | query =>
      simp only [hpc, Option.some_inj] at h
      exact h ▸ hv
    | reset =>
      simp only [hpc, Option.some_inj] at h
      exact h ▸ hv.swap (by omega)
  | call t op =>
    obtain ⟨-, hs'⟩ := Option.ite_none_right_eq_some.mp h
    exact Option.some_inj.mp hs' ▸ hv
  | wakeUp t =>
    obtain ⟨-, hs'⟩ := Option.ite_none_right_eq_some.mp h
    exact Option.some_inj.mp hs' ▸ hv
  | interrupt t =>
    obtain ⟨-, hs'⟩ := Option.ite_none_right_eq_some.mp h
    exact Option.some_inj.mp hs' ▸ hv
  | ret t result =>
    obtain ⟨-, hs'⟩ := Option.ite_none_right_eq_some.mp h
    exact Option.some_inj.mp hs' ▸ hv

/-- Each call takes effect at one moment, between its start and its return. -/
theorem simulation :
    Machine.Simulation (step (T := T)) ManualEvent.step Valid State.event effect where
  keeps _ _ _ hv h := valid_step hv h
  answers _ _ _ _ hv h hb := by
    have hanswered := answered_step hv h
    rw [hb] at hanswered
    exact hanswered
  stays _ _ _ hv h hnone := by
    have hanswered := answered_step hv h
    rw [hnone] at hanswered
    exact hanswered

omit [DecidableEq T] in
/-- The threads see of the event what they see of the fence. -/
theorem seen_effect (s : State T) (a : Act T) :
    (effect s a).bind ManualEvent.Act.seen = a.seen := by
  cases a with
  | call t op => rfl
  | wakeUp t => rfl
  | interrupt t => rfl
  | ret t result => rfl
  | move t =>
    rw [effect]
    cases s.pc t with
    | trigger =>
      show (if s.v = -1 then none else some (ManualEvent.Act.effect t)).bind _ = none
      split
      · rfl
      · rfl
    | await =>
      show (if s.v = 1 then some (ManualEvent.Act.effect t) else none).bind _ = none
      split
      · rfl
      · rfl
    | _ => rfl

/-! ### Sleeping -/

/-- Whoever sleeps does so on the word -1, or somebody is about to wake everybody. -/
def Sleepers (s : State T) : Prop :=
  ∀ t, s.pc t = .asleep → s.v = -1 ∨ ∃ u, s.pc u = .wake

/-- A step of a thread that is not about to wake everybody: it goes to sleep on -1 only, and
does not change -1 unless it is to wake everybody next. -/
theorem Sleepers.at (h : Sleepers s) {p : Pc} {v : ℤ} (hwake : s.pc t ≠ .wake)
    (hasleep : p = .asleep → v = -1) (hv : s.v = -1 → v = -1 ∨ p = .wake) :
    Sleepers ({ s with v := v }.at t p) := by
  intro u hu
  rw [at_pc] at hu
  by_cases hut : u = t
  · rw [if_pos hut] at hu
    exact .inl (hasleep hu)
  · rw [if_neg hut] at hu
    rcases h u hu with hword | ⟨w, hw⟩
    · rcases hv hword with hword | hp
      · exact .inl hword
      · refine .inr ⟨t, ?_⟩
        rw [at_pc_self, hp]
    · refine .inr ⟨w, ?_⟩
      have hwt : w ≠ t := fun heq => hwake (heq ▸ hw)
      rw [at_pc, if_neg hwt, hw]

theorem wakeAll_not_asleep (s : State T) (t u : T) {result : ℤ} :
    (s.wakeAll.at t (.returning result)).pc u ≠ .asleep := by
  show Function.update s.wakeAll.pc t (.returning result) u ≠ .asleep
  rw [Function.update_apply]
  split
  · exact Pc.noConfusion
  · show (if s.pc u = .asleep then Pc.await else s.pc u) ≠ .asleep
    split
    · exact Pc.noConfusion
    · assumption

theorem sleepers_move (h : Sleepers s) (hs : move s t = some s') : Sleepers s' := by
  rw [move] at hs
  cases hpc : s.pc t with
  | idle => simp [hpc] at hs
  | asleep => simp [hpc] at hs
  | returning result => simp [hpc] at hs
  | trigger =>
    simp only [hpc, Option.some_inj] at hs
    subst hs
    refine h.at (by rw [hpc]; exact Pc.noConfusion) ?_ ?_
    · split
      · exact Pc.noConfusion
      · exact Pc.noConfusion
    · intro hv
      rw [swap, if_neg (by omega)]
      exact .inl hv
  | store =>
    simp only [hpc, Option.some_inj] at hs
    subst hs
    exact h.at (by rw [hpc]; exact Pc.noConfusion) Pc.noConfusion fun _ => .inr rfl
  | wake =>
    simp only [hpc, Option.some_inj] at hs
    subst hs
    intro u hu
    exact absurd hu (wakeAll_not_asleep s t u)
  | await =>
    simp only [hpc, Option.some_inj] at hs
    subst hs
    refine h.at (by rw [hpc]; exact Pc.noConfusion) ?_ ?_
    · split
      · exact Pc.noConfusion
      · exact Pc.noConfusion
    · intro hv
      rw [swap, if_neg (by omega)]
      exact .inl hv
  | wait =>
    simp only [hpc, Option.some_inj] at hs
    subst hs
    refine h.at (v := s.v) (by rw [hpc]; exact Pc.noConfusion) ?_ .inl
    -- the kernel compares the word once more
    split
    · intro _
      assumption
    · exact Pc.noConfusion
  | query =>
    simp only [hpc, Option.some_inj] at hs
    subst hs
    exact h.at (v := s.v) (by rw [hpc]; exact Pc.noConfusion) Pc.noConfusion .inl
  | reset =>
    simp only [hpc, Option.some_inj] at hs
    subst hs
    refine h.at (by rw [hpc]; exact Pc.noConfusion) Pc.noConfusion ?_
    intro hv
    rw [swap, if_neg (by omega)]
    exact .inl hv

theorem sleepers_step {a : Act T} (h : Sleepers s) (hs : step s a = some s') : Sleepers s' := by
  cases a with
  | move t => exact sleepers_move h hs
  | call t op =>
    obtain ⟨hidle, hs'⟩ := Option.ite_none_right_eq_some.mp hs
    obtain rfl := Option.some_inj.mp hs'
    refine h.at (v := s.v) (by rw [hidle]; exact Pc.noConfusion) ?_ .inl
    cases op with
    | trigger => exact Pc.noConfusion
    | await => exact Pc.noConfusion
    | query => exact Pc.noConfusion
    | reset => exact Pc.noConfusion
  | wakeUp t =>
    obtain ⟨hasleep, hs'⟩ := Option.ite_none_right_eq_some.mp hs
    obtain rfl := Option.some_inj.mp hs'
    exact h.at (v := s.v) (by rw [hasleep]; exact Pc.noConfusion) Pc.noConfusion .inl
  | interrupt t =>
    obtain ⟨hasleep, hs'⟩ := Option.ite_none_right_eq_some.mp hs
    obtain rfl := Option.some_inj.mp hs'
    exact h.at (v := s.v) (by rw [hasleep]; exact Pc.noConfusion) Pc.noConfusion .inl
  | ret t result =>
    obtain ⟨hdone, hs'⟩ := Option.ite_none_right_eq_some.mp hs
    obtain rfl := Option.some_inj.mp hs'
    exact h.at (v := s.v) (by rw [hdone]; exact Pc.noConfusion) Pc.noConfusion .inl

/-! ### A wait on a triggered fence -/

open Machine

/-- A thread that is awake and waits finds the fence triggered with its next steps. -/
theorem finishes_awake (hv : s.v = 1) (hcalled : (s.pc t).phase = .called .await)
    (hawake : s.pc t ≠ .asleep) :
    ∃ n s', n ≤ 2 ∧ run step s (List.replicate n (.move t)) = some s' ∧
      s'.pc t = .returning 0 := by
  have hawait : ∀ r : State T, r.v = 1 → r.pc t = .await →
      step r (.move t) = some ({ r with v := swap r.v 0 (-1) }.at t (.returning 0)) := by
    intro r hr hpc
    rw [step, move, hpc]
    simp only [hr, if_pos]
  cases hpc : s.pc t with
  | await =>
    have hrun : run step s [.move t] = some _ := (run_singleton s _).trans (hawait s hv hpc)
    exact ⟨1, _, by omega, hrun, at_pc_self _ t _⟩
  | wait =>
    -- the word is not -1, so that the kernel sends the thread back
    have hback : step s (.move t) = some (s.at t .await) := by
      rw [step, move, hpc]
      show some (s.at t (if s.v = -1 then .asleep else .await)) = _
      rw [if_neg (by omega)]
    have hpc' : (s.at t .await).pc t = .await := at_pc_self s t .await
    have hlast := hawait (s.at t .await) hv hpc'
    have hrun : run step s [.move t, .move t] = step (s.at t .await) (.move t) := by
      rw [run_cons, hback, Option.bind_some, run_singleton]
    exact ⟨2, _, by omega, hrun.trans hlast, at_pc_self _ t _⟩
  | asleep => exact absurd hpc hawake
  | idle => rw [hpc] at hcalled; exact Phase.noConfusion hcalled
  | trigger => rw [hpc] at hcalled; cases hcalled
  | store => rw [hpc] at hcalled; cases hcalled
  | wake => rw [hpc] at hcalled; exact Phase.noConfusion hcalled
  | query => rw [hpc] at hcalled; cases hcalled
  | reset => rw [hpc] at hcalled; cases hcalled
  | returning result => rw [hpc] at hcalled; exact Phase.noConfusion hcalled

/-- A thread that sleeps on a triggered fence is woken by a call that has set it. -/
theorem finishes (hsleepers : Sleepers s) (hv : s.v = 1)
    (hcalled : (s.pc t).phase = .called .await) :
    ∃ (us : List T) (s' : State T), us.length ≤ 3 ∧ run step s (us.map .move) = some s' ∧
      s'.pc t = .returning 0 := by
  by_cases hasleep : s.pc t = .asleep
  · rcases hsleepers t hasleep with hword | ⟨u, hu⟩
    · omega
    have hwake : step s (.move u) = some (s.wakeAll.at u (.returning 0)) := by
      rw [step, move, hu]
    have hut : t ≠ u := by
      intro heq
      rw [heq, hu] at hasleep
      exact Pc.noConfusion hasleep
    have hawait : (s.wakeAll.at u (.returning 0)).pc t = .await := by
      show Function.update s.wakeAll.pc u (.returning 0) t = .await
      rw [Function.update_of_ne hut]
      exact if_pos hasleep
    obtain ⟨n, s', hn, hrun, hdone⟩ := finishes_awake (s := s.wakeAll.at u (.returning 0))
      (t := t) hv (by rw [hawait]; rfl) (by rw [hawait]; exact Pc.noConfusion)
    refine ⟨u :: List.replicate n t, s', ?_, ?_, hdone⟩
    · rw [List.length_cons, List.length_replicate]
      omega
    · rw [List.map_cons, List.map_replicate, run_cons, hwake, Option.bind_some]
      exact hrun
  · obtain ⟨n, s', hn, hrun, hdone⟩ := finishes_awake hv hcalled hasleep
    refine ⟨List.replicate n t, s', ?_, ?_, hdone⟩
    · rw [List.length_replicate]
      omega
    · rw [List.map_replicate]
      exact hrun

end Futex

end Lorie.Fence
