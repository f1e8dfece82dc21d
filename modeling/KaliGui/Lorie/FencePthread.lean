/-
A fence in shared memory that is a mutex and a condition variable (`xshmfence_pthread.c`).

The functions do what they do with the lock held; a thread that waits gives it up while it
sleeps.  Each access of a field is one step, and so are taking the lock, giving it back,
going to sleep and waking all that sleep.

* `step` — one step of one thread, with wakings at any time;
* `simulation` — each call takes effect at one moment, as on an event;
* `Inv`, `inv_step` — who holds the lock, and that whoever sleeps does so on a fence that is
  not triggered and marked, or is about to be woken.
-/
import KaliGui.Lib.SpinLock
import KaliGui.Lorie.FenceFutex

namespace Lorie.Fence.Pthread

open ManualEvent (Op Phase)
open Machine

variable {T : Type*}

/-! ### The functions -/

inductive Pc
  | idle
  /-- `pthread_mutex_lock` -/
  | lock (op : Op)
  /-- the first access of `value` with the lock held -/
  | enter (op : Op)
  /-- `f->value = 1` -/
  | set
  /-- `if (f->waiting)` -/
  | waiting
  /-- `f->waiting = 0` -/
  | clear
  /-- `pthread_cond_broadcast` -/
  | broadcast
  /-- `f->waiting = 1` -/
  | mark
  /-- about to call `pthread_cond_wait` -/
  | wait
  /-- in it, without the lock -/
  | asleep
  /-- woken, about to take the lock again -/
  | relock
  /-- `pthread_mutex_unlock` -/
  | unlock (result : ℤ)
  | returning (result : ℤ)
  deriving DecidableEq, Repr

/-- `struct xshmfence`; `value` and `waiting` as they are tested. -/
structure State (T : Type*) where
  lock : Option T := none
  value : Bool := false
  waiting : Bool := false
  pc : T → Pc := fun _ => .idle

/-- `pthread_cond_broadcast` -/
def State.wakeAll (s : State T) : State T :=
  { s with pc := fun u => if s.pc u = .asleep then .relock else s.pc u }

def Pc.phase : Pc → Phase
  | .idle => .idle
  | .lock op | .enter op => .called op
  | .set => .called .trigger
  | .waiting | .clear | .broadcast => .done 0
  | .mark | .wait | .asleep | .relock => .called .await
  | .unlock result | .returning result => .done result

/-- The thread holds the lock. -/
def Pc.Holds : Pc → Prop
  | .enter _ | .set | .waiting | .clear | .broadcast | .mark | .wait | .unlock _ => True
  | .idle | .lock _ | .asleep | .relock | .returning _ => False

/-- What the value and the threads mean. -/
def State.event (s : State T) : ManualEvent.State T := ⟨s.value, fun t => (s.pc t).phase⟩

theorem event_wakeAll (s : State T) : s.wakeAll.event = s.event := by
  rw [State.event, State.event]
  congr 1
  funext u
  show (if s.pc u = .asleep then Pc.relock else s.pc u).phase = (s.pc u).phase
  split
  · rename_i hu
    rw [hu]
    rfl
  · rfl

variable [DecidableEq T]

def State.at (s : State T) (t : T) (p : Pc) : State T :=
  { s with pc := Function.update s.pc t p }

/-- The next step of a call; the lock is waited for where somebody has it. -/
def move (s : State T) (t : T) : Option (State T) :=
  match s.pc t with
  | .lock op => if s.lock = none then some ({ s with lock := some t }.at t (.enter op)) else none
  | .enter .trigger => some (s.at t (if s.value then .unlock 0 else .set))
  | .enter .await => some (s.at t (if s.value then .unlock 0 else .mark))
  | .enter .query => some (s.at t (.unlock (if s.value then 1 else 0)))
  | .enter .reset => some ({ s with value := false }.at t (.unlock 0))
  | .set => some ({ s with value := true }.at t .waiting)
  | .waiting => some (s.at t (if s.waiting then .clear else .unlock 0))
  | .clear => some ({ s with waiting := false }.at t .broadcast)
  | .broadcast => some (s.wakeAll.at t (.unlock 0))
  | .mark => some ({ s with waiting := true }.at t .wait)
  | .wait => some ({ s with lock := none }.at t .asleep)
  | .relock =>
    if s.lock = none then some ({ s with lock := some t }.at t (.enter .await)) else none
  | .unlock result => some ({ s with lock := none }.at t (.returning result))
  | .idle | .asleep | .returning _ => none

/-- No signal ends a wait on a condition variable. -/
def step (s : State T) : Act T → Option (State T)
  | .call t op => if s.pc t = .idle then some (s.at t (.lock op)) else none
  | .move t => move s t
  | .wakeUp t => if s.pc t = .asleep then some (s.at t .relock) else none
  | .interrupt _ => none
  | .ret t result => if s.pc t = .returning result then some (s.at t .idle) else none

/-! ### The event -/

/-- The moments at which the calls take effect. -/
def effect (s : State T) : Act T → Option (ManualEvent.Act T)
  | .call t op => some (.call t op)
  | .move t =>
    match s.pc t with
    | .enter .trigger | .enter .await => if s.value then some (.effect t) else none
    | .enter .query | .enter .reset | .set => some (.effect t)
    | _ => none
  | .wakeUp _ => none
  | .interrupt t => some (.giveUp t)
  | .ret t result => some (.ret t result)

variable {s s' : State T} {t u : T}

theorem at_pc (s : State T) (t : T) (p : Pc) (u : T) :
    (s.at t p).pc u = if u = t then p else s.pc u :=
  Function.update_apply s.pc t p u

theorem at_pc_self (s : State T) (t : T) (p : Pc) : (s.at t p).pc t = p := by
  rw [at_pc, if_pos rfl]

theorem at_pc_of_ne (s : State T) (p : Pc) (h : u ≠ t) : (s.at t p).pc u = s.pc u := by
  rw [at_pc, if_neg h]

theorem event_at (s : State T) (t : T) (p : Pc) : (s.at t p).event = s.event.at t p.phase := by
  rw [State.event, State.at, ManualEvent.State.at]
  congr 1
  funext u
  show ((s.at t p).pc u).phase = Function.update s.event.phase t p.phase u
  rw [at_pc, Function.update_apply]
  split
  · rfl
  · rfl

/-- The thread stays in its phase, whatever happens to the lock and the mark. -/
theorem stays_at {p : Pc} {l : Option T} {w : Bool} (hp : p.phase = (s.pc t).phase) :
    ({ s with lock := l, waiting := w }.at t p).event = s.event := by
  rw [event_at, hp, ManualEvent.State.at]
  show (⟨s.value, _⟩ : ManualEvent.State T) = ⟨s.value, _⟩
  congr 1
  exact Function.update_eq_self t s.event.phase

/-- The operation that the thread has called takes effect. -/
theorem effect_at {o : Op} {p : Pc} {v : Bool} {result : ℤ}
    (hop : (s.pc t).phase = .called o) (heffect : o.effect s.value = some (v, result))
    (hp : p.phase = .done result) :
    ManualEvent.step s.event (.effect t) = some ({ s with value := v }.at t p).event := by
  rw [ManualEvent.step_effect (s := s.event) hop heffect, event_at, hp]
  rfl

/-- What a step is on the event: the action that it is, or nothing. -/
def Answered (s s' : State T) : Option (ManualEvent.Act T) → Prop
  | some b => ManualEvent.step s.event b = some s'.event
  | none => s'.event = s.event

theorem answered_enter {o : Op} (hpc : s.pc t = .enter o) (h : move s t = some s') :
    Answered s s' (effect s (.move t)) := by
  have hcalled : (s.pc t).phase = .called o := by
    rw [hpc]
    rfl
  cases o with
  | trigger =>
    simp only [move, hpc, Option.some_inj] at h
    subst h
    simp only [effect, hpc]
    cases hvalue : s.value with
    | true => exact effect_at (p := .unlock 0) (v := s.value) hcalled (by rw [hvalue]; rfl) rfl
    | false => exact stays_at (p := .set) (l := s.lock) (w := s.waiting) hcalled.symm
  | await =>
    simp only [move, hpc, Option.some_inj] at h
    subst h
    simp only [effect, hpc]
    cases hvalue : s.value with
    | true => exact effect_at (p := .unlock 0) (v := s.value) hcalled (by rw [hvalue]; rfl) rfl
    | false => exact stays_at (p := .mark) (l := s.lock) (w := s.waiting) hcalled.symm
  | query =>
    simp only [move, hpc, Option.some_inj] at h
    subst h
    simp only [effect, hpc]
    exact effect_at (p := .unlock _) (v := s.value) hcalled rfl rfl
  | reset =>
    simp only [move, hpc, Option.some_inj] at h
    subst h
    simp only [effect, hpc]
    exact effect_at (p := .unlock 0) hcalled rfl rfl

theorem answered_move (h : move s t = some s') : Answered s s' (effect s (.move t)) := by
  -- a call takes effect where it has the lock, or with the store of `value`; no other step does
  cases hpc : s.pc t with
  | enter op => exact answered_enter hpc h
  | idle => simp [move, hpc] at h
  | asleep => simp [move, hpc] at h
  | returning result => simp [move, hpc] at h
  | lock op =>
    simp only [move, hpc] at h
    obtain ⟨-, hs'⟩ := Option.ite_none_right_eq_some.mp h
    obtain rfl := Option.some_inj.mp hs'
    simp only [effect, hpc]
    refine stays_at (w := s.waiting) ?_
    rw [hpc]
    rfl
  | relock =>
    simp only [move, hpc] at h
    obtain ⟨-, hs'⟩ := Option.ite_none_right_eq_some.mp h
    obtain rfl := Option.some_inj.mp hs'
    simp only [effect, hpc]
    refine stays_at (w := s.waiting) ?_
    rw [hpc]
    rfl
  | set =>
    simp only [move, hpc, Option.some_inj] at h
    subst h
    simp only [effect, hpc]
    exact effect_at (o := .trigger) (by rw [hpc]; rfl) rfl rfl
  | waiting =>
    simp only [move, hpc, Option.some_inj] at h
    subst h
    simp only [effect, hpc]
    refine stays_at (l := s.lock) (w := s.waiting) ?_
    rw [hpc]
    split
    · rfl
    · rfl
  | clear =>
    simp only [move, hpc, Option.some_inj] at h
    subst h
    simp only [effect, hpc]
    refine stays_at (l := s.lock) ?_
    rw [hpc]
    rfl
  | broadcast =>
    simp only [move, hpc, Option.some_inj] at h
    subst h
    simp only [effect, hpc]
    show (s.wakeAll.at t (.unlock 0)).event = s.event
    -- the woken threads have to take the lock first, and have seen nothing yet
    rw [← event_wakeAll s]
    refine stays_at (s := s.wakeAll) (l := s.lock) (w := s.waiting) ?_
    show (Pc.unlock 0).phase = (if s.pc t = .asleep then Pc.relock else s.pc t).phase
    rw [hpc]
    rfl
  | mark =>
    simp only [move, hpc, Option.some_inj] at h
    subst h
    simp only [effect, hpc]
    refine stays_at (l := s.lock) ?_
    rw [hpc]
    rfl
  | wait =>
    simp only [move, hpc, Option.some_inj] at h
    subst h
    simp only [effect, hpc]
    refine stays_at (w := s.waiting) ?_
    rw [hpc]
    rfl
  | unlock result =>
    simp only [move, hpc, Option.some_inj] at h
    subst h
    simp only [effect, hpc]
    refine stays_at (w := s.waiting) ?_
    rw [hpc]
    rfl

theorem answered_step {a : Act T} (h : step s a = some s') : Answered s s' (effect s a) := by
  cases a with
  | call t op =>
    obtain ⟨hidle, hs'⟩ := Option.ite_none_right_eq_some.mp h
    obtain rfl := Option.some_inj.mp hs'
    show ManualEvent.step s.event (.call t op) = some (s.at t (.lock op)).event
    have hphase : s.event.phase t = .idle := congrArg Pc.phase hidle
    rw [ManualEvent.step_call hphase, event_at]
    rfl
  | move t => exact answered_move h
  | wakeUp t =>
    obtain ⟨hasleep, hs'⟩ := Option.ite_none_right_eq_some.mp h
    obtain rfl := Option.some_inj.mp hs'
    exact stays_at (l := s.lock) (w := s.waiting) (p := .relock) (congrArg Pc.phase hasleep).symm
  | interrupt t => exact absurd h (by simp [step])
  | ret t result =>
    obtain ⟨hdone, hs'⟩ := Option.ite_none_right_eq_some.mp h
    obtain rfl := Option.some_inj.mp hs'
    show ManualEvent.step s.event (.ret t result) = some (s.at t .idle).event
    have hphase : s.event.phase t = .done result := congrArg Pc.phase hdone
    rw [ManualEvent.step_ret hphase, event_at]
    rfl

/-! ### The lock and sleeping -/

/-- The thread at `p` is about to wake everybody, if somebody is marked to sleep. -/
def Pc.Wakes (waiting : Bool) : Pc → Prop
  | .waiting => waiting = true
  | .clear | .broadcast => True
  | _ => False

theorem Pc.Wakes.holds {waiting : Bool} {p : Pc} (h : p.Wakes waiting) : p.Holds := by
  cases p with
  | waiting => trivial
  | clear => trivial
  | broadcast => trivial
  | _ => exact False.elim h

/-- What a thread that is about to sleep has seen and done, with the lock held. -/
def Pc.Sees (value waiting : Bool) : Pc → Prop
  | .mark => value = false
  | .wait => value = false ∧ waiting = true
  | _ => True

structure Inv (s : State T) : Prop where
  lock : SpinLock.Exact (fun t => (s.pc t).Holds) s.lock
  sees : ∀ t, (s.pc t).Sees s.value s.waiting
  sleepers : ∀ t, s.pc t = .asleep →
    s.value = false ∧ s.waiting = true ∨ ∃ u, (s.pc u).Wakes s.waiting

omit [DecidableEq T] in
theorem inv_initial : Inv ({} : State T) where
  lock _ := iff_of_false id (by simp)
  sees _ := trivial
  sleepers t h := by cases h

omit [DecidableEq T] in
theorem Inv.alone (h : Inv s) (ht : (s.pc t).Holds) (hu : (s.pc u).Holds) : u = t :=
  Option.some_inj.mp (((h.lock u).mp hu).symm.trans ((h.lock t).mp ht))

/-- Where a thread that holds the lock goes, the lock, the value and the mark change as it
says; the others do not hold the lock. -/
theorem Inv.inside (h : Inv s) (hin : (s.pc t).Holds) {p : Pc} {l : Option T} {v w : Bool}
    (hlock : SpinLock.Change t True p.Holds s.lock l) (hsees : p.Sees v w)
    (hasleep : p = .asleep → v = false ∧ w = true)
    (hwakes : s.value = false ∧ s.waiting = true ∨ (s.pc t).Wakes s.waiting →
      v = false ∧ w = true ∨ p.Wakes w) :
    Inv ({ s with lock := l, value := v, waiting := w }.at t p) where
  lock := by
    refine h.lock.change (t := t) ?_ ?_
    · refine hlock.congr ⟨fun _ => trivial, fun _ => hin⟩ ?_
      rw [at_pc_self]
    · intro u hu
      rw [at_pc_of_ne _ p hu]
  sees u := by
    by_cases hu : u = t
    · rw [hu, at_pc_self]
      exact hsees
    · rw [at_pc_of_ne _ p hu]
      have hout : ¬ (s.pc u).Holds := fun hheld => hu (h.alone hin hheld)
      show (s.pc u).Sees v w
      cases hpc : s.pc u with
      | mark => exact absurd (show (s.pc u).Holds by rw [hpc]; trivial) hout
      | wait => exact absurd (show (s.pc u).Holds by rw [hpc]; trivial) hout
      | _ => trivial
  sleepers u hu := by
    show v = false ∧ w = true ∨ _
    by_cases hut : u = t
    · rw [hut, at_pc_self] at hu
      exact .inl (hasleep hu)
    · rw [at_pc_of_ne _ p hut] at hu
      have hbefore : s.value = false ∧ s.waiting = true ∨ (s.pc t).Wakes s.waiting := by
        rcases h.sleepers u hu with hmarked | ⟨x, hx⟩
        · exact .inl hmarked
        · exact .inr (h.alone hin hx.holds ▸ hx)
      rcases hwakes hbefore with hmarked | hp
      · exact .inl hmarked
      · refine .inr ⟨t, ?_⟩
        rw [at_pc_self]
        exact hp

/-- A thread that does not hold the lock changes nothing but the lock. -/
theorem Inv.outside (h : Inv s) (hout : ¬ (s.pc t).Holds) {p : Pc} {l : Option T}
    (hlock : SpinLock.Change t False p.Holds s.lock l)
    (hsees : p.Sees s.value s.waiting) (hasleep : p ≠ .asleep) :
    Inv ({ s with lock := l }.at t p) where
  lock := by
    refine h.lock.change (t := t) ?_ ?_
    · refine hlock.congr ⟨hout, False.elim⟩ ?_
      rw [at_pc_self]
    · intro u hu
      rw [at_pc_of_ne _ p hu]
  sees u := by
    by_cases hu : u = t
    · rw [hu, at_pc_self]
      exact hsees
    · rw [at_pc_of_ne _ p hu]
      exact h.sees u
  sleepers u hu := by
    by_cases hut : u = t
    · rw [hut, at_pc_self] at hu
      exact absurd hu hasleep
    · rw [at_pc_of_ne _ p hut] at hu
      rcases h.sleepers u hu with hmarked | ⟨x, hx⟩
      · exact .inl hmarked
      · have hxt : x ≠ t := by
          intro heq
          rw [heq] at hx
          exact hout hx.holds
        refine .inr ⟨x, ?_⟩
        rw [at_pc_of_ne _ p hxt]
        exact hx

omit [DecidableEq T] in
theorem wakeAll_pc (s : State T) (u : T) :
    s.wakeAll.pc u = if s.pc u = .asleep then .relock else s.pc u := rfl

omit [DecidableEq T] in
theorem wakeAll_holds (s : State T) (u : T) : (s.wakeAll.pc u).Holds ↔ (s.pc u).Holds := by
  rw [wakeAll_pc]
  split
  · rename_i hu
    rw [hu]
    exact Iff.rfl
  · exact Iff.rfl

omit [DecidableEq T] in
theorem wakeAll_sees (s : State T) (u : T) (h : (s.pc u).Sees s.value s.waiting) :
    (s.wakeAll.pc u).Sees s.value s.waiting := by
  rw [wakeAll_pc]
  split
  · trivial
  · exact h

omit [DecidableEq T] in
theorem wakeAll_not_asleep (s : State T) (u : T) : s.wakeAll.pc u ≠ .asleep := by
  rw [wakeAll_pc]
  split
  · exact Pc.noConfusion
  · assumption

omit [DecidableEq T] in
/-- With everybody woken, nobody has to be. -/
theorem Inv.wakeAll (h : Inv s) : Inv s.wakeAll where
  lock := h.lock.congr (wakeAll_holds s)
  sees u := wakeAll_sees s u (h.sees u)
  sleepers u hu := absurd hu (wakeAll_not_asleep s u)

theorem Inv.broadcast (h : Inv s) (hpc : s.pc t = .broadcast) :
    Inv (s.wakeAll.at t (.unlock 0)) where
  lock := by
    refine h.wakeAll.lock.change (t := t) (.keep ?_) ?_
    · rw [at_pc_self, wakeAll_holds, hpc]
      exact Iff.rfl
    · intro u hu
      rw [at_pc_of_ne _ _ hu]
  sees u := by
    by_cases hu : u = t
    · rw [hu, at_pc_self]
      trivial
    · rw [at_pc_of_ne _ _ hu]
      exact wakeAll_sees s u (h.sees u)
  sleepers u hu := by
    by_cases hut : u = t
    · rw [hut, at_pc_self] at hu
      exact Pc.noConfusion hu
    · rw [at_pc_of_ne _ _ hut] at hu
      exact absurd hu (wakeAll_not_asleep s u)

theorem inv_enter {o : Op} (h : Inv s) (hpc : s.pc t = .enter o) (hs : move s t = some s') :
    Inv s' := by
  have hin : (s.pc t).Holds := by
    rw [hpc]
    trivial
  have hkeep : SpinLock.Change t True True s.lock s.lock := .keep Iff.rfl
  have hnot : ¬ (s.pc t).Wakes s.waiting := by
    rw [hpc]
    exact id
  have hbefore : s.value = false ∧ s.waiting = true ∨ (s.pc t).Wakes s.waiting →
      s.value = false ∧ s.waiting = true := fun hb => hb.resolve_right hnot
  cases o with
  | trigger =>
    simp only [move, hpc, Option.some_inj] at hs
    subst hs
    cases hvalue : s.value with
    | true =>
      exact h.inside (p := .unlock 0) (v := s.value) (w := s.waiting) hin hkeep trivial
        Pc.noConfusion fun hb => .inl (hbefore hb)
    | false =>
      exact h.inside (p := .set) (v := s.value) (w := s.waiting) hin hkeep trivial
        Pc.noConfusion fun hb => .inl (hbefore hb)
  | await =>
    simp only [move, hpc, Option.some_inj] at hs
    subst hs
    cases hvalue : s.value with
    | true =>
      exact h.inside (p := .unlock 0) (v := s.value) (w := s.waiting) hin hkeep trivial
        Pc.noConfusion fun hb => .inl (hbefore hb)
    | false =>
      exact h.inside (p := .mark) (v := s.value) (w := s.waiting) hin hkeep hvalue
        Pc.noConfusion fun hb => .inl (hbefore hb)
  | query =>
    simp only [move, hpc, Option.some_inj] at hs
    subst hs
    exact h.inside (p := .unlock _) (v := s.value) (w := s.waiting) hin hkeep trivial
      Pc.noConfusion fun hb => .inl (hbefore hb)
  | reset =>
    simp only [move, hpc, Option.some_inj] at hs
    subst hs
    exact h.inside (p := .unlock 0) (w := s.waiting) hin hkeep trivial Pc.noConfusion
      fun hb => .inl ⟨rfl, (hbefore hb).2⟩

theorem inv_move (h : Inv s) (hs : move s t = some s') : Inv s' := by
  have hkeep : SpinLock.Change t True True s.lock s.lock := .keep Iff.rfl
  have hgive : SpinLock.Change t True False s.lock none := .release trivial id
  cases hpc : s.pc t with
  | enter op => exact inv_enter h hpc hs
  | idle => simp [move, hpc] at hs
  | asleep => simp [move, hpc] at hs
  | returning result => simp [move, hpc] at hs
  | lock op =>
    simp only [move, hpc] at hs
    obtain ⟨hfree, hs'⟩ := Option.ite_none_right_eq_some.mp hs
    obtain rfl := Option.some_inj.mp hs'
    refine h.outside (p := .enter op) (by rw [hpc]; exact id) ?_ trivial Pc.noConfusion
    rw [hfree]
    exact .acquire trivial
  | relock =>
    simp only [move, hpc] at hs
    obtain ⟨hfree, hs'⟩ := Option.ite_none_right_eq_some.mp hs
    obtain rfl := Option.some_inj.mp hs'
    refine h.outside (p := .enter .await) (by rw [hpc]; exact id) ?_ trivial Pc.noConfusion
    rw [hfree]
    exact .acquire trivial
  | set =>
    simp only [move, hpc, Option.some_inj] at hs
    subst hs
    refine h.inside (p := .waiting) (w := s.waiting) (by rw [hpc]; trivial) hkeep trivial
      Pc.noConfusion ?_
    rintro (hmarked | hwakes)
    · exact .inr hmarked.2
    · rw [hpc] at hwakes
      exact False.elim hwakes
  | waiting =>
    simp only [move, hpc, Option.some_inj] at hs
    subst hs
    cases hwaiting : s.waiting with
    | true =>
      exact h.inside (p := .clear) (v := s.value) (w := s.waiting) (by rw [hpc]; trivial) hkeep
        trivial Pc.noConfusion fun _ => .inr trivial
    | false =>
      refine h.inside (p := .unlock 0) (v := s.value) (w := s.waiting) (by rw [hpc]; trivial)
        hkeep trivial Pc.noConfusion ?_
      -- nobody is marked, so that nobody sleeps
      rintro (hmarked | hwakes)
      · exact .inl hmarked
      · rw [hpc, hwaiting] at hwakes
        exact absurd hwakes Bool.false_ne_true
  | clear =>
    simp only [move, hpc, Option.some_inj] at hs
    subst hs
    exact h.inside (p := .broadcast) (v := s.value) (by rw [hpc]; trivial) hkeep trivial
      Pc.noConfusion fun _ => .inr trivial
  | broadcast =>
    simp only [move, hpc, Option.some_inj] at hs
    subst hs
    exact h.broadcast hpc
  | mark =>
    simp only [move, hpc, Option.some_inj] at hs
    subst hs
    have hvalue : s.value = false := by
      have hsees := h.sees t
      rw [hpc] at hsees
      exact hsees
    refine h.inside (p := .wait) (v := s.value) (by rw [hpc]; trivial) hkeep ⟨hvalue, rfl⟩
      Pc.noConfusion fun _ => .inl ⟨hvalue, rfl⟩
  | wait =>
    simp only [move, hpc, Option.some_inj] at hs
    subst hs
    have hmarked : s.value = false ∧ s.waiting = true := by
      have hsees := h.sees t
      rw [hpc] at hsees
      exact hsees
    exact h.inside (p := .asleep) (v := s.value) (w := s.waiting) (by rw [hpc]; trivial) hgive
      trivial (fun _ => hmarked) fun _ => .inl hmarked
  | unlock result =>
    simp only [move, hpc, Option.some_inj] at hs
    subst hs
    refine h.inside (p := .returning result) (v := s.value) (w := s.waiting)
      (by rw [hpc]; trivial) hgive trivial Pc.noConfusion ?_
    rintro (hmarked | hwakes)
    · exact .inl hmarked
    · rw [hpc] at hwakes
      exact False.elim hwakes

theorem inv_step {a : Act T} (h : Inv s) (hs : step s a = some s') : Inv s' := by
  cases a with
  | move t => exact inv_move h hs
  | interrupt t => exact absurd hs (by simp [step])
  | call t op =>
    obtain ⟨hidle, hs'⟩ := Option.ite_none_right_eq_some.mp hs
    obtain rfl := Option.some_inj.mp hs'
    exact h.outside (p := .lock op) (l := s.lock) (by rw [hidle]; exact id) (.keep Iff.rfl)
      trivial Pc.noConfusion
  | wakeUp t =>
    obtain ⟨hasleep, hs'⟩ := Option.ite_none_right_eq_some.mp hs
    obtain rfl := Option.some_inj.mp hs'
    exact h.outside (p := .relock) (l := s.lock) (by rw [hasleep]; exact id) (.keep Iff.rfl)
      trivial Pc.noConfusion
  | ret t result =>
    obtain ⟨hdone, hs'⟩ := Option.ite_none_right_eq_some.mp hs
    obtain rfl := Option.some_inj.mp hs'
    exact h.outside (p := .idle) (l := s.lock) (by rw [hdone]; exact id) (.keep Iff.rfl)
      trivial Pc.noConfusion

/-- Each call takes effect at one moment, between its start and its return. -/
theorem simulation :
    Machine.Simulation (step (T := T)) ManualEvent.step Inv State.event effect where
  keeps _ _ _ h hs := inv_step h hs
  answers _ _ _ _ _ hs hb := by
    have hanswered := answered_step hs
    rw [hb] at hanswered
    exact hanswered
  stays _ _ _ _ hs hnone := by
    have hanswered := answered_step hs
    rw [hnone] at hanswered
    exact hanswered

omit [DecidableEq T] in
/-- The threads see of the event what they see of the fence. -/
theorem seen_effect (s : State T) (a : Act T) :
    (effect s a).bind ManualEvent.Act.seen = a.seen := by
  cases a with
  | call t op => rfl
  | wakeUp t => rfl
  | interrupt t => rfl
  | ret t result => rfl
  | move t =>
    rw [effect]
    cases s.pc t with
    | enter op =>
      cases op with
      | query => rfl
      | reset => rfl
      | trigger =>
        show (if s.value = true then some (ManualEvent.Act.effect t) else none).bind _ = none
        split
        · rfl
        · rfl
      | await =>
        show (if s.value = true then some (ManualEvent.Act.effect t) else none).bind _ = none
        split
        · rfl
        · rfl
    | _ => rfl

/-! ### A wait on a triggered fence -/

/-- With at most `k` steps of the thread that has the lock, the lock is free, the fence still
triggered, and `t` still waits. -/
def Frees (u t : T) (k : ℕ) (s : State T) : Prop :=
  ∃ (n : ℕ) (s' : State T), n ≤ k ∧ run step s (List.replicate n (.move u)) = some s' ∧
    s'.lock = none ∧ s'.value = true ∧ (s'.pc t).phase = .called .await

theorem Frees.of_step {k : ℕ} (hs : move s u = some s') (h : Frees u t k s') :
    Frees u t (k + 1) s := by
  obtain ⟨n, r, hn, hrun, hlast⟩ := h
  refine ⟨n + 1, r, by omega, ?_, hlast⟩
  rw [List.replicate_succ, run_cons]
  show (move s u).bind _ = _
  rw [hs]
  exact hrun

theorem Frees.mono {k l : ℕ} (h : Frees u t k s) (hle : k ≤ l) : Frees u t l s := by
  obtain ⟨n, r, hn, hlast⟩ := h
  exact ⟨n, r, by omega, hlast⟩

/-- A step of another thread leaves `t` waiting. -/
theorem waits_at {p : Pc} (hne : t ≠ u) (h : (s.pc t).phase = .called .await) :
    ((s.at u p).pc t).phase = .called .await := by
  rw [at_pc_of_ne s p hne]
  exact h

theorem frees_unlock {result : ℤ} (hpc : s.pc u = .unlock result) (hne : t ≠ u)
    (hv : s.value = true) (hcalled : (s.pc t).phase = .called .await) : Frees u t 1 s := by
  have hs : move s u = some ({ s with lock := none }.at u (.returning result)) := by
    rw [move, hpc]
  refine Frees.of_step hs ⟨0, _, Nat.le_refl 0, rfl, rfl, hv, ?_⟩
  exact waits_at (s := { s with lock := none }) hne hcalled

theorem frees_broadcast (hpc : s.pc u = .broadcast) (hne : t ≠ u) (hv : s.value = true)
    (hcalled : (s.pc t).phase = .called .await) : Frees u t 2 s := by
  have hs : move s u = some (s.wakeAll.at u (.unlock 0)) := by
    rw [move, hpc]
  refine Frees.of_step hs (frees_unlock (at_pc_self s.wakeAll u (.unlock 0)) hne hv ?_)
  refine waits_at (s := s.wakeAll) hne ?_
  rw [wakeAll_pc]
  split
  · rfl
  · exact hcalled

theorem frees_clear (hpc : s.pc u = .clear) (hne : t ≠ u) (hv : s.value = true)
    (hcalled : (s.pc t).phase = .called .await) : Frees u t 3 s := by
  have hs : move s u = some ({ s with waiting := false }.at u .broadcast) := by
    rw [move, hpc]
  exact Frees.of_step hs (frees_broadcast (at_pc_self _ u .broadcast) hne hv
    (waits_at (s := { s with waiting := false }) hne hcalled))

theorem frees_waiting (hpc : s.pc u = .waiting) (hne : t ≠ u) (hv : s.value = true)
    (hcalled : (s.pc t).phase = .called .await) : Frees u t 4 s := by
  have hs : move s u = some (s.at u (if s.waiting then .clear else .unlock 0)) := by
    rw [move, hpc]
  refine Frees.of_step hs ?_
  cases s.waiting with
  | true => exact frees_clear (at_pc_self s u .clear) hne hv (waits_at hne hcalled)
  | false =>
    exact (frees_unlock (at_pc_self s u (.unlock 0)) hne hv (waits_at hne hcalled)).mono
      (by omega)

/-- The thread that has the lock gives it back, or it is in a call of `reset`. -/
theorem frees (h : Inv s) (hu : (s.pc u).Holds) (hreset : s.pc u ≠ .enter .reset)
    (hne : t ≠ u) (hv : s.value = true) (hcalled : (s.pc t).phase = .called .await) :
    Frees u t 5 s := by
  have hunlock : ∀ result, move s u = some (s.at u (.unlock result)) → Frees u t 5 s := by
    intro result hs
    exact (Frees.of_step hs (frees_unlock (at_pc_self s u (.unlock result)) hne hv
      (waits_at hne hcalled))).mono (by omega)
  have hsees := h.sees u
  cases hpc : s.pc u with
  | idle => rw [hpc] at hu; exact False.elim hu
  | lock op => rw [hpc] at hu; exact False.elim hu
  | asleep => rw [hpc] at hu; exact False.elim hu
  | relock => rw [hpc] at hu; exact False.elim hu
  | returning result => rw [hpc] at hu; exact False.elim hu
  | mark =>
    rw [hpc] at hsees
    exact absurd (hsees.symm.trans hv) Bool.false_ne_true
  | wait =>
    rw [hpc] at hsees
    exact absurd (hsees.1.symm.trans hv) Bool.false_ne_true
  | unlock result => exact (frees_unlock hpc hne hv hcalled).mono (by omega)
  | broadcast => exact (frees_broadcast hpc hne hv hcalled).mono (by omega)
  | clear => exact (frees_clear hpc hne hv hcalled).mono (by omega)
  | waiting => exact (frees_waiting hpc hne hv hcalled).mono (by omega)
  | set =>
    have hs : move s u = some ({ s with value := true }.at u .waiting) := by
      rw [move, hpc]
    exact Frees.of_step hs (frees_waiting (at_pc_self _ u .waiting) hne rfl
      (waits_at (s := { s with value := true }) hne hcalled))
  | enter op =>
    cases op with
    | reset => exact absurd hpc hreset
    | trigger => exact hunlock 0 (by simp only [move, hpc, hv, if_true])
    | await => exact hunlock 0 (by simp only [move, hpc, hv, if_true])
    | query => exact hunlock 1 (by simp only [move, hpc, hv, if_true])

/-- A thread that waits and has the lock, or finds it free, finds the fence triggered. -/
theorem finishes_enter (hpc : s.pc t = .enter .await) (hv : s.value = true) :
    ∃ s', run step s [.move t, .move t] = some s' ∧ s'.pc t = .returning 0 := by
  have hs : step s (.move t) = some (s.at t (.unlock 0)) := by
    simp only [step, move, hpc, hv, if_true]
  have hs' : step (s.at t (.unlock 0)) (.move t) =
      some ({ s.at t (.unlock 0) with lock := none }.at t (.returning 0)) := by
    simp only [step, move, at_pc_self]
  have hrun : run step s [.move t, .move t] = step (s.at t (.unlock 0)) (.move t) := by
    rw [run_cons, hs, Option.bind_some, run_singleton]
  exact ⟨_, hrun.trans hs', at_pc_self _ t (.returning 0)⟩

theorem finishes_free (h : Inv s) (hfree : s.lock = none) (hv : s.value = true)
    (hcalled : (s.pc t).phase = .called .await) :
    ∃ s', run step s [.move t, .move t, .move t] = some s' ∧ s'.pc t = .returning 0 := by
  have hnobody : ∀ u, ¬ (s.pc u).Holds := fun u hu =>
    absurd (((h.lock u).mp hu).symm.trans hfree) (Option.some_ne_none u)
  have htake : ∀ op, move s t = some ({ s with lock := some t }.at t (.enter op)) → op = .await →
      ∃ s', run step s [.move t, .move t, .move t] = some s' ∧ s'.pc t = .returning 0 := by
    intro op hs hop
    subst hop
    obtain ⟨s', hrun, hdone⟩ := finishes_enter
      (s := { s with lock := some t }.at t (.enter .await)) (at_pc_self _ t _) hv
    refine ⟨s', ?_, hdone⟩
    rw [run_cons]
    show (move s t).bind _ = _
    rw [hs]
    exact hrun
  cases hpc : s.pc t with
  | lock op =>
    rw [hpc] at hcalled
    refine htake op ?_ (Phase.called.inj hcalled)
    simp only [move, hpc, hfree, if_true]
  | relock =>
    refine htake .await ?_ rfl
    simp only [move, hpc, hfree, if_true]
  | asleep =>
    -- nobody has the lock, so nobody is about to wake it, and the fence is not triggered
    rcases h.sleepers t hpc with hmarked | ⟨u, hu⟩
    · exact absurd (hmarked.1.symm.trans hv) Bool.false_ne_true
    · exact absurd hu.holds (hnobody u)
  | enter op => exact absurd (show (s.pc t).Holds by rw [hpc]; trivial) (hnobody t)
  | mark => exact absurd (show (s.pc t).Holds by rw [hpc]; trivial) (hnobody t)
  | wait => exact absurd (show (s.pc t).Holds by rw [hpc]; trivial) (hnobody t)
  | idle => rw [hpc] at hcalled; exact Phase.noConfusion hcalled
  | set => rw [hpc] at hcalled; cases hcalled
  | waiting => rw [hpc] at hcalled; exact Phase.noConfusion hcalled
  | clear => rw [hpc] at hcalled; exact Phase.noConfusion hcalled
  | broadcast => rw [hpc] at hcalled; exact Phase.noConfusion hcalled
  | unlock result => rw [hpc] at hcalled; exact Phase.noConfusion hcalled
  | returning result => rw [hpc] at hcalled; exact Phase.noConfusion hcalled

/-- A thread that waits for a triggered fence gets there with steps of the thread that has
the lock, and its own. -/
theorem finishes (h : Inv s) (hv : s.value = true) (hreset : ∀ u, s.pc u ≠ .enter .reset)
    (hcalled : (s.pc t).phase = .called .await) :
    ∃ (us : List T) (s' : State T), us.length ≤ 8 ∧ run step s (us.map .move) = some s' ∧
      s'.pc t = .returning 0 := by
  cases hlock : s.lock with
  | none =>
    obtain ⟨s', hrun, hdone⟩ := finishes_free h hlock hv hcalled
    exact ⟨[t, t, t], s', Nat.le_of_lt_succ (by simp), hrun, hdone⟩
  | some u =>
    have hu : (s.pc u).Holds := (h.lock u).mpr hlock
    by_cases hut : t = u
    · subst hut
      -- of those who wait only who looks at the value has the lock, unless it was not triggered
      have hsees := h.sees t
      have henter : s.pc t = .enter .await := by
        cases hpc : s.pc t with
        | enter op =>
          rw [hpc] at hcalled
          rw [Phase.called.inj hcalled]
        | mark =>
          rw [hpc] at hsees
          exact absurd (hsees.symm.trans hv) Bool.false_ne_true
        | wait =>
          rw [hpc] at hsees
          exact absurd (hsees.1.symm.trans hv) Bool.false_ne_true
        | set => rw [hpc] at hcalled; cases hcalled
        | waiting => rw [hpc] at hcalled; exact Phase.noConfusion hcalled
        | clear => rw [hpc] at hcalled; exact Phase.noConfusion hcalled
        | broadcast => rw [hpc] at hcalled; exact Phase.noConfusion hcalled
        | unlock result => rw [hpc] at hcalled; exact Phase.noConfusion hcalled
        | _ => rw [hpc] at hu; exact False.elim hu
      obtain ⟨s', hrun, hdone⟩ := finishes_enter henter hv
      exact ⟨[t, t], s', Nat.le_of_lt_succ (by simp), hrun, hdone⟩
    · obtain ⟨n, r, hn, hfrees, hfree, hvalue, hwaits⟩ := frees h hu (hreset u) hut hv hcalled
      have hinv : Inv r := simulation.invariant h hfrees
      obtain ⟨s', hrun, hdone⟩ := finishes_free hinv hfree hvalue hwaits
      refine ⟨List.replicate n u ++ [t, t, t], s', ?_, ?_, hdone⟩
      · rw [List.length_append, List.length_replicate, List.length_cons, List.length_cons,
          List.length_singleton]
        omega
      · rw [List.map_append, List.map_replicate, run_append_of_eq hfrees]
        exact hrun

end Lorie.Fence.Pthread
