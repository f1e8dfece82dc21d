/-
The media stream counter (`InitOutput.c`, `present_scmd.c`, `present.c`).

`current_msc` is counted up by every redraw and by every flip, a flip going no further
than the msc its client aimed at.  All times are unsigned 64-bit numbers, and
`msc_is_after` compares them by the sign of their difference.

A step is a request, one event of `loriePerformVblanks`, a vblank whose fence or GPU copy
is ready, or what a client does to its windows.  Each step executes one vblank at most;
one that is executed while another one completes is the step after it.

* `presentGetTargetMsc`, `presentScmdPixmap`, `presentExecute` — the code;
* `prepare`, `step` — what leads to an execution, and the execution;
* `msc_rises_iff` — when the counter does not run backwards.
-/
import KaliGui.Lib.Run
import Mathlib.Algebra.Group.Nat.Defs
import Mathlib.Data.Nat.Notation

namespace Lorie.PresentClock

open Machine

/-! ### State -/

/-- `present_vblank_rec` -/
structure Vblank where
  eventId : ℕ
  window : ℕ
  /-- it still has its pixmap -/
  pixmap : Bool
  targetMsc : UInt64
  execMsc : UInt64
  flip : Bool
  syncFlip : Bool
  waitFence : Option ℕ
  gpuCopyPending : Bool

/-- `struct vblank` of `InitOutput.c` -/
structure VblankEvent where
  id : ℕ
  msc : UInt64
  deriving DecidableEq

structure State where
  currentMsc : UInt64 := 0
  vblankQueue : List VblankEvent := []
  /-- the events that the loop of `loriePerformVblanks` has not looked at yet -/
  performing : List VblankEvent := []
  /-- `present_exec_queue` -/
  execQueue : List Vblank := []
  /-- the fences that are triggered -/
  triggered : List ℕ := []
  /-- `present_scmd_event_id` -/
  eventId : ℕ := 0
  /-- the values of the counter returned by `loriePresentGetUstMsc`, and reported for
  completed flips -/
  reported : List UInt64 := []

/-- What the code asks others about. -/
structure Env where
  /-- the `calloc` of `loriePresentQueueVblank` -/
  queues : Bool := true
  /-- `present_check_flip` -/
  checkFlip : Bool := false
  /-- `loriePresentFlip` -/
  flips : Bool := false
  /-- `lorieGpuCopyIsDone`, or `gpuCopyStalled` -/
  copyOver : Bool := false
  /-- `lorieTryScheduleGpuCopy` -/
  accepts : Bool := false

/-! ### The counter -/

def loriePresentGetUstMsc (s : State) : State :=
  { s with reported := s.reported ++ [s.currentMsc] }

def loriePresentQueueVblank (eventId : ℕ) (msc : UInt64) (s : State) : State :=
  { s with vblankQueue := ⟨eventId, msc⟩ :: s.vblankQueue }

/-- The counter after a flip. -/
def flippedMsc (currentMsc targetMsc : UInt64) : UInt64 :=
  if currentMsc + 1 < targetMsc then currentMsc + 1 else targetMsc

/-- `loriePresentAfterFlip`, and the `present_flip_notify` it leads to. -/
def loriePresentAfterFlip (targetMsc : UInt64) (s : State) : State :=
  { s with
    currentMsc := flippedMsc s.currentMsc targetMsc
    reported := s.reported ++ [flippedMsc s.currentMsc targetMsc] }

/-! ### Executing a vblank -/

/-- `present_fence_check_triggered` -/
def fenceTriggered (fence : Option ℕ) (s : State) : Bool :=
  match fence with
  | none => true
  | some f => s.triggered.contains f

/-- A vblank stays on the queue, with an event. -/
def requeue (v : Vblank) (msc : UInt64) (s : State) : State :=
  loriePresentQueueVblank v.eventId msc { s with execQueue := v :: s.execQueue }

/-- `present_execute_copy` -/
def presentExecuteCopy (env : Env) (v : Vblank) (crtcMsc : UInt64) (s : State) : State :=
  if v.execMsc = crtcMsc + 1 ∧ env.queues then requeue v v.execMsc s
  else if v.gpuCopyPending ∧ ¬ env.copyOver ∧ env.queues then requeue v (crtcMsc + 1) s
  else if v.gpuCopyPending then s
  else if env.accepts ∧ env.queues then requeue { v with gpuCopyPending := true } (crtcMsc + 1) s
  else s

/-- The vblank is flipped now: nothing makes it wait, and `present_flip` succeeds. -/
def FlipsNow (env : Env) (v : Vblank) (crtcMsc : UInt64) (s : State) : Prop :=
  ¬ (v.execMsc = crtcMsc + 1 ∧ env.queues = true) ∧ fenceTriggered v.waitFence s = true ∧
    v.pixmap = true ∧ v.flip = true ∧ env.flips = true

instance (env : Env) (v : Vblank) (crtcMsc : UInt64) (s : State) :
    Decidable (FlipsNow env v crtcMsc s) :=
  inferInstanceAs (Decidable (_ ∧ _ ∧ _ ∧ _ ∧ _))

/-- `present_execute` of a vblank on the queue, with `present_execute_wait`. -/
def presentExecute (env : Env) (v : Vblank) (crtcMsc : UInt64) (s : State) : State :=
  if v.execMsc = crtcMsc + 1 ∧ env.queues then loriePresentQueueVblank v.eventId v.execMsc s
  else if fenceTriggered v.waitFence s = false then s
  else
    let s := { s with execQueue := s.execQueue.filter (·.eventId ≠ v.eventId) }
    if v.pixmap then
      if v.flip ∧ env.flips then loriePresentAfterFlip v.targetMsc s
      else
        let v := if v.flip then { v with flip := false, execMsc := v.targetMsc } else v
        presentExecuteCopy env v crtcMsc s
    else s

/-! ### Requests -/

/-- `proc_present_pixmap`, or `proc_present_notify_msc` if there is no pixmap. -/
structure Request where
  window : ℕ
  pixmap : Bool
  /-- whether there is an update region -/
  update : Bool
  waitFence : Option ℕ
  /-- `PresentOptionAsync` and `PresentOptionCopy` -/
  async : Bool
  copy : Bool
  targetMsc : UInt64
  /-- `msc_offset` of the window -/
  mscOffset : UInt64
  divisor : UInt64
  remainder : UInt64

/-- `msc_is_after` -/
def mscIsAfter (test reference : UInt64) : Bool := 0 < (test - reference).toInt64

/-- `present_get_target_msc` -/
def presentGetTargetMsc (targetMscArg crtcMsc divisor remainder : UInt64) (async : Bool) :
    UInt64 :=
  if mscIsAfter targetMscArg crtcMsc then targetMscArg
  else if divisor = 0 then if async then crtcMsc else crtcMsc + 1
  else
    let targetMsc := crtcMsc - crtcMsc % divisor + remainder
    if mscIsAfter targetMsc crtcMsc then targetMsc
    else if ¬ async ∨ mscIsAfter crtcMsc targetMsc then targetMsc + divisor
    else targetMsc

def Request.target (r : Request) (crtcMsc : UInt64) : UInt64 :=
  presentGetTargetMsc (r.targetMsc + r.mscOffset) crtcMsc r.divisor r.remainder r.async

/-- `present_vblank_create`; the driver has no capability for asynchronous flips. -/
def presentVblankCreate (r : Request) (env : Env) (eventId : ℕ) (crtcMsc : UInt64) : Vblank :=
  let target := r.target crtcMsc
  let flip := r.pixmap && !r.copy && mscIsAfter target crtcMsc && env.checkFlip
  { eventId
    window := r.window
    pixmap := r.pixmap
    targetMsc := target
    execMsc := if flip then target - 1 else target
    flip
    syncFlip := flip
    waitFence := r.waitFence
    gpuCopyPending := false }

/-- The request overwrites a vblank of its window in the same frame. -/
def Request.Supersedes (r : Request) (crtcMsc : UInt64) (v : Vblank) : Prop :=
  (r.update = false ∧ r.pixmap = true) ∧ v.window = r.window ∧ v.pixmap = true ∧
    v.targetMsc = r.target crtcMsc

instance (r : Request) (crtcMsc : UInt64) (v : Vblank) : Decidable (r.Supersedes crtcMsc v) :=
  inferInstanceAs (Decidable (_ ∧ _))

/-- `present_vblank_scrap` -/
def Vblank.scrapped (v : Vblank) : Vblank :=
  { v with pixmap := false, flip := false, gpuCopyPending := false }

/-- A call of `present_execute`. -/
structure Call where
  env : Env
  vblank : Vblank
  crtcMsc : UInt64

/-- The vblank that `present_event_notify` executes, if there is one. -/
def presentEventNotify (env : Env) (eventId : ℕ) (msc : UInt64) (s : State) : Option Call :=
  (s.execQueue.find? (·.eventId = eventId)).map fun v => ⟨env, v, msc⟩

/-- `present_scmd_pixmap` up to `present_execute`, and whether that is called. -/
def presentScmdPixmap (r : Request) (env : Env) (s : State) : State × Option Call :=
  let crtcMsc := s.currentMsc
  let v := presentVblankCreate r env (s.eventId + 1) crtcMsc
  let s := loriePresentGetUstMsc s
  let s := { s with
    execQueue := (s.execQueue.map fun w =>
      if r.Supersedes crtcMsc w then w.scrapped else w) ++ [v]
    eventId := s.eventId + 1 }
  if mscIsAfter v.execMsc crtcMsc ∧ env.queues then
    (loriePresentQueueVblank v.eventId v.execMsc s, none)
  else (s, some ⟨env, v, crtcMsc⟩)

/-! ### Steps -/

inductive Act
  | request (r : Request) (env : Env)
  /-- `lorieRedraw` counts, and starts `loriePerformVblanks` -/
  | redraw
  /-- its loop looks at the next event -/
  | perform (env : Env)
  | triggerFence (fence : ℕ)
  /-- `present_re_execute`: a fence was triggered, a copy is over -/
  | reExecute (eventId : ℕ) (env : Env)
  | getUstMsc
  /-- `present_unflip`, with `loriePresentUnflip` -/
  | unflip (env : Env)
  /-- `present_check_flip_window`: which of the window's vblanks may still flip -/
  | checkFlipWindow (window : ℕ) (keeps : ℕ → Bool)
  /-- `present_free_window_vblank` -/
  | destroyWindow (window : ℕ)

/-- What happens before `present_execute`, and the call of it. -/
def prepare (s : State) : Act → Option (State × Option Call)
  | .request r env => some (presentScmdPixmap r env s)
  | .redraw =>
    match s.performing with
    | [] => some ({ s with currentMsc := s.currentMsc + 1, performing := s.vblankQueue }, none)
    | _ :: _ => none
  | .perform env =>
    match s.performing with
    | [] => none
    | e :: rest =>
      if e.msc ≤ s.currentMsc then
        some ({ s with performing := rest, vblankQueue := s.vblankQueue.erase e },
          presentEventNotify env e.id s.currentMsc s)
      else some ({ s with performing := rest }, none)
  | .triggerFence fence => some ({ s with triggered := fence :: s.triggered }, none)
  | .reExecute eventId env =>
    some (loriePresentGetUstMsc s, presentEventNotify env eventId s.currentMsc s)
  | .getUstMsc => some (loriePresentGetUstMsc s, none)
  | .unflip env =>
    some ({ s with eventId := s.eventId + 1 }, presentEventNotify env (s.eventId + 1) 0 s)
  | .checkFlipWindow window keeps =>
    some ({ s with
      execQueue := s.execQueue.map fun v =>
        if v.window = window ∧ v.flip ∧ ¬ keeps v.eventId then
          { v with flip := false, execMsc := if v.syncFlip then v.targetMsc else v.execMsc }
        else v }, none)
  | .destroyWindow window =>
    some ({ s with
      execQueue := s.execQueue.filter (·.window ≠ window)
      vblankQueue := s.vblankQueue.filter fun e =>
        (s.execQueue.filter (·.window = window)).all (·.eventId ≠ e.id) }, none)

/-- `present_execute`, if it is called. -/
def execute (s : State) (call : Option Call) : State :=
  match call with
  | none => s
  | some c => presentExecute c.env c.vblank c.crtcMsc s

def step (s : State) (a : Act) : Option State :=
  (prepare s a).map fun p => execute p.1 p.2

/-! ### The condition -/

/-- The step flips a vblank that aimed at `targetMsc`. -/
def FlipsTo (s : State) (a : Act) (targetMsc : UInt64) : Prop :=
  ∃ s' c, prepare s a = some (s', some c) ∧ FlipsNow c.env c.vblank c.crtcMsc s' ∧
    c.vblank.targetMsc = targetMsc

/-- No flip completes after the msc it aimed at, and the counter is not at its end when it
is counted up. -/
def InTime (s : State) (a : Act) : Prop :=
  (a = .redraw → s.currentMsc < s.currentMsc + 1) ∧
    ∀ targetMsc, FlipsTo s a targetMsc →
      s.currentMsc < s.currentMsc + 1 ∧ s.currentMsc ≤ targetMsc

/-- The counter is not lower after the step. -/
def Rises (s : State) (a : Act) : Prop :=
  ∀ s', step s a = some s' → s.currentMsc ≤ s'.currentMsc

/-- Only a redraw or a flip counts, and by one at most. -/
def AtMostOne (s : State) (a : Act) : Prop :=
  ∀ s', step s a = some s' →
    s'.currentMsc.toNat ≤ s.currentMsc.toNat + 1 ∧
      (a ≠ .redraw → (∀ targetMsc, ¬ FlipsTo s a targetMsc) → s'.currentMsc = s.currentMsc)

/-! ### What the counter does -/

variable {s s' : State} {a : Act} {env : Env} {v : Vblank} {crtcMsc : UInt64}

theorem succ_toNat (c : UInt64) : (c + 1).toNat = (c.toNat + 1) % 2 ^ 64 := UInt64.toNat_add c 1

/-- A flip does not take the counter back exactly when its target is not past, and the
counter is not at its end. -/
theorem le_flippedMsc_iff (c target : UInt64) :
    c ≤ flippedMsc c target ↔ c < c + 1 ∧ c ≤ target := by
  have hc : c.toNat < 2 ^ 64 := c.toNat_lt
  have htarget : target.toNat < 2 ^ 64 := target.toNat_lt
  rw [flippedMsc]
  -- as numbers: the sum wraps at the counter's end
  split
  · rename_i hlt
    rw [UInt64.lt_iff_toNat_lt, succ_toNat] at hlt
    simp only [UInt64.le_iff_toNat_le, UInt64.lt_iff_toNat_lt, succ_toNat]
    omega
  · rename_i hle
    rw [UInt64.lt_iff_toNat_lt, succ_toNat] at hle
    simp only [UInt64.le_iff_toNat_le, UInt64.lt_iff_toNat_lt, succ_toNat]
    omega

theorem flippedMsc_le (c target : UInt64) : (flippedMsc c target).toNat ≤ c.toNat + 1 := by
  rw [flippedMsc]
  split
  · rw [succ_toNat]
    exact Nat.mod_le _ _
  · rename_i hle
    rw [UInt64.lt_iff_toNat_lt, succ_toNat] at hle
    have hmod := Nat.mod_le (c.toNat + 1) (2 ^ 64)
    omega

theorem requeue_currentMsc (v : Vblank) (msc : UInt64) (s : State) :
    (requeue v msc s).currentMsc = s.currentMsc := rfl

theorem requeue_reported (v : Vblank) (msc : UInt64) (s : State) :
    (requeue v msc s).reported = s.reported := rfl

theorem presentExecuteCopy_counter (env : Env) (v : Vblank) (crtcMsc : UInt64) (s : State) :
    (presentExecuteCopy env v crtcMsc s).currentMsc = s.currentMsc ∧
      (presentExecuteCopy env v crtcMsc s).reported = s.reported := by
  rw [presentExecuteCopy]
  split
  · exact ⟨requeue_currentMsc .., requeue_reported ..⟩
  split
  · exact ⟨requeue_currentMsc .., requeue_reported ..⟩
  split
  · exact ⟨rfl, rfl⟩
  split
  · exact ⟨requeue_currentMsc .., requeue_reported ..⟩
  · exact ⟨rfl, rfl⟩

/-- A vblank that is flipped now counts, and reports. -/
theorem presentExecute_of_flips (h : FlipsNow env v crtcMsc s) :
    (presentExecute env v crtcMsc s).currentMsc = flippedMsc s.currentMsc v.targetMsc ∧
      (presentExecute env v crtcMsc s).reported =
        s.reported ++ [flippedMsc s.currentMsc v.targetMsc] := by
  obtain ⟨hwait, hfence, hpixmap, hflip⟩ := h
  have hfence' : ¬ fenceTriggered v.waitFence s = false := by
    rw [hfence]
    exact Bool.noConfusion
  rw [presentExecute, if_neg hwait, if_neg hfence', if_pos hpixmap, if_pos hflip]
  exact ⟨rfl, rfl⟩

/-- One that is not, does neither. -/
theorem presentExecute_of_not_flips (h : ¬ FlipsNow env v crtcMsc s) :
    (presentExecute env v crtcMsc s).currentMsc = s.currentMsc ∧
      (presentExecute env v crtcMsc s).reported = s.reported := by
  rw [presentExecute]
  split
  · exact ⟨rfl, rfl⟩
  rename_i hwait
  split
  · exact ⟨rfl, rfl⟩
  rename_i hfence
  dsimp only
  split
  · rename_i hpixmap
    split
    · rename_i hflip
      exact absurd ⟨hwait, eq_true_of_ne_false hfence, hpixmap, hflip⟩ h
    · exact presentExecuteCopy_counter ..
  · exact ⟨rfl, rfl⟩

/-- What comes before an execution: only a redraw counts, and a value that is returned is
the counter's. -/
theorem prepare_counter {call : Option Call} (h : prepare s a = some (s', call)) :
    (a = .redraw → s'.currentMsc = s.currentMsc + 1 ∧ call = none ∧ s'.reported = s.reported) ∧
      (a ≠ .redraw → s'.currentMsc = s.currentMsc ∧
        (s'.reported = s.reported ∨ s'.reported = s.reported ++ [s.currentMsc])) := by
  cases a with
  | request r env =>
    -- the clock is read first, whether the vblank is then queued or executed
    refine ⟨Act.noConfusion, fun _ => ?_⟩
    simp only [prepare, presentScmdPixmap] at h
    split at h
    · cases h
      exact ⟨rfl, .inr rfl⟩
    · cases h
      exact ⟨rfl, .inr rfl⟩
  | redraw =>
    refine ⟨fun _ => ?_, fun hne => absurd rfl hne⟩
    simp only [prepare] at h
    split at h
    · cases h
      exact ⟨rfl, rfl, rfl⟩
    · cases h
  | perform env =>
    refine ⟨Act.noConfusion, fun _ => ?_⟩
    simp only [prepare] at h
    split at h
    · cases h
    split at h
    · cases h
      exact ⟨rfl, .inl rfl⟩
    · cases h
      exact ⟨rfl, .inl rfl⟩
  | triggerFence fence =>
    cases h
    exact ⟨Act.noConfusion, fun _ => ⟨rfl, .inl rfl⟩⟩
  | reExecute eventId env =>
    cases h
    exact ⟨Act.noConfusion, fun _ => ⟨rfl, .inr rfl⟩⟩
  | getUstMsc =>
    cases h
    exact ⟨Act.noConfusion, fun _ => ⟨rfl, .inr rfl⟩⟩
  | unflip env =>
    cases h
    exact ⟨Act.noConfusion, fun _ => ⟨rfl, .inl rfl⟩⟩
  | checkFlipWindow window keeps =>
    cases h
    exact ⟨Act.noConfusion, fun _ => ⟨rfl, .inl rfl⟩⟩
  | destroyWindow window =>
    cases h
    exact ⟨Act.noConfusion, fun _ => ⟨rfl, .inl rfl⟩⟩

/-- What one step does to the counter, and what it reports: a redraw counts, a flip
counts and reports, and nothing else does. -/
theorem step_counter (h : step s a = some s') :
    (a = .redraw ∧ s'.currentMsc = s.currentMsc + 1 ∧ s'.reported = s.reported ∧
        ∀ targetMsc, ¬ FlipsTo s a targetMsc) ∨
      (a ≠ .redraw ∧ ∃ before,
        (before = s.reported ∨ before = s.reported ++ [s.currentMsc]) ∧
        ((∃ targetMsc, FlipsTo s a targetMsc ∧
            (∀ other, FlipsTo s a other → other = targetMsc) ∧
            s'.currentMsc = flippedMsc s.currentMsc targetMsc ∧
            s'.reported = before ++ [s'.currentMsc]) ∨
          ((∀ targetMsc, ¬ FlipsTo s a targetMsc) ∧ s'.currentMsc = s.currentMsc ∧
            s'.reported = before))) := by
  obtain ⟨⟨s₁, call⟩, hprepare, rfl⟩ := Option.map_eq_some_iff.mp h
  obtain ⟨hredraw, hother⟩ := prepare_counter hprepare
  by_cases ha : a = .redraw
  · -- a redraw executes no vblank, so it flips none
    obtain ⟨hmsc, rfl, hreported⟩ := hredraw ha
    refine .inl ⟨ha, hmsc, hreported, ?_⟩
    rintro targetMsc ⟨s₂, c, hprepare', -⟩
    rw [hprepare] at hprepare'
    cases hprepare'
  obtain ⟨hmsc, hreported⟩ := hother ha
  refine .inr ⟨ha, s₁.reported, hreported, ?_⟩
  cases call with
  | none =>
    refine .inr ⟨?_, hmsc, rfl⟩
    rintro targetMsc ⟨s₂, c, hprepare', -⟩
    rw [hprepare] at hprepare'
    cases hprepare'
  | some c =>
    -- the only call of the step, so it decides what the step flips
    by_cases hflips : FlipsNow c.env c.vblank c.crtcMsc s₁
    · obtain ⟨hmsc', hreported'⟩ := presentExecute_of_flips hflips
      rw [hmsc] at hmsc' hreported'
      refine .inl ⟨c.vblank.targetMsc, ⟨s₁, c, hprepare, hflips, rfl⟩, ?_, hmsc', ?_⟩
      · rintro other ⟨s₂, c', hprepare', -, rfl⟩
        rw [hprepare] at hprepare'
        cases hprepare'
        rfl
      · exact hreported'.trans (by rw [← hmsc']; rfl)
    · obtain ⟨hmsc', hreported'⟩ := presentExecute_of_not_flips hflips
      refine .inr ⟨?_, hmsc'.trans hmsc, hreported'⟩
      rintro targetMsc ⟨s₂, c', hprepare', hflips', -⟩
      rw [hprepare] at hprepare'
      cases hprepare'
      exact hflips hflips'

/-! ### When it does not run backwards -/

theorem rises_iff_inTime (h : step s a = some s') : InTime s a ↔ Rises s a := by
  have hrises : Rises s a ↔ s.currentMsc ≤ s'.currentMsc := by
    constructor
    · exact fun hrises => hrises s' h
    · intro hle s'' h'
      obtain rfl : s' = s'' := Option.some_inj.mp (h.symm.trans h')
      exact hle
  rw [hrises, InTime]
  rcases step_counter h with ⟨rfl, hmsc, -, hno⟩ | ⟨ha, before, -, hcase⟩
  · rw [hmsc]
    constructor
    · rintro ⟨hredraw, -⟩
      exact UInt64.le_of_lt (hredraw rfl)
    · -- a counter that does not fall has not wrapped
      intro hle
      refine ⟨fun _ => ?_, fun targetMsc hflips => absurd hflips (hno targetMsc)⟩
      have hlt : s.currentMsc.toNat < 2 ^ 64 := s.currentMsc.toNat_lt
      rw [UInt64.le_iff_toNat_le, succ_toNat] at hle
      rw [UInt64.lt_iff_toNat_lt, succ_toNat]
      omega
  · rcases hcase with ⟨targetMsc, hflips, hunique, hmsc, -⟩ | ⟨hno, hmsc, -⟩
    · rw [hmsc, le_flippedMsc_iff]
      constructor
      · exact fun hok => hok.2 targetMsc hflips
      · intro hok
        refine ⟨fun hredraw => absurd hredraw ha, fun other hother => ?_⟩
        rw [hunique other hother]
        exact hok
    · rw [hmsc]
      refine ⟨fun _ => UInt64.le_refl _, fun _ => ?_⟩
      exact ⟨fun hredraw => absurd hredraw ha,
        fun targetMsc hflips => absurd hflips (hno targetMsc)⟩

theorem atMostOne (s : State) (a : Act) : AtMostOne s a := by
  intro s' h
  rcases step_counter h with ⟨rfl, hmsc, -, -⟩ | ⟨ha, before, -, hcase⟩
  · refine ⟨?_, fun hne => absurd rfl hne⟩
    rw [hmsc, succ_toNat]
    exact Nat.mod_le _ _
  · rcases hcase with ⟨targetMsc, hflips, -, hmsc, -⟩ | ⟨-, hmsc, -⟩
    · rw [hmsc]
      exact ⟨flippedMsc_le .., fun _ hno => absurd hflips (hno targetMsc)⟩
    · rw [hmsc]
      exact ⟨Nat.le_succ _, fun _ _ => rfl⟩

/-- What was reported is in order, and not above the counter. -/
structure Ordered (s : State) : Prop where
  sorted : s.reported.Pairwise (· ≤ ·)
  le : ∀ msc ∈ s.reported, msc ≤ s.currentMsc

theorem Ordered.snoc (h : Ordered s) :
    (s.reported ++ [s.currentMsc]).Pairwise (· ≤ ·) ∧
      ∀ msc ∈ s.reported ++ [s.currentMsc], msc ≤ s.currentMsc := by
  constructor
  · refine List.pairwise_append.mpr ⟨h.sorted, List.pairwise_singleton _ _, fun msc hmsc m hm => ?_⟩
    rw [List.mem_singleton.mp hm]
    exact h.le msc hmsc
  · intro msc hmsc
    rcases List.mem_append.mp hmsc with hmsc | hmsc
    · exact h.le msc hmsc
    · rw [List.mem_singleton.mp hmsc]
      exact UInt64.le_refl _

theorem Ordered.step (h : Ordered s) (hok : InTime s a) (hstep : step s a = some s') :
    Ordered s' := by
  have hrises : s.currentMsc ≤ s'.currentMsc := (rises_iff_inTime hstep).mp hok s' hstep
  have hup {l : List UInt64} (hl : ∀ msc ∈ l, msc ≤ s.currentMsc) :
      ∀ msc ∈ l, msc ≤ s'.currentMsc := fun msc hmsc => UInt64.le_trans (hl msc hmsc) hrises
  rcases step_counter hstep with ⟨-, -, hreported, -⟩ | ⟨-, before, hbefore, hcase⟩
  · exact ⟨hreported ▸ h.sorted, hreported ▸ hup h.le⟩
  -- What is returned before the vblank is executed comes before what its flip reports.
  have hordered : before.Pairwise (· ≤ ·) ∧ ∀ msc ∈ before, msc ≤ s.currentMsc := by
    rcases hbefore with rfl | rfl
    · exact ⟨h.sorted, h.le⟩
    · exact h.snoc
  rcases hcase with ⟨targetMsc, -, -, -, hreported⟩ | ⟨-, -, hreported⟩
  · have hmiddle : Ordered { s' with reported := before } := ⟨hordered.1, hup hordered.2⟩
    exact ⟨hreported ▸ hmiddle.snoc.1, hreported ▸ hmiddle.snoc.2⟩
  · exact ⟨hreported ▸ hordered.1, hreported ▸ hup hordered.2⟩

/-- In any run the counter never falls if and only if each flip completes in time, and then
the values returned and reported never decrease; no redraw or flip counts by more than
one, in any run. -/
theorem msc_rises_iff {as : List Act} (hrun : run step {} as = some s) :
    (Meets step Rises {} as ↔ Meets step InTime {} as) ∧
      (Meets step InTime {} as → s.reported.Pairwise (· ≤ ·)) ∧ Meets step AtMostOne {} as := by
  refine ⟨(meets_congr (fun _ _ _ => rises_iff_inTime) hrun).symm, fun hok => ?_, ?_⟩
  · have hinitial : Ordered {} := ⟨.nil, fun msc hmsc => absurd hmsc List.not_mem_nil⟩
    exact (run_invariant (fun _ _ _ h hok => h.step hok) hinitial hok hrun).sorted
  · exact meets_of_forall atMostOne {} as

/-- A request for the next msc whose fence is triggered in time. -/
def fenceInTime : List Act :=
  [.request ⟨0, true, false, some 7, false, false, 0, 0, 0, 0⟩ { checkFlip := true },
   .triggerFence 7, .reExecute 1 { flips := true }, .redraw, .getUstMsc]

theorem rises_of_eq (h : step s a = some s') (hle : s.currentMsc ≤ s'.currentMsc) : Rises s a := by
  intro s'' h'
  obtain rfl : s' = s'' := Option.some_inj.mp (h.symm.trans h')
  exact hle

theorem fenceInTime_rises :
    ∃ s, run step {} fenceInTime = some s ∧ Meets step InTime {} fenceInTime ∧
      s.reported.Pairwise (· ≤ ·) := by
  obtain ⟨hiff, hsorted, -⟩ := msc_rises_iff (show run step {} fenceInTime = some _ from rfl)
  have hrises : Meets step Rises {} fenceInTime :=
    meets_cons_of_eq rfl (rises_of_eq rfl (by decide)) <|
    meets_cons_of_eq rfl (rises_of_eq rfl (by decide)) <|
    meets_cons_of_eq rfl (rises_of_eq rfl (by decide)) <|
    meets_cons_of_eq rfl (rises_of_eq rfl (by decide)) <|
    meets_cons_of_eq rfl (rises_of_eq rfl (by decide)) (meets_nil _)
  exact ⟨_, rfl, hiff.mp hrises, hsorted (hiff.mp hrises)⟩

/-- The same request, its fence triggered three redraws later. -/
def fenceLate : List Act :=
  [.request ⟨0, true, false, some 7, false, false, 0, 0, 0, 0⟩ { checkFlip := true },
   .redraw, .redraw, .redraw, .triggerFence 7, .reExecute 1 { flips := true }]

/-- The flip takes the counter from 3 back to the 1 it aimed at. -/
theorem msc_falls :
    ∃ s, run step {} fenceLate = some s ∧ s.reported = [0, 3, 1] ∧
      ¬ s.reported.Pairwise (· ≤ ·) := by
  refine ⟨_, rfl, rfl, ?_⟩
  decide

end Lorie.PresentClock
