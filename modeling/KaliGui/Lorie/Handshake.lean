/-
How the activity hands windows and states to the renderer's thread (`renderer.cpp`, lines 224
to 287, 321 to 332, 529 to 541, 582 to 612, 631 to 679 and 1090 to 1158).

The activity's thread writes what is to change with `stateLock` held, signals the renderer's
thread, and waits on a second condition until it has been taken over; then the window that was
there before can be destroyed.  The renderer's thread waits with the lock in between.  Others
signal it too: the X server, which does not have the lock, and whoever adds a buffer.

What is done in one piece with the lock held is one step here, but for the moment between
the last look at the changes and the wait, at which a signal is lost.  The renderer's thread
enters its loop without the lock, so that nothing keeps the activity's thread out of that
moment the first time; and it may not get to the loop at all.

* `Call.enter`, `changed` — the activity's calls;
* `initThread`, `workerStep` — the renderer's thread;
* `step` — both, the signals of others and spurious wake-ups, in any order;
* `AfterStart` — the activity's calls come after the first wait;
* `Inv`, `inv_step` — then a change is never slept through;
* `returned_taken` — when a call has returned, the renderer's thread uses what it was given;
* `calls_return` — and every call returns;
* `givenTooEarly_hangs`, `givenToNobody_hangs` — what may come of a call before that.
-/
import KaliGui.Lorie.RenderLoop

namespace Lorie.Handshake

open Machine RenderLoop
open Surface (Window Env takenWindow)

/-! ### State -/

inductive Change
  | window
  | state
  deriving DecidableEq, Repr

/-- The calls of the activity's thread. -/
inductive Call
  | setWindow (newWin : Option Window)
  | setSharedState (newState : Option Shared)
  | setViewport (ew eh : ℕ)
  /-- `setZoom`, `setZoomAnchor` and `clearZoomAnchor`; the zoom does not matter here -/
  | setZoom
  | destroy

/-- Where the activity's thread is. -/
inductive CallerPc
  | idle
  /-- before `pthread_mutex_lock` -/
  | entering (c : Call)
  /-- in `pthread_cond_wait` on `stateChangeFinishCond` -/
  | waiting (c : Change)
  /-- woken up there, without the lock -/
  | woken (c : Change)
  /-- in `pthread_join` -/
  | joining
  /-- after that -/
  | destroyed

/-- Where the renderer's thread is. -/
inductive WorkerPc
  /-- in `initThread` -/
  | starting
  /-- in its loop for the first time and without the lock, before it looks for changes -/
  | firstLook
  /-- without the lock, before its first `pthread_cond_wait` -/
  | firstWait
  /-- before `pthread_mutex_lock`, or woken up without the lock -/
  | locking
  /-- with the lock, before it looks for changes -/
  | checking
  /-- with the lock, before `pthread_cond_wait` -/
  | aboutToWait
  /-- in `pthread_cond_wait` on `stateCond` -/
  | waiting
  /-- after `pthread_mutex_unlock` -/
  | drawing
  /-- out of the loop, or never in it -/
  | ended
  deriving DecidableEq, Repr

structure State where
  renderer : Renderer
  caller : CallerPc := .idle
  worker : WorkerPc := .starting
  /-- there is an EGL context, which is what `destroy` asks for -/
  ctx : Bool := false
  /-- what `setWindow` and `setSharedState` were called with last -/
  givenWin : Option Window := none
  givenState : Bool := false

/-- Nobody has `stateLock`. -/
def WorkerPc.Unlocked (pc : WorkerPc) : Prop := pc ≠ .checking ∧ pc ≠ .aboutToWait

instance (pc : WorkerPc) : Decidable pc.Unlocked := inferInstanceAs (Decidable (_ ∧ _))

/-- The thread has not waited for the first time yet. -/
def WorkerPc.early : WorkerPc → Bool
  | .starting => true
  | .firstLook => true
  | .firstWait => true
  | _ => false

/-- A signal on `stateCond`. -/
def WorkerPc.signal (pc : WorkerPc) : WorkerPc := if pc = .waiting then .locking else pc

/-- A signal on `stateChangeFinishCond`. -/
def CallerPc.signal : CallerPc → CallerPc
  | .waiting c => .woken c
  | pc => pc

/-! ### The activity's thread -/

/-- The variable that the caller waits for. -/
def changed (r : Renderer) : Change → Bool
  | .window => r.windowChanged
  | .state => r.stateChanged

/-- Something is to be drawn anew. -/
def redraw (r : Renderer) : Renderer := r.update fun s => { s with drawRequested := true }

/-- A call from `pthread_mutex_lock` to where it returns or waits. -/
def Call.enter (s : State) : Call → State
  | .setWindow newWin =>
    if newWin.isSome ∧ s.renderer.pendingWin = newWin then { s with caller := .idle }
    else { s with
      renderer := { s.renderer with
        pendingWin := newWin, expectedW := 0, expectedH := 0, windowChanged := true }
      caller := .waiting .window
      worker := s.worker.signal
      givenWin := newWin }
  | .setSharedState newState => { s with
      renderer := { s.renderer with pendingState := newState, stateChanged := true }
      caller := .waiting .state
      worker := s.worker.signal
      givenState := newState.isSome }
  | .setViewport ew eh => { s with
      renderer := redraw { s.renderer with
        expectedW := ew, expectedH := eh, viewportChanged := true }
      caller := .idle
      worker := s.worker.signal }
  | .setZoom => { s with
      renderer := redraw s.renderer, caller := .idle, worker := s.worker.signal }
  | .destroy =>
    if s.ctx then { s with
      renderer := { s.renderer with stopping := true }
      caller := .joining
      worker := s.worker.signal }
    else { s with caller := .idle }

def callerStep (s : State) : Option State :=
  match s.caller with
  | .entering c => if s.worker.Unlocked then some (c.enter s) else none
  | .woken c =>
    if s.worker.Unlocked then
      some { s with caller := if changed s.renderer c then .waiting c else .idle }
    else none
  | .joining =>
    if s.worker = .ended then some { s with caller := .destroyed, ctx := false } else none
  | _ => none

/-! ### The renderer's thread -/

/-- How far `initThread` gets. -/
inductive InitResult
  /-- the thread is not attached to the JVM -/
  | notAttached
  /-- no display, no configuration or no context -/
  | noContext
  /-- no window to keep the context current on -/
  | noDefaultWindow
  /-- `threadLoop` -/
  | loops
  deriving DecidableEq, Repr

/-- `xorg_list_init` of the three lists. -/
def initLists (r : Renderer) : Renderer := { r with lists := ⟨[], [], []⟩ }

/-- `initThread` up to `threadLoop`. -/
def initThread (s : State) : InitResult → State
  | .notAttached => { s with worker := .ended }
  | .noContext => { s with renderer := initLists s.renderer, worker := .ended }
  | .noDefaultWindow =>
    { s with renderer := initLists s.renderer, ctx := true, worker := .ended }
  | .loops => { s with renderer := initLists s.renderer, ctx := true, worker := .firstLook }

/-- `threadLoop` from its look at `stopping` to `pthread_cond_wait`, where it is `sleepy`, or to
`pthread_mutex_unlock`. -/
def look (env : Env) (sleepy : WorkerPc) (s : State) : State :=
  if s.renderer.stopping then { s with worker := .ended }
  else
    match shouldWait s.renderer with
    | (r, true) => { s with renderer := r, worker := sleepy }
    | (r, false) => { s with
        renderer := takeOver env r, caller := s.caller.signal, worker := .drawing }

def workerStep (env : Env) (s : State) : Option State :=
  match s.worker with
  | .starting => none
  | .firstLook => some (look env .firstWait s)
  | .firstWait => some { s with worker := .waiting }
  | .locking => some { s with worker := .checking }
  | .checking => some (look env .aboutToWait s)
  | .aboutToWait => some { s with worker := .waiting }
  | .waiting => none
  | .drawing => some { s with renderer := releaseRemoved (draw s.renderer), worker := .locking }
  | .ended => none

/-! ### Steps -/

inductive Act
  | initThread (result : InitResult)
  | call (c : Call)
  | caller
  | worker (env : Env)
  /-- the X server signals `stateCond`, or a spurious wake-up -/
  | signal
  /-- a spurious wake-up of the activity's thread -/
  | callerWakes
  /-- `addBuffer`, of the activity's thread -/
  | addBuffer (b : Buffer)
  /-- the X server writes to the shared memory -/
  | server (f : Shared → Shared)

def step (s : State) : Act → Option State
  | .initThread result =>
    if s.worker = .starting then some (Handshake.initThread s result) else none
  | .call c => match s.caller with
    | .idle => some { s with caller := .entering c }
    | _ => none
  | .caller => callerStep s
  | .worker env => workerStep env s
  | .signal => some { s with worker := s.worker.signal }
  | .callerWakes => some { s with caller := s.caller.signal }
  | .addBuffer b => match s.caller with
    | .idle => some { s with
        renderer := { s.renderer with
          lists := { s.renderer.lists with addedBuffers := b :: s.renderer.lists.addedBuffers } }
        worker := s.worker.signal }
    | _ => none
  | .server f => some { s with renderer := s.renderer.update f }

/-- The renderer's thread was just created, and has no window of the activity's and no state. -/
def initial (r : Renderer) : State where
  renderer := { r with
    stopping := false, stateChanged := false, windowChanged := false
    state := none, pendingState := none, win := .default, pendingWin := none }

/-- The renderer's thread gets to its loop, and the activity's thread calls nothing before it has
waited there once.  The code sees to neither. -/
def AfterStart (s : State) : Act → Prop
  | .initThread result => result = .loops
  | .call _ => s.worker.early = false
  | .addBuffer _ => s.worker.early = false
  | _ => True

instance (s : State) : ∀ a, Decidable (AfterStart s a)
  | .initThread result => inferInstanceAs (Decidable (result = .loops))
  | .call _ => inferInstanceAs (Decidable (s.worker.early = false))
  | .addBuffer _ => inferInstanceAs (Decidable (s.worker.early = false))
  | .caller => .isTrue trivial
  | .worker _ => .isTrue trivial
  | .signal => .isTrue trivial
  | .callerWakes => .isTrue trivial
  | .server _ => .isTrue trivial

/-! ### What holds in every state -/

/-- There is something that the renderer's thread must not sleep through. -/
def Urgent (r : Renderer) : Prop :=
  r.windowChanged = true ∨ r.stateChanged = true ∨ r.stopping = true

/-- What a call waits for, woken up or not. -/
def CallerPc.awaits : CallerPc → Option Change
  | .waiting c => some c
  | .woken c => some c
  | _ => none

/-- After `stopping` was set. -/
def CallerPc.stopped : CallerPc → Bool
  | .joining => true
  | .destroyed => true
  | _ => false

/-- The thread looks for changes, with the lock, before it sleeps. -/
def WorkerPc.awake : WorkerPc → Bool
  | .locking => true
  | .checking => true
  | .drawing => true
  | .ended => true
  | _ => false

structure Inv (s : State) : Prop where
  awake : Urgent s.renderer → s.worker.awake = true
  early : s.worker.early = true → s.caller = .idle
  waits : ∀ c, s.caller = .waiting c → changed s.renderer c = true
  /-- nothing changes but what the caller waits for -/
  asked : ∀ c, changed s.renderer c = true → s.caller.awaits = some c
  stopping : s.renderer.stopping = s.caller.stopped
  ended : s.worker = .ended → s.renderer.stopping = true
  pendingWin : s.renderer.pendingWin = if s.renderer.windowChanged then s.givenWin else none
  win : s.renderer.windowChanged = false →
    s.renderer.win = .default ∨ s.givenWin = some s.renderer.win
  pendingState : s.renderer.stateChanged = true →
    s.renderer.pendingState.isSome = s.givenState
  state : s.renderer.stateChanged = false → s.renderer.state.isSome = s.givenState

variable {s s' : State} {r r' : Renderer} {env : Env} {c : Change}

theorem not_urgent_initial (r : Renderer) : ¬Urgent (initial r).renderer := by
  rintro (hwindow | hstate | hstopping)
  · exact absurd hwindow Bool.false_ne_true
  · exact absurd hstate Bool.false_ne_true
  · exact absurd hstopping Bool.false_ne_true

theorem inv_initial (r : Renderer) : Inv (initial r) where
  awake hurgent := absurd hurgent (not_urgent_initial r)
  early _ := rfl
  waits _ h := CallerPc.noConfusion h
  asked c h := by
    cases c with
    | window => exact absurd h Bool.false_ne_true
    | state => exact absurd h Bool.false_ne_true
  stopping := rfl
  ended h := WorkerPc.noConfusion h
  pendingWin := rfl
  win _ := .inl rfl
  pendingState h := absurd h Bool.false_ne_true
  state _ := rfl

/-! ### What drawing leaves alone -/

/-- The renderer is the same as far as the calls go. -/
structure SameCalls (r r' : Renderer) : Prop where
  stopping : r'.stopping = r.stopping
  stateChanged : r'.stateChanged = r.stateChanged
  windowChanged : r'.windowChanged = r.windowChanged
  win : r'.win = r.win
  pendingWin : r'.pendingWin = r.pendingWin
  pendingState : r'.pendingState = r.pendingState
  state : r'.state.isSome = r.state.isSome

theorem sameCalls_update (f : Shared → Shared) (r : Renderer) : SameCalls r (r.update f) :=
  ⟨rfl, rfl, rfl, rfl, rfl, rfl, Option.isSome_map⟩

theorem sameCalls_redrawLocked {shared : Shared} (h : r.state = some shared) :
    SameCalls r (redrawLocked r shared) := by
  have hstate : r.state.isSome = true := by rw [h]; rfl
  rw [redrawLocked]
  dsimp only
  split
  · exact ⟨rfl, rfl, rfl, rfl, rfl, rfl, hstate.symm⟩
  · split
    · exact ⟨rfl, rfl, rfl, rfl, rfl, rfl, hstate.symm⟩
    · exact ⟨rfl, rfl, rfl, rfl, rfl, rfl, hstate.symm⟩

theorem sameCalls_draw (r : Renderer) : SameCalls r (draw r) := by
  rw [draw]
  split
  · exact ⟨rfl, rfl, rfl, rfl, rfl, rfl, rfl⟩
  · rename_i shared hshared
    split
    · exact sameCalls_redrawLocked hshared
    · refine ⟨rfl, rfl, rfl, rfl, rfl, rfl, ?_⟩
      rw [hshared]
      rfl

/-- `shouldWait` up to where it looks for changes. -/
theorem viewport_taken (r : Renderer) : ∃ q : Renderer, (if r.viewportChanged then
    { r with viewportChanged := false, waitingForBuffers := false } else r) = q ∧
      SameCalls r q ∧ (r.ChangesPending → q.ChangesPending) := by
  refine ⟨_, rfl, ?_⟩
  split
  · exact ⟨⟨rfl, rfl, rfl, rfl, rfl, rfl, rfl⟩, id⟩
  · exact ⟨⟨rfl, rfl, rfl, rfl, rfl, rfl, rfl⟩, id⟩

theorem sameCalls_shouldWait (r : Renderer) : SameCalls r (shouldWait r).1 := by
  obtain ⟨q, hq, hsame, -⟩ := viewport_taken r
  rw [shouldWait, hq]
  dsimp only
  split
  · exact hsame
  · split
    · exact hsame
    · split
      · exact { hsame with }
      · exact { hsame with }

/-- The thread does not wait while something is to be taken over. -/
theorem shouldWait_of_changed (h : changed r c = true) : (shouldWait r).2 = false := by
  obtain ⟨q, hq, -, hpending⟩ := viewport_taken r
  have hchanges : r.ChangesPending := by
    cases c with
    | window => exact .inr (.inl h)
    | state => exact .inl h
  rw [shouldWait, hq]
  dsimp only
  rw [if_pos (hpending hchanges)]

/-! ### What is taken over -/

theorem takeOver_win (env : Env) (r : Renderer) : (takeOver env r).win =
    if r.windowChanged then (takenWindow env r.pendingWin).getD .default else r.win := by
  have hstate : ∃ q : Renderer, (if r.stateChanged then changeState r else r) = q ∧
      q.windowChanged = r.windowChanged ∧ q.pendingWin = r.pendingWin ∧ q.win = r.win := by
    refine ⟨_, rfl, ?_⟩
    split
    · exact ⟨rfl, rfl, rfl⟩
    · exact ⟨rfl, rfl, rfl⟩
  obtain ⟨q, hq, hchanged, hpending, hwin⟩ := hstate
  rw [takeOver, hq]
  rw [← hchanged, ← hpending, ← hwin]
  split
  · rw [attachAll, refreshContext]
    split
    · rename_i hnone
      rw [hnone]
      rfl
    · rename_i win hsome
      rw [hsome]
      dsimp only
      split
      · rfl
      · split
        · rfl
        · rfl
  · rfl

theorem takeOver_pendingWin (env : Env) (r : Renderer) : (takeOver env r).pendingWin =
    if r.windowChanged then none else r.pendingWin := by
  have hstate : ∃ q : Renderer, (if r.stateChanged then changeState r else r) = q ∧
      q.windowChanged = r.windowChanged ∧ q.pendingWin = r.pendingWin := by
    refine ⟨_, rfl, ?_⟩
    split
    · exact ⟨rfl, rfl⟩
    · exact ⟨rfl, rfl⟩
  obtain ⟨q, hq, hchanged, hpending⟩ := hstate
  rw [takeOver, hq]
  rw [← hchanged, ← hpending]
  split
  · rw [attachAll, refreshContext]
    split
    · rfl
    · dsimp only
      split
      · rfl
      · split
        · rfl
        · rfl
  · rfl

theorem refreshContext_state (env : Env) (r : Renderer) :
    (refreshContext env r).state.isSome = r.state.isSome := by
  rw [refreshContext]
  split
  · exact Option.isSome_map
  · dsimp only
    split
    · rfl
    · split
      · exact Option.isSome_map
      · exact Option.isSome_map

theorem takeOver_state (env : Env) (r : Renderer) : (takeOver env r).state.isSome =
    if r.stateChanged then r.pendingState.isSome else r.state.isSome := by
  have hstate : ∃ q : Renderer, (if r.stateChanged then changeState r else r) = q ∧
      q.state.isSome = if r.stateChanged then r.pendingState.isSome else r.state.isSome := by
    refine ⟨_, rfl, ?_⟩
    split
    · exact Option.isSome_map
    · rfl
  obtain ⟨q, hq, hsome⟩ := hstate
  rw [takeOver, hq, ← hsome]
  rw [attachAll]
  split
  · exact refreshContext_state env q
  · rfl

theorem takenWindow_cases (env : Env) (pending : Option Window) :
    (takenWindow env pending).getD .default = .default ∨
      pending = some ((takenWindow env pending).getD .default) := by
  cases pending with
  | none => exact .inl rfl
  | some window =>
    rw [takenWindow, Option.map_some, Option.getD_some]
    split
    · exact .inl rfl
    · exact .inr rfl

/-! ### Steps keep the invariant -/

theorem changed_congr (h : SameCalls r r') (c : Change) : changed r' c = changed r c := by
  cases c with
  | window => exact h.windowChanged
  | state => exact h.stateChanged

theorem urgent_congr (h : SameCalls r r') : Urgent r' ↔ Urgent r := by
  rw [Urgent, Urgent, h.windowChanged, h.stateChanged, h.stopping]

theorem Inv.same (hI : Inv s) (h : SameCalls s.renderer r) : Inv { s with renderer := r } where
  awake hurgent := hI.awake ((urgent_congr h).mp hurgent)
  early := hI.early
  waits c hc := (changed_congr h c).trans (hI.waits c hc)
  asked c hc := hI.asked c ((changed_congr h c).symm.trans hc)
  stopping := h.stopping.trans hI.stopping
  ended hended := h.stopping.trans (hI.ended hended)
  pendingWin := by
    show r.pendingWin = if r.windowChanged then _ else _
    rw [h.pendingWin, h.windowChanged]
    exact hI.pendingWin
  win hchanged := by
    show r.win = .default ∨ _ = some r.win
    rw [h.win]
    exact hI.win (h.windowChanged.symm.trans hchanged)
  pendingState hchanged := by
    show r.pendingState.isSome = _
    rw [h.pendingState]
    exact hI.pendingState (h.stateChanged.symm.trans hchanged)
  state hchanged := h.state.trans (hI.state (h.stateChanged.symm.trans hchanged))

theorem Inv.goto (hI : Inv s) {pc : WorkerPc} (hawake : Urgent s.renderer → pc.awake = true)
    (hearly : pc.early = true → s.caller = .idle)
    (hended : pc = .ended → s.renderer.stopping = true) : Inv { s with worker := pc } :=
  { hI with awake := hawake, early := hearly, ended := hended }

theorem signal_eq_ended {pc : WorkerPc} (h : pc.signal = .ended) : pc = .ended := by
  cases pc <;> first | rfl | exact absurd h (by decide)

theorem signal_early (pc : WorkerPc) : pc.signal.early = pc.early := by
  cases pc <;> rfl

/-- A signal reaches the thread, but for the moment before it waits. -/
theorem signal_awake {pc : WorkerPc} (hearly : pc.early = false) (h : pc ≠ .aboutToWait) :
    pc.signal.awake = true := by
  cases pc with
  | starting => exact absurd hearly.symm Bool.false_ne_true
  | firstLook => exact absurd hearly.symm Bool.false_ne_true
  | firstWait => exact absurd hearly.symm Bool.false_ne_true
  | aboutToWait => exact absurd rfl h
  | locking => rfl
  | checking => rfl
  | waiting => rfl
  | drawing => rfl
  | ended => rfl

theorem WorkerPc.awake_early {pc : WorkerPc} (h : pc.awake = true) : pc.early = false := by
  cases pc <;> first | rfl | exact absurd h Bool.false_ne_true

theorem WorkerPc.awake_ne {pc : WorkerPc} (h : pc.awake = true) : pc ≠ .aboutToWait := by
  rintro rfl
  exact Bool.false_ne_true h

theorem Inv.signal (hI : Inv s) : Inv { s with worker := s.worker.signal } := by
  refine hI.goto (fun hurgent => ?_) (fun hearly => ?_) fun hended => ?_
  · have hawake := hI.awake hurgent
    exact signal_awake (WorkerPc.awake_early hawake) (WorkerPc.awake_ne hawake)
  · exact hI.early ((signal_early _).symm.trans hearly)
  · exact hI.ended (signal_eq_ended hended)

/-- A call is under way only after the first wait. -/
theorem Inv.late (hI : Inv s) (h : s.caller ≠ .idle) : s.worker.early = false :=
  Bool.eq_false_iff.mpr fun hearly => h (hI.early hearly)

/-- Where the activity's thread is in no call that waits, nothing is to be taken over. -/
theorem Inv.quiet (hI : Inv s) (h : s.caller.awaits = none) (c : Change) :
    changed s.renderer c = false := by
  rw [← Bool.not_eq_true]
  intro hchanged
  exact Option.some_ne_none c ((hI.asked c hchanged).symm.trans h)

theorem CallerPc.signal_ne_waiting (pc : CallerPc) (c : Change) : pc.signal ≠ .waiting c := by
  cases pc <;> exact CallerPc.noConfusion

theorem CallerPc.signal_awaits (pc : CallerPc) : pc.signal.awaits = pc.awaits := by
  cases pc <;> rfl

/-- Waking the activity's thread up does not take it out of a call. -/
theorem CallerPc.signal_stopped (pc : CallerPc) : pc.signal.stopped = pc.stopped := by
  cases pc <;> rfl

theorem Inv.callerWakes (hI : Inv s) : Inv { s with caller := s.caller.signal } :=
  { hI with
    early := fun hearly => congrArg CallerPc.signal (hI.early hearly)
    waits := fun c hc => absurd hc (s.caller.signal_ne_waiting c)
    asked := fun c hc => s.caller.signal_awaits.trans (hI.asked c hc)
    stopping := hI.stopping.trans s.caller.signal_stopped.symm }

/-- The renderer's thread takes over what is pending, and signals the activity's. -/
theorem Inv.takeOver (hI : Inv s) (env : Env) :
    Inv { s with
      renderer := takeOver env s.renderer, caller := s.caller.signal, worker := .drawing } := by
  obtain ⟨hstopping, hstate, hwindow, -, -⟩ := takeOver_spec env s.renderer
  have hnot : ∀ c, changed (RenderLoop.takeOver env s.renderer) c = false := by
    intro c
    cases c with
    | window => exact hwindow
    | state => exact hstate
  constructor
  · exact fun _ => rfl
  · exact fun hearly => absurd hearly Bool.false_ne_true
  · exact fun c hc => absurd hc (s.caller.signal_ne_waiting c)
  · intro c hc
    rw [hnot c] at hc
    exact absurd hc Bool.false_ne_true
  · exact (hstopping.trans hI.stopping).trans s.caller.signal_stopped.symm
  · exact WorkerPc.noConfusion
  · rw [takeOver_pendingWin, hwindow, hI.pendingWin, if_neg Bool.false_ne_true]
    split
    · rfl
    · rfl
  · intro _
    rw [takeOver_win]
    split
    · rename_i hchanged
      have hgiven := hI.pendingWin
      rw [if_pos hchanged] at hgiven
      rw [← hgiven]
      exact takenWindow_cases env s.renderer.pendingWin
    · rename_i hunchanged
      exact hI.win (Bool.eq_false_iff.mpr hunchanged)
  · intro hchanged
    rw [hstate] at hchanged
    exact absurd hchanged Bool.false_ne_true
  · intro _
    rw [takeOver_state]
    split
    · rename_i hchanged
      exact hI.pendingState hchanged
    · rename_i hunchanged
      exact hI.state (Bool.eq_false_iff.mpr hunchanged)

/-- Nothing is urgent where the thread finds that it can wait. -/
theorem not_urgent_of_shouldWait (hrunning : ¬r.stopping = true)
    (hwait : shouldWait r = (r', true)) : ¬Urgent r' := by
  have hsame := sameCalls_shouldWait r
  rw [hwait] at hsame
  have hchanged : ∀ c, ¬changed r c = true := by
    intro c hc
    have hfalse := shouldWait_of_changed hc
    rw [hwait] at hfalse
    exact Bool.noConfusion hfalse
  intro hurgent
  rcases (urgent_congr hsame).mp hurgent with hwindow | hstate | hstopping
  · exact hchanged .window hwindow
  · exact hchanged .state hstate
  · exact hrunning hstopping

/-- The look at the changes, with the lock or without. -/
theorem Inv.look (hI : Inv s) {sleepy : WorkerPc}
    (hearly : sleepy.early = true → s.caller = .idle) (hended : sleepy ≠ .ended) :
    Inv (look env sleepy s) := by
  rw [Handshake.look]
  split
  · rename_i hstopping
    exact hI.goto (fun _ => rfl) (fun hearly => absurd hearly Bool.false_ne_true)
      fun _ => hstopping
  · rename_i hrunning
    have hsame := sameCalls_shouldWait s.renderer
    split
    · rename_i r hwait
      rw [hwait] at hsame
      refine (hI.same hsame).goto (fun hurgent => ?_) hearly fun h => absurd h hended
      exact absurd hurgent (not_urgent_of_shouldWait hrunning hwait)
    · rename_i r hwait
      rw [hwait] at hsame
      exact (hI.same hsame).takeOver env

theorem Inv.worker (hI : Inv s) (hs : workerStep env s = some s') : Inv s' := by
  rw [workerStep] at hs
  cases hworker : s.worker with
  | starting =>
    rw [hworker] at hs
    exact absurd hs.symm (Option.some_ne_none _)
  | firstLook =>
    rw [hworker] at hs
    rw [← Option.some_inj.mp hs]
    exact hI.look (fun _ => hI.early (by rw [hworker]; rfl)) WorkerPc.noConfusion
  | firstWait =>
    rw [hworker] at hs
    rw [← Option.some_inj.mp hs]
    refine hI.goto (fun hurgent => ?_) (fun h => absurd h Bool.false_ne_true)
      WorkerPc.noConfusion
    have hawake := hI.awake hurgent
    rw [hworker] at hawake
    exact absurd hawake Bool.false_ne_true
  | locking =>
    rw [hworker] at hs
    rw [← Option.some_inj.mp hs]
    exact hI.goto (fun _ => rfl) (fun h => absurd h Bool.false_ne_true) WorkerPc.noConfusion
  | checking =>
    rw [hworker] at hs
    rw [← Option.some_inj.mp hs]
    exact hI.look (fun h => absurd h Bool.false_ne_true) WorkerPc.noConfusion
  | aboutToWait =>
    rw [hworker] at hs
    rw [← Option.some_inj.mp hs]
    -- nothing urgent is pending, or it would not have gone to wait
    refine hI.goto (fun hurgent => ?_) (fun h => absurd h Bool.false_ne_true)
      WorkerPc.noConfusion
    exact absurd hworker (WorkerPc.awake_ne (hI.awake hurgent))
  | waiting =>
    rw [hworker] at hs
    exact absurd hs.symm (Option.some_ne_none _)
  | drawing =>
    rw [hworker] at hs
    rw [← Option.some_inj.mp hs]
    have hdrawn := sameCalls_draw s.renderer
    have hsame : SameCalls s.renderer (releaseRemoved (draw s.renderer)) := { hdrawn with }
    exact (hI.same hsame).goto (fun _ => rfl) (fun h => absurd h Bool.false_ne_true)
      WorkerPc.noConfusion
  | ended =>
    rw [hworker] at hs
    exact absurd hs.symm (Option.some_ne_none _)

/-- A call that changes nothing that the activity's thread waits for. -/
theorem Inv.returns (hI : Inv s) (hquiet : ∀ c, changed s.renderer c = false)
    (hrunning : s.renderer.stopping = false) : Inv { s with caller := .idle } :=
  { hI with
    early := fun _ => rfl
    waits := fun _ hc => CallerPc.noConfusion hc
    asked := fun c hc => absurd ((hquiet c).symm.trans hc) Bool.false_ne_true
    stopping := hrunning }

theorem Inv.enter (hI : Inv s) {call : Call} (hcaller : s.caller = .entering call)
    (hlock : s.worker.Unlocked) : Inv (call.enter s) := by
  have hquiet := hI.quiet (by rw [hcaller]; rfl)
  have hrunning : s.renderer.stopping = false := by
    rw [hI.stopping, hcaller]
    rfl
  -- the thread has waited once, so the signal of the call wakes it
  have hlate : s.worker.early = false := hI.late (by rw [hcaller]; exact CallerPc.noConfusion)
  have hawake : s.worker.signal.awake = true := signal_awake hlate hlock.2
  have hnotEarly : s.worker.signal.early ≠ true := by
    rw [signal_early, hlate]
    exact Bool.false_ne_true
  have hended : s.worker.signal ≠ .ended := by
    intro h
    exact absurd (hrunning.symm.trans (hI.ended (signal_eq_ended h))) Bool.false_ne_true
  -- no other change is pending, so what the call asks for is the only one
  have hwindow : s.renderer.windowChanged = false := hquiet .window
  have hstate : s.renderer.stateChanged = false := hquiet .state
  cases call with
  | setWindow newWin =>
    rw [Call.enter]
    split
    · exact hI.returns hquiet hrunning
    · constructor
      · exact fun _ => hawake
      · exact fun hearly => absurd hearly hnotEarly
      · intro c hc
        obtain rfl := CallerPc.waiting.inj hc
        rfl
      · intro c hc
        cases c with
        | window => rfl
        | state => exact absurd (hstate.symm.trans hc) Bool.false_ne_true
      · exact hrunning
      · exact fun h => absurd h hended
      · rfl
      · exact fun h => Bool.noConfusion h
      · exact hI.pendingState
      · exact hI.state
  | setSharedState newState =>
    constructor
    · exact fun _ => hawake
    · exact fun hearly => absurd hearly hnotEarly
    · intro c hc
      obtain rfl := CallerPc.waiting.inj hc
      rfl
    · intro c hc
      cases c with
      | window => exact absurd (hwindow.symm.trans hc) Bool.false_ne_true
      | state => rfl
    · exact hrunning
    · exact fun h => absurd h hended
    · exact hI.pendingWin
    · exact hI.win
    · exact fun _ => rfl
    · exact fun h => Bool.noConfusion h
  | setViewport ew eh =>
    -- these two wait for nothing: the invariant is that of a call that has returned
    have hsame : SameCalls s.renderer (redraw { s.renderer with
        expectedW := ew, expectedH := eh, viewportChanged := true }) :=
      ⟨rfl, rfl, rfl, rfl, rfl, rfl, Option.isSome_map⟩
    have hdone := (hI.returns hquiet hrunning).same hsame
    exact hdone.signal
  | setZoom =>
    have hsame : SameCalls s.renderer (redraw s.renderer) := sameCalls_update _ s.renderer
    have hdone := (hI.returns hquiet hrunning).same hsame
    exact hdone.signal
  | destroy =>
    rw [Call.enter]
    split
    · constructor
      · exact fun _ => hawake
      · exact fun hearly => absurd hearly hnotEarly
      · exact fun c hc => CallerPc.noConfusion hc
      · intro c hc
        have hfalse : changed { s.renderer with stopping := true } c = false := by
          rw [← hquiet c]
          cases c with
          | window => rfl
          | state => rfl
        exact absurd (hfalse.symm.trans hc) Bool.false_ne_true
      · rfl
      · exact fun _ => rfl
      · exact hI.pendingWin
      · exact hI.win
      · exact hI.pendingState
      · exact hI.state
    · exact hI.returns hquiet hrunning

theorem Inv.caller (hI : Inv s) (hs : callerStep s = some s') : Inv s' := by
  rw [callerStep] at hs
  split at hs
  · rename_i call hcaller
    obtain ⟨hlock, rfl⟩ := enabled_eq_some.mp hs
    exact hI.enter hcaller hlock
  · rename_i c hcaller
    obtain ⟨-, rfl⟩ := enabled_eq_some.mp hs
    have hrunning : s.renderer.stopping = false := by
      rw [hI.stopping, hcaller]
      rfl
    have honly : ∀ c', changed s.renderer c' = true → c = c' := by
      intro c' hc'
      have hawaits := hI.asked c' hc'
      rw [hcaller] at hawaits
      exact Option.some_inj.mp hawaits
    split
    · rename_i hchanged
      have hlate := hI.late (by rw [hcaller]; exact CallerPc.noConfusion)
      refine { hI with
        early := fun hearly => absurd (hlate.symm.trans hearly) Bool.false_ne_true
        waits := fun c' hc' => ?_, asked := fun c' hc' => ?_, stopping := hrunning }
      · rw [← CallerPc.waiting.inj hc']
        exact hchanged
      · exact congrArg some (honly c' hc')
    · rename_i hunchanged
      refine hI.returns (fun c' => ?_) hrunning
      rw [← Bool.not_eq_true]
      intro hc'
      rw [honly c' hc'] at hunchanged
      exact hunchanged hc'
  · rename_i hcaller
    obtain ⟨hended, rfl⟩ := enabled_eq_some.mp hs
    have hquiet := hI.quiet (by rw [hcaller]; rfl)
    have hlate := hI.late (by rw [hcaller]; exact CallerPc.noConfusion)
    exact { hI with
      early := fun hearly => absurd (hlate.symm.trans hearly) Bool.false_ne_true
      waits := fun c hc => CallerPc.noConfusion hc
      asked := fun c hc => absurd ((hquiet c).symm.trans hc) Bool.false_ne_true
      stopping := hI.ended hended }
  · exact absurd hs.symm (Option.some_ne_none _)

/-- The renderer's thread gets to its loop. -/
theorem Inv.loops (hI : Inv s) (hworker : s.worker = .starting) :
    Inv (Handshake.initThread s .loops) := by
  have hsame : SameCalls s.renderer (initLists s.renderer) :=
    ⟨rfl, rfl, rfl, rfl, rfl, rfl, rfl⟩
  have hearly : s.worker.early = true := by rw [hworker]; rfl
  refine { (hI.same hsame) with
    awake := fun hurgent => ?_
    early := fun _ => hI.early hearly
    ended := ?_ }
  · have hawake := (hI.same hsame).awake hurgent
    rw [show ({ s with renderer := initLists s.renderer } : State).worker = .starting from hworker]
      at hawake
    exact absurd hawake Bool.false_ne_true
  · exact fun h => WorkerPc.noConfusion h

theorem inv_step (s : State) (a : Act) (s' : State) (hI : Inv s) (ha : AfterStart s a)
    (hs : step s a = some s') : Inv s' := by
  cases a with
  | initThread result =>
    obtain ⟨hworker, rfl⟩ := enabled_eq_some.mp hs
    obtain rfl : result = .loops := ha
    exact hI.loops hworker
  | call c =>
    rw [step] at hs
    split at hs
    · rename_i hcaller
      rw [← Option.some_inj.mp hs]
      have hlate : s.worker.early = false := ha
      have hquiet := hI.quiet (by rw [hcaller]; rfl)
      refine { hI with
        early := fun hearly => absurd (hlate.symm.trans hearly) Bool.false_ne_true
        waits := fun c hc => CallerPc.noConfusion hc
        asked := fun c hc => absurd ((hquiet c).symm.trans hc) Bool.false_ne_true
        stopping := hI.stopping.trans ?_ }
      rw [hcaller]
      rfl
    · exact absurd hs.symm (Option.some_ne_none _)
  | caller => exact hI.caller hs
  | worker env => exact hI.worker hs
  | signal =>
    rw [← Option.some_inj.mp hs]
    exact hI.signal
  | callerWakes =>
    rw [← Option.some_inj.mp hs]
    exact hI.callerWakes
  | addBuffer b =>
    rw [step] at hs
    split at hs
    · rw [← Option.some_inj.mp hs]
      have hsame : SameCalls s.renderer { s.renderer with
          lists := { s.renderer.lists with
            addedBuffers := b :: s.renderer.lists.addedBuffers } } :=
        ⟨rfl, rfl, rfl, rfl, rfl, rfl, rfl⟩
      exact (hI.same hsame).signal
    · exact absurd hs.symm (Option.some_ne_none _)
  | server f =>
    rw [← Option.some_inj.mp hs]
    exact hI.same (sameCalls_update f s.renderer)

/-! ### Runs -/

theorem inv_run {acts : List Act} (hmeets : Meets step AfterStart (initial r) acts)
    (hrun : run step (initial r) acts = some s) : Inv s :=
  run_invariant inv_step (inv_initial r) hmeets hrun

/-- A renderer that was just made. -/
def started : Renderer where
  stopping := false
  stateChanged := false
  windowChanged := false
  viewportChanged := false
  state := none
  pendingState := none
  win := .default
  pendingWin := none
  lists := ⟨[], [], []⟩
  expectedW := 0
  expectedH := 0
  lastRequestedBufferId := 0
  waitingForBuffers := false

/-- The memory of an X server that has drawn nothing. -/
def idleServer : Shared where
  writeIndex := 0
  readIndex := 0
  completedSerial := 0
  entries _ := ⟨0, 0, 0⟩
  rootWindowTextureID := 0
  drawRequested := false
  surfaceAvailable := false
  waitForNextFrame := false
  cursorUpdated := false
  cursorMoved := false

/-- The renderer's thread has gone to sleep, is given a state by one call, and by the next one
a window while it draws; a spurious wake-up does not end that call. -/
def windowGiven : List Act :=
  [.initThread .loops, .worker {}, .worker {}, .call (.setSharedState (some idleServer)), .caller,
    .worker {}, .worker {}, .caller, .call (.setWindow (some (.surface 1))), .caller,
    .callerWakes, .caller]

/-- The two threads get from one state to the other by so many steps of their own at most. -/
def Leads (env : Env) (n : ℕ) (s t : State) : Prop :=
  ∃ acts : List Act, acts.length ≤ n ∧ (∀ a ∈ acts, a = .worker env ∨ a = .caller) ∧
    run step s acts = some t

variable {t u : State} {m n : ℕ}

theorem Leads.refl (env : Env) (n : ℕ) (s : State) : Leads env n s s := by
  refine ⟨[], Nat.zero_le n, fun a ha => ?_, rfl⟩
  exact absurd ha List.not_mem_nil

theorem Leads.trans (h : Leads env m s t) (h' : Leads env n t u) : Leads env (m + n) s u := by
  obtain ⟨acts, hlength, hown, hrun⟩ := h
  obtain ⟨acts', hlength', hown', hrun'⟩ := h'
  refine ⟨acts ++ acts', ?_, fun a ha => ?_, (run_append_of_eq hrun).trans hrun'⟩
  · rw [List.length_append]
    omega
  · exact (List.mem_append.mp ha).elim (hown a) (hown' a)

theorem Leads.worker (h : workerStep env s = some t) : Leads env 1 s t := by
  refine ⟨[.worker env], Nat.le_refl 1, fun a ha => ?_, (run_singleton s _).trans h⟩
  exact .inl (List.mem_singleton.mp ha)

theorem Leads.caller (h : callerStep s = some t) : Leads env 1 s t := by
  refine ⟨[.caller], Nat.le_refl 1, fun a ha => ?_, (run_singleton s _).trans h⟩
  exact .inr (List.mem_singleton.mp ha)

theorem Leads.inv (h : Leads env n s t) (hI : Inv s) : Inv t := by
  obtain ⟨acts, -, hown, hrun⟩ := h
  have hmeets : Meets step AfterStart s acts := by
    refine (meets_of_forall_mem hown s).imp fun _ a ha => ?_
    rcases ha with rfl | rfl
    · trivial
    · trivial
  exact run_invariant inv_step hI hmeets hrun

/-- The renderer's thread gives the lock back, wherever it is. -/
theorem unlocks (env : Env) (s : State) (hcaller : s.caller.signal = s.caller) :
    ∃ t, Leads env 2 s t ∧ t.worker.Unlocked ∧ t.caller = s.caller := by
  have free : s.worker.Unlocked →
      ∃ t, Leads env 2 s t ∧ t.worker.Unlocked ∧ t.caller = s.caller :=
    fun hlock => ⟨s, .refl env 2 s, hlock, rfl⟩
  have waits : ∀ s : State, s.worker = .aboutToWait →
      ∃ t, workerStep env s = some t ∧ t.worker = .waiting ∧ t.caller = s.caller := by
    intro s hworker
    refine ⟨{ s with worker := .waiting }, ?_, rfl, rfl⟩
    rw [workerStep, hworker]
  cases hworker : s.worker with
  | checking =>
    have hs : workerStep env s = some (look env .aboutToWait s) := by
      rw [workerStep, hworker]
    by_cases hstopping : s.renderer.stopping = true
    · rw [look, if_pos hstopping] at hs
      exact ⟨_, (Leads.worker hs).trans (.refl env 1 _), by dsimp only; decide, rfl⟩
    · rw [look, if_neg hstopping] at hs
      cases hwait : shouldWait s.renderer with
      | mk r wait =>
        rw [hwait] at hs
        cases wait with
        | false =>
          exact ⟨_, (Leads.worker hs).trans (.refl env 1 _), by dsimp only; decide, hcaller⟩
        | true =>
          obtain ⟨t, ht, hwaiting, hsame⟩ :=
            waits { s with renderer := r, worker := .aboutToWait } rfl
          refine ⟨t, (Leads.worker hs).trans (.worker ht), ?_, hsame⟩
          rw [hwaiting]
          decide
  | aboutToWait =>
    obtain ⟨t, ht, hwaiting, hsame⟩ := waits s hworker
    refine ⟨t, (Leads.worker ht).trans (.refl env 1 t), ?_, hsame⟩
    rw [hwaiting]
    decide
  | starting => exact free (by rw [hworker]; decide)
  | firstLook => exact free (by rw [hworker]; decide)
  | firstWait => exact free (by rw [hworker]; decide)
  | locking => exact free (by rw [hworker]; decide)
  | waiting => exact free (by rw [hworker]; decide)
  | drawing => exact free (by rw [hworker]; decide)
  | ended => exact free (by rw [hworker]; decide)

/-- The renderer's thread gets to where it looks for changes, if there is one. -/
theorem Inv.looks (hI : Inv s) (hurgent : Urgent s.renderer) (hended : s.worker ≠ .ended)
    (env : Env) : ∃ t, Leads env 2 s t ∧ t.worker = .checking ∧ t.caller = s.caller := by
  have locks : ∀ s : State, s.worker = .locking →
      workerStep env s = some { s with worker := .checking } := by
    intro s hworker
    rw [workerStep, hworker]
  have sleepy : s.worker.awake = false →
      ∃ t, Leads env 2 s t ∧ t.worker = .checking ∧ t.caller = s.caller :=
    fun h => absurd (h.symm.trans (hI.awake hurgent)) Bool.false_ne_true
  cases hworker : s.worker with
  | checking => exact ⟨s, .refl env 2 s, hworker, rfl⟩
  | locking => exact ⟨_, (Leads.worker (locks s hworker)).trans (.refl env 1 _), rfl, rfl⟩
  | drawing =>
    have hs : workerStep env s = some { s with
        renderer := releaseRemoved (draw s.renderer), worker := .locking } := by
      rw [workerStep, hworker]
    exact ⟨_, (Leads.worker hs).trans (.worker (locks _ rfl)), rfl, rfl⟩
  | ended => exact absurd hworker hended
  | starting => exact sleepy (by rw [hworker]; rfl)
  | firstLook => exact sleepy (by rw [hworker]; rfl)
  | firstWait => exact sleepy (by rw [hworker]; rfl)
  | aboutToWait => exact sleepy (by rw [hworker]; rfl)
  | waiting => exact sleepy (by rw [hworker]; rfl)

/-- Whoever waits for a change is woken up after it was taken over, and returns. -/
theorem Inv.waiting_returns (hI : Inv s) (hcaller : s.caller = .waiting c) (env : Env) :
    ∃ t, Leads env 4 s t ∧ t.caller = .idle := by
  have hchanged := hI.waits c hcaller
  have hrunning : s.renderer.stopping = false := by
    rw [hI.stopping, hcaller]
    rfl
  have hurgent : Urgent s.renderer := by
    cases c with
    | window => exact .inl hchanged
    | state => exact .inr (.inl hchanged)
  have hended : s.worker ≠ .ended := by
    intro hended
    exact absurd (hrunning.symm.trans (hI.ended hended)) Bool.false_ne_true
  obtain ⟨t, hleads, hworker, hsame⟩ := hI.looks hurgent hended env
  have hIt := hleads.inv hI
  rw [hcaller] at hsame
  have hgoes : t.renderer.stopping = false := by
    rw [hIt.stopping, hsame]
    rfl
  have hpending := shouldWait_of_changed (hIt.waits c hsame)
  have htake : workerStep env t = some { t with
      renderer := RenderLoop.takeOver env (shouldWait t.renderer).1, caller := .woken c
      worker := .drawing } := by
    rw [workerStep, hworker]
    dsimp only
    rw [Handshake.look, hgoes, if_neg Bool.false_ne_true]
    cases hwait : shouldWait t.renderer with
    | mk r wait =>
      rw [hwait] at hpending
      dsimp only at hpending
      rw [hpending, hsame]
      rfl
  obtain ⟨-, hstate, hwindow, -, -⟩ := takeOver_spec env (shouldWait t.renderer).1
  have hnot : changed (RenderLoop.takeOver env (shouldWait t.renderer).1) c = false := by
    cases c with
    | window => exact hwindow
    | state => exact hstate
  refine ⟨{ t with
      renderer := RenderLoop.takeOver env (shouldWait t.renderer).1, caller := .idle
      worker := .drawing },
    (hleads.trans (.worker htake)).trans (.caller ?_), rfl⟩
  rw [callerStep]
  dsimp only
  rw [if_pos (show WorkerPc.drawing.Unlocked by decide), hnot, if_neg Bool.false_ne_true]

theorem Inv.joining_returns (hI : Inv s) (hcaller : s.caller = .joining) (env : Env) :
    ∃ t, Leads env 4 s t ∧ t.caller = .destroyed := by
  have joins : ∀ s : State, s.caller = .joining → s.worker = .ended →
      callerStep s = some { s with caller := .destroyed, ctx := false } := by
    intro s hcaller hworker
    rw [callerStep, hcaller]
    exact if_pos hworker
  by_cases hended : s.worker = .ended
  · have hjoin := joins s hcaller hended
    exact ⟨_, (Leads.caller hjoin).trans (.refl env 3 _), rfl⟩
  · have hstopping : s.renderer.stopping = true := by
      rw [hI.stopping, hcaller]
      rfl
    obtain ⟨t, hleads, hworker, hsame⟩ := hI.looks (.inr (.inr hstopping)) hended env
    have hstops : t.renderer.stopping = true := by
      rw [(hleads.inv hI).stopping, hsame, hcaller]
      rfl
    have hend : workerStep env t = some { t with worker := .ended } := by
      rw [workerStep, hworker]
      dsimp only
      rw [Handshake.look, if_pos hstops]
    have hjoin := joins { t with worker := .ended } (hsame.trans hcaller) rfl
    exact ⟨_, (hleads.trans (.worker hend)).trans (.caller hjoin), rfl⟩

theorem Inv.woken_returns (hI : Inv s) (hcaller : s.caller = .woken c) (env : Env) :
    ∃ t, Leads env 7 s t ∧ t.caller = .idle := by
  obtain ⟨t, hleads, hlock, hsame⟩ := unlocks env s (by rw [hcaller]; rfl)
  rw [hcaller] at hsame
  have hs : callerStep t =
      some { t with caller := if changed t.renderer c then .waiting c else .idle } := by
    rw [callerStep, hsame]
    exact if_pos hlock
  have hturn := hleads.trans (.caller hs)
  by_cases hchanged : changed t.renderer c = true
  · rw [if_pos hchanged] at hturn
    obtain ⟨u, hleads', hidle⟩ := (hturn.inv hI).waiting_returns rfl env
    exact ⟨u, hturn.trans hleads', hidle⟩
  · rw [if_neg hchanged] at hturn
    exact ⟨_, hturn.trans (.refl env 4 _), rfl⟩

theorem Inv.entering_returns (hI : Inv s) {call : Call} (hcaller : s.caller = .entering call)
    (env : Env) : ∃ t, Leads env 7 s t ∧ (t.caller = .idle ∨ t.caller = .destroyed) := by
  obtain ⟨t, hleads, hlock, hsame⟩ := unlocks env s (by rw [hcaller]; rfl)
  have hs : callerStep t = some (call.enter t) := by
    rw [callerStep, hsame, hcaller]
    exact if_pos hlock
  have hturn := hleads.trans (.caller hs)
  have hIt := hturn.inv hI
  have returns : (call.enter t).caller = .idle →
      ∃ u, Leads env 7 s u ∧ (u.caller = .idle ∨ u.caller = .destroyed) :=
    fun hidle => ⟨_, hturn.trans (.refl env 4 _), .inl hidle⟩
  have waits : ∀ c, (call.enter t).caller = .waiting c →
      ∃ u, Leads env 7 s u ∧ (u.caller = .idle ∨ u.caller = .destroyed) := by
    intro c hwaiting
    obtain ⟨u, hleads', hidle⟩ := hIt.waiting_returns hwaiting env
    exact ⟨u, hturn.trans hleads', .inl hidle⟩
  cases call with
  | setWindow newWin =>
    by_cases hsame : newWin.isSome ∧ t.renderer.pendingWin = newWin
    · exact returns (by rw [Call.enter, if_pos hsame])
    · exact waits .window (by rw [Call.enter, if_neg hsame])
  | setSharedState newState => exact waits .state rfl
  | setViewport ew eh => exact returns rfl
  | setZoom => exact returns rfl
  | destroy =>
    by_cases hctx : t.ctx = true
    · obtain ⟨u, hleads', hdestroyed⟩ :=
        hIt.joining_returns (by rw [Call.enter, if_pos hctx]) env
      exact ⟨u, hturn.trans hleads', .inr hdestroyed⟩
    · exact returns (by rw [Call.enter, if_neg hctx])

/-- In every state that is reached, and whatever EGL answers: some schedule of at most seven
steps of the two threads lets the call that is under way return.  Nobody sleeps through a
change. -/
theorem calls_return {acts : List Act} (hmeets : Meets step AfterStart (initial r) acts)
    (hrun : run step (initial r) acts = some s) (env : Env) :
    ∃ t, Leads env 7 s t ∧ (t.caller = .idle ∨ t.caller = .destroyed) := by
  have hI := inv_run hmeets hrun
  cases hcaller : s.caller with
  | idle => exact ⟨s, .refl env 7 s, .inl hcaller⟩
  | destroyed => exact ⟨s, .refl env 7 s, .inr hcaller⟩
  | entering call => exact hI.entering_returns hcaller env
  | waiting c =>
    obtain ⟨t, hleads, hidle⟩ := hI.waiting_returns hcaller env
    exact ⟨t, hleads.trans (.refl env 3 t), .inl hidle⟩
  | woken c =>
    obtain ⟨t, hleads, hidle⟩ := hI.woken_returns hcaller env
    exact ⟨t, hleads, .inl hidle⟩
  | joining =>
    obtain ⟨t, hleads, hdestroyed⟩ := hI.joining_returns hcaller env
    exact ⟨t, hleads.trans (.refl env 3 t), .inr hdestroyed⟩

theorem windowGiven_returns : ∃ s, run step (initial started) windowGiven = some s ∧
    s.caller = .waiting .window ∧
    ∃ t, Leads {} 7 s t ∧ (t.caller = .idle ∨ t.caller = .destroyed) := by
  obtain ⟨s, hrun, hwaiting⟩ : ∃ s, run step (initial started) windowGiven = some s ∧
      s.caller = .waiting .window := ⟨_, rfl, rfl⟩
  exact ⟨s, hrun, hwaiting, calls_return (by decide) hrun {}⟩

/-! ### Calls before the first wait -/

/-- Where one thread sleeps or has ended and the other waits for it, neither goes on. -/
theorem hangs (hworker : s.worker = .waiting ∨ s.worker = .ended) (hcaller : s.caller = .waiting c)
    (h : Leads env n s t) : t = s := by
  obtain ⟨acts, -, hown, hrun⟩ := h
  have hnone : ∀ a : Act, a = .worker env ∨ a = .caller → step s a = none := by
    rintro a (rfl | rfl)
    · show workerStep env s = none
      rcases hworker with hworker | hworker
      · rw [workerStep, hworker]
      · rw [workerStep, hworker]
    · show callerStep s = none
      rw [callerStep, hcaller]
  cases acts with
  | nil => exact (Option.some_inj.mp hrun).symm
  | cons a acts =>
    rw [run_cons, hnone a (hown a List.mem_cons_self)] at hrun
    exact absurd hrun.symm (Option.some_ne_none _)

/-- A window is given to the renderer between its first look, for which it does not take the
lock, and its first wait: the signal is lost. -/
def givenTooEarly : List Act :=
  [.initThread .loops, .worker {}, .call (.setWindow (some (.surface 1))), .caller, .worker {}]

theorem givenTooEarly_hangs : ∃ s, run step (initial started) givenTooEarly = some s ∧
    s.caller = .waiting .window ∧ s.renderer.windowChanged = true ∧
    ∀ env n t, Leads env n s t → t = s := by
  obtain ⟨s, hrun, hworker, hcaller, hchanged⟩ : ∃ s,
      run step (initial started) givenTooEarly = some s ∧ s.worker = .waiting ∧
        s.caller = .waiting .window ∧ s.renderer.windowChanged = true := ⟨_, rfl, rfl, rfl, rfl⟩
  exact ⟨s, hrun, hcaller, hchanged, fun env n t h => hangs (.inl hworker) hcaller h⟩

/-- EGL has no context for the thread, and `setWindow` waits for it all the same. -/
def givenToNobody : List Act :=
  [.initThread .noContext, .call (.setWindow (some (.surface 1))), .caller]

theorem givenToNobody_hangs : ∃ s, run step (initial started) givenToNobody = some s ∧
    s.caller = .waiting .window ∧ ∀ env n t, Leads env n s t → t = s := by
  obtain ⟨s, hrun, hworker, hcaller⟩ : ∃ s,
      run step (initial started) givenToNobody = some s ∧ s.worker = .ended ∧
        s.caller = .waiting .window := ⟨_, rfl, rfl, rfl⟩
  exact ⟨s, hrun, hcaller, fun env n t h => hangs (.inr hworker) hcaller h⟩

end Lorie.Handshake
