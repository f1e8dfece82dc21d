/-
What the launcher says of its connection (`LauncherActivity.kt`, lines 344 to 355 and 464 to
518).

A thread makes the client, and calls `connect` once.  The listener's calls are posted to the UI
thread, which shows them one after another; it also answers the buttons, and disconnects when
the activity is destroyed.

* `Ui`, `Ui.handle` — the status line, and what a call of the listener makes of it;
* `Activity`, `step` — the activity with its session;
* `Told` — the status line after the calls so far;
* `no_server_untold` — that there is no server is never said;
* `status_settled` — what is said once the session has ended.
-/
import KaliGui.X11Client.Listener
import Mathlib.Data.List.Induction

namespace X11Client.Launcher

open Machine Listener

/-! ### The activity -/

/-- The texts of the status line. -/
inductive Text
  | statusConnecting
  | statusDisconnected
  | errorNoServer
  | errorTimeout
  | errorGeneric
  /-- of `toggleMode` -/
  | mode (mouse : Bool)
  /-- of `openTerminal` -/
  | noTerminal
  deriving DecidableEq, Repr

structure Ui where
  hadError : Bool := false
  /-- `status.visibility` -/
  visible : Bool := true
  text : Text := .statusConnecting
  deriving DecidableEq, Repr

def describeError : Throwable → Text
  | .connectException => .errorNoServer
  | .socketTimeout => .errorTimeout
  | .other => .errorGeneric

/-- The listener, on the UI thread. -/
def Ui.handle (isFinishing : Bool) (ui : Ui) : Event → Ui
  | .onConnected _ _ => { ui with hadError := false, visible := false }
  | .onDisconnected =>
    if !isFinishing && !ui.hadError then
      { ui with visible := true, text := .statusDisconnected }
    else ui
  | .onError t => { ui with hadError := true, visible := true, text := describeError t }
  | _ => ui

/-- The calls that go through `runOnUiThread`. -/
def posted : Event → Bool
  | .onConnected _ _ => true
  | .onDisconnected => true
  | .onError _ => true
  | _ => false

structure Activity where
  session : Session := {}
  /-- the thread has set `client` -/
  started : Bool := false
  /-- and has called `connect` -/
  called : Bool := false
  /-- `client` is not null -/
  client : Bool := false
  isFinishing : Bool := false
  ui : Ui := {}
  /-- the calls the UI thread has run, and those it has not run yet -/
  handled : List Event := []
  pending : List Event := []
  /-- the runnables of `toggleMode` that are to hide the status line -/
  hides : ℕ := 0

inductive Action
  /-- `client = c` -/
  | setClient
  /-- a step of the session, but for `disconnect` -/
  | session (a : Listener.Action)
  /-- the UI thread runs the next call -/
  | handle
  | toggleMode (mouse : Bool)
  /-- two seconds after that -/
  | hide
  | terminalFails
  /-- `onDestroy` -/
  | destroy (isFinishing : Bool)
  deriving DecidableEq, Repr

/-- The thread calls `connect` once; input goes to a client that is there. -/
def Activity.allows (l : Activity) : Listener.Action → Bool
  | .connect _ _ _ => l.started && !l.called
  | .connectFails _ => l.started && !l.called
  | .net _ _ _ => true
  | .send _ => l.client
  | .disconnect => false
  | .ui _ => true

/-- The action is a call of `connect`. -/
def calling : Listener.Action → Bool
  | .connect _ _ _ => true
  | .connectFails _ => true
  | _ => false

/-- The session, with the calls it has made since. -/
def Activity.setSession (l : Activity) (s : Session) : Activity :=
  { l with
    session := s
    pending := l.pending ++ (s.events.drop l.session.events.length).filter posted }

/-- The UI thread is not in a call of the client. -/
def Activity.uiFree (l : Activity) : Prop :=
  l.session.client.ui = .idle ∧ l.session.client.todo = []

instance (l : Activity) : Decidable l.uiFree := inferInstanceAs (Decidable (_ ∧ _))

def step (l : Activity) : Action → Option Activity
  | .setClient => if l.started then none else some { l with started := true, client := true }
  | .session a =>
    if l.allows a then do
      let s ← Listener.step l.session a
      some { l.setSession s with called := l.called || calling a }
    else none
  | .handle =>
    if l.uiFree then
      match l.pending with
      | [] => none
      | e :: es =>
        some { l with
          ui := l.ui.handle l.isFinishing e, handled := l.handled ++ [e], pending := es }
    else none
  | .toggleMode mouse =>
    if l.uiFree then
      some { l with ui := { l.ui with visible := true, text := .mode mouse }, hides := l.hides + 1 }
    else none
  | .hide =>
    if l.uiFree ∧ 0 < l.hides then
      some { l with
        ui := if !l.ui.hadError && l.client then { l.ui with visible := false } else l.ui
        hides := l.hides - 1 }
    else none
  | .terminalFails =>
    if l.uiFree then some { l with ui := { l.ui with visible := true, text := .noTerminal } }
    else none
  | .destroy isFinishing =>
    if l.uiFree then
      if l.client then do
        let s ← Listener.step l.session .disconnect
        some { l.setSession s with client := false, isFinishing := l.isFinishing || isFinishing }
      else some { l with isFinishing := l.isFinishing || isFinishing }
    else none

/-- The actions that write other texts to the status line. -/
def Action.writes : Action → Bool
  | .toggleMode _ => true
  | .terminalFails => true
  | _ => false

/-! ### The steps of the session -/

variable {s t : Session} {a : Listener.Action} {l m : Activity}

/-- What a step adds to the calls: `connect` where it is called, and errors that were caught
and found with `running` set. -/
theorem events_of_step (h : Listener.step s a = some t) :
    ∃ es, t.events = s.events ++ es ∧ es.count .connect = (if calling a then 1 else 0) ∧
      ∀ u, .onError u ∈ es → s.caught = some (.telling u) := by
  cases a with
  | connect root width height =>
    obtain ⟨client, -, h⟩ := Option.bind_eq_some_iff.mp h
    cases h
    exact ⟨[.connect], rfl, rfl, fun u hu => by cases List.mem_singleton.mp hu⟩
  | connectFails u =>
    obtain ⟨client, -, h⟩ := Option.bind_eq_some_iff.mp h
    cases h
    exact ⟨[.connect], rfl, rfl, fun u hu => by cases List.mem_singleton.mp hu⟩
  | net env u changed =>
    rw [Listener.step, Session.net] at h
    cases hcaught : s.caught with
    | some thrown =>
      rw [hcaught] at h
      cases thrown with
      | looking thrown =>
        cases h
        exact ⟨[], (List.append_nil _).symm, rfl, fun u hu => absurd hu List.not_mem_nil⟩
      | telling thrown =>
        cases h
        refine ⟨[.onError thrown], rfl, rfl, fun u hu => ?_⟩
        cases List.mem_singleton.mp hu
        rfl
    | none =>
      rw [hcaught] at h
      obtain ⟨client, -, h⟩ := Option.bind_eq_some_iff.mp h
      split at h
      · obtain ⟨-, rfl⟩ := enabled_eq_some.mp h
        exact ⟨[], (List.append_nil _).symm, rfl, fun u hu => absurd hu List.not_mem_nil⟩
      · cases h
        exact ⟨_, rfl, List.count_eq_zero.mpr fun hmem => (mem_calls hmem).1 rfl,
          fun u hu => absurd rfl ((mem_calls hu).2 u)⟩
  | send call =>
    obtain ⟨client, -, h⟩ := Option.bind_eq_some_iff.mp h
    cases h
    exact ⟨[], (List.append_nil _).symm, rfl, fun u hu => absurd hu List.not_mem_nil⟩
  | disconnect =>
    obtain ⟨client, -, h⟩ := Option.bind_eq_some_iff.mp h
    cases h
    exact ⟨[.disconnect], rfl, rfl, fun u hu => by cases List.mem_singleton.mp hu⟩
  | ui fails =>
    obtain ⟨client, -, h⟩ := Option.bind_eq_some_iff.mp h
    cases h
    exact ⟨[], (List.append_nil _).symm, rfl, fun u hu => absurd hu List.not_mem_nil⟩

/-- While no `connect` was called. -/
structure Untouched (s : Session) : Prop where
  net : s.client.net = .idle
  caught : s.caught = none
  running : s.client.running = false

theorem untouched_step (h : Untouched s) (ha : calling a = false)
    (hs : Listener.step s a = some t) : Untouched t := by
  obtain ⟨hnet, hcaught, hrunning⟩ := h
  cases a with
  | connect root width height => cases ha
  | connectFails u => cases ha
  | net env u changed =>
    rw [Listener.step, Session.net, hcaught, netStep, hnet] at hs
    cases hs
  | send call =>
    obtain ⟨client, hclient, hs⟩ := Option.bind_eq_some_iff.mp hs
    cases hs
    obtain ⟨-, rfl⟩ := enabled_eq_some.mp hclient
    exact ⟨hnet, hcaught, hrunning⟩
  | disconnect =>
    obtain ⟨client, hclient, hs⟩ := Option.bind_eq_some_iff.mp hs
    cases hs
    obtain ⟨-, rfl⟩ := enabled_eq_some.mp hclient
    exact ⟨hnet, hcaught, rfl⟩
  | ui fails =>
    obtain ⟨client, hclient, hs⟩ := Option.bind_eq_some_iff.mp hs
    cases hs
    obtain ⟨hnet', hrunning', -, -⟩ := uiStep_same hclient
    exact ⟨hnet'.trans hnet, hcaught, hrunning'.trans hrunning⟩

/-- That the socket did not connect is caught with `running` not set, and so is not told. -/
structure Unconnected (s : Session) : Prop where
  looking : s.caught = some (.looking .connectException) → s.client.running = false
  telling : s.caught ≠ some (.telling .connectException)

theorem unconnected_step (h : Unconnected s) (ha : calling a = true → Untouched s)
    (hs : Listener.step s a = some t) : Unconnected t := by
  cases a with
  | connect root width height =>
    obtain ⟨client, hclient, hs⟩ := Option.bind_eq_some_iff.mp hs
    cases hs
    obtain ⟨-, rfl⟩ := enabled_eq_some.mp hclient
    exact ⟨fun _ => (ha rfl).running, h.telling⟩
  | connectFails u =>
    obtain ⟨client, hclient, hs⟩ := Option.bind_eq_some_iff.mp hs
    cases hs
    obtain ⟨-, rfl⟩ := enabled_eq_some.mp hclient
    exact ⟨fun _ => (ha rfl).running, fun ht => by cases Option.some_inj.mp ht⟩
  | net env u changed =>
    rw [Listener.step, Session.net] at hs
    cases hcaught : s.caught with
    | some thrown =>
      rw [hcaught] at hs
      cases thrown with
      | looking thrown =>
        cases hs
        -- `running` is looked at: what a server that was not reached threw found it false
        by_cases hrunning : s.client.running = true
        · refine ⟨fun ht => ?_, fun ht => ?_⟩
          · dsimp only at ht
            rw [if_pos hrunning] at ht
            cases Option.some_inj.mp ht
          · dsimp only at ht
            rw [if_pos hrunning] at ht
            cases Option.some_inj.mp ht
            exact absurd (h.looking hcaught) (by rw [hrunning]; exact Bool.noConfusion)
        · refine ⟨fun _ => Bool.eq_false_iff.mpr hrunning, fun ht => ?_⟩
          dsimp only at ht
          rw [if_neg hrunning] at ht
          cases ht
      | telling thrown =>
        cases hs
        exact ⟨fun ht => (by cases ht), fun ht => (by cases ht)⟩
    | none =>
      rw [hcaught] at hs
      obtain ⟨client, -, hs⟩ := Option.bind_eq_some_iff.mp hs
      split at hs
      · obtain ⟨hpossible, rfl⟩ := enabled_eq_some.mp hs
        refine ⟨fun ht => ?_, fun ht => by cases Option.some_inj.mp ht⟩
        cases Option.some_inj.mp ht
        -- no step of the protocol throws that exception
        cases hpossible
      · cases hs
        exact ⟨fun ht => (by cases ht), fun ht => (by cases ht)⟩
  | send call =>
    obtain ⟨client, hclient, hs⟩ := Option.bind_eq_some_iff.mp hs
    cases hs
    obtain ⟨-, rfl⟩ := enabled_eq_some.mp hclient
    exact ⟨h.looking, h.telling⟩
  | disconnect =>
    obtain ⟨client, hclient, hs⟩ := Option.bind_eq_some_iff.mp hs
    cases hs
    obtain ⟨-, rfl⟩ := enabled_eq_some.mp hclient
    exact ⟨fun _ => rfl, h.telling⟩
  | ui fails =>
    obtain ⟨client, hclient, hs⟩ := Option.bind_eq_some_iff.mp hs
    cases hs
    obtain ⟨-, hrunning, -, -⟩ := uiStep_same hclient
    exact ⟨fun ht => hrunning.trans (h.looking ht), h.telling⟩

/-! ### The status line -/

/-- The status line after the calls, if nothing else writes to it. -/
def shown (es : List Event) : Ui := es.foldl (Ui.handle false) {}

def NoError (es : List Event) : Prop := ∀ u, .onError u ∉ es

def ErrorTold (es : List Event) : Prop :=
  ∃ u, .onError u ∈ es ∧ shown es = ⟨true, true, describeError u⟩

/-- The status line where the calls of one `connect` have led to a phase. -/
def Told (es : List Event) : Phase → Prop
  | .off =>
    NoError es ∧ shown es = {} ∧ .connect ∉ es ∨ ErrorTold es ∧ .connect ∈ es ∨
      NoError es ∧ shown es = ⟨false, true, .statusDisconnected⟩ ∧ .connect ∈ es
  | .opening => NoError es ∧ shown es = {} ∧ .connect ∈ es
  | .connected _ _ => NoError es ∧ shown es = ⟨false, false, .statusConnecting⟩ ∧ .connect ∈ es
  | .failed => ErrorTold es ∧ .connect ∈ es

variable {es : List Event} {e : Event}

theorem shown_concat (es : List Event) (e : Event) :
    shown (es ++ [e]) = (shown es).handle false e := by
  rw [shown, List.foldl_append]
  rfl

theorem NoError.concat (h : NoError es) (he : ∀ u, e ≠ .onError u) : NoError (es ++ [e]) := by
  intro u hu
  rcases List.mem_append.mp hu with hu | hu
  · exact h u hu
  · exact he u (List.mem_singleton.mp hu).symm

theorem ErrorTold.concat (h : ErrorTold es) (he : (shown es).handle false e = shown es) :
    ErrorTold (es ++ [e]) := by
  obtain ⟨u, hu, hshown⟩ := h
  exact ⟨u, List.mem_append_left _ hu, by rw [shown_concat, he, hshown]⟩

theorem errorTold_of_error (es : List Event) (u : Throwable) : ErrorTold (es ++ [.onError u]) :=
  ⟨u, List.mem_append_right _ (List.mem_singleton_self _), by rw [shown_concat]; rfl⟩

/-- The end of a session is not told after an error. -/
theorem ErrorTold.handle_disconnected (h : ErrorTold es) :
    (shown es).handle false .onDisconnected = shown es := by
  obtain ⟨u, -, hshown⟩ := h
  rw [hshown]
  rfl

/-- Calls that change nothing. -/
theorem Told.concat {p : Phase} (h : Told es p) (hshown : (shown es).handle false e = shown es)
    (hconnect : e ≠ .connect) (herror : ∀ u, e ≠ .onError u) : Told (es ++ [e]) p := by
  have hsame : shown (es ++ [e]) = shown es := by rw [shown_concat, hshown]
  have hmem : .connect ∈ es ++ [e] ↔ .connect ∈ es := by
    rw [List.mem_append, List.mem_singleton, or_iff_left (Ne.symm hconnect)]
  have hno : NoError es → NoError (es ++ [e]) := fun hno => hno.concat herror
  have htold : ErrorTold es → ErrorTold (es ++ [e]) := fun htold => htold.concat hshown
  cases p with
  | off =>
    rw [Told, hsame, hmem]
    exact h.imp (fun h => ⟨hno h.1, h.2⟩) fun h =>
      h.imp (fun h => ⟨htold h.1, h.2⟩) fun h => ⟨hno h.1, h.2⟩
  | opening =>
    rw [Told, hsame, hmem]
    exact ⟨hno h.1, h.2⟩
  | connected width height =>
    rw [Told, hsame, hmem]
    exact ⟨hno h.1, h.2⟩
  | failed =>
    rw [Told, hmem]
    exact ⟨htold h.1, h.2⟩

/-- The end of a session in which no error was told. -/
theorem told_disconnected (hno : NoError es) (hshown : (shown es).hadError = false)
    (hin : .connect ∈ es) : Told (es ++ [.onDisconnected]) .off := by
  refine .inr (.inr ⟨hno.concat fun u => Event.noConfusion, ?_, List.mem_append_left _ hin⟩)
  rw [shown_concat, Ui.handle, if_pos (by rw [hshown]; rfl), hshown]

theorem told_of_run {p : Phase} : run Phase.next .off es = some p → es.count .connect ≤ 1 →
    Told es p := by
  induction es using List.reverseRecOn generalizing p with
  | nil =>
    intro hrun _
    cases hrun
    exact .inl ⟨fun u => List.not_mem_nil, rfl, List.not_mem_nil⟩
  | append_singleton es e ih =>
    intro hrun hcount
    obtain ⟨q, hq, hnext⟩ := run_concat_eq_some.mp hrun
    rw [List.count_append] at hcount
    have htold := ih hq (by omega)
    cases e with
    | disconnect =>
      rw [disconnect_of_phase, Option.some_inj] at hnext
      rw [← hnext]
      exact htold.concat rfl Event.noConfusion fun u => Event.noConfusion
    | connect =>
      cases q
      case off =>
        cases hnext
        -- `connect` is called once, so this is the first call and nothing was told before
        have hnone : Event.connect ∉ es := by
          rw [← List.count_eq_zero]
          have hone : [Event.connect].count .connect = 1 := rfl
          omega
        rcases htold with ⟨hno, hshown, -⟩ | ⟨-, hin⟩ | ⟨-, -, hin⟩
        · refine ⟨hno.concat fun u => Event.noConfusion, ?_, ?_⟩
          · rw [shown_concat, hshown]
            rfl
          · exact List.mem_append_right _ (List.mem_singleton_self _)
        · exact absurd hin hnone
        · exact absurd hin hnone
      all_goals cases hnext
    | onConnected width height =>
      cases q
      case opening =>
        cases hnext
        obtain ⟨hno, hshown, hin⟩ := htold
        refine ⟨hno.concat fun u => Event.noConfusion, ?_, List.mem_append_left _ hin⟩
        rw [shown_concat, hshown]
        rfl
      all_goals cases hnext
    | onFramebuffer width height =>
      cases q
      case connected w h =>
        obtain ⟨-, rfl⟩ := enabled_eq_some.mp hnext
        exact htold.concat rfl Event.noConfusion fun u => Event.noConfusion
      all_goals cases hnext
    | onError u =>
      cases q
      case opening =>
        cases hnext
        exact ⟨errorTold_of_error es u, List.mem_append_left _ htold.2.2⟩
      case connected w h =>
        cases hnext
        exact ⟨errorTold_of_error es u, List.mem_append_left _ htold.2.2⟩
      all_goals cases hnext
    | onDisconnected =>
      cases q
      case opening =>
        cases hnext
        obtain ⟨hno, hshown, hin⟩ := htold
        exact told_disconnected hno (by rw [hshown]) hin
      case connected w h =>
        cases hnext
        obtain ⟨hno, hshown, hin⟩ := htold
        exact told_disconnected hno (by rw [hshown]) hin
      case failed =>
        cases hnext
        obtain ⟨herror, hin⟩ := htold
        exact .inr (.inl ⟨herror.concat herror.handle_disconnected, List.mem_append_left _ hin⟩)
      all_goals cases hnext

/-! ### The activity's steps -/

/-- The session of an activity, that has called `connect` once or not. -/
structure OneCall (s : Session) (called : Bool) : Prop where
  accepted : Accepted s
  unconnected : Unconnected s
  untold : .onError .connectException ∉ s.events
  once : s.events.count .connect = if called then 1 else 0
  untouched : called = false → Untouched s

theorem oneCall_step {called : Bool} (h : OneCall s called)
    (ha : calling a = true → called = false) (hs : Listener.step s a = some t) :
    OneCall t (called || calling a) := by
  obtain ⟨es, hes, hcount, herrors⟩ := events_of_step hs
  refine ⟨accepted_step h.accepted hs,
    unconnected_step h.unconnected (fun hcalling => h.untouched (ha hcalling)) hs, ?_, ?_, ?_⟩
  · rw [hes, List.mem_append, not_or]
    refine ⟨h.untold, fun hmem => ?_⟩
    exact h.unconnected.telling (herrors _ hmem)
  · rw [hes, List.count_append, hcount, h.once]
    cases hcalling : calling a with
    | true =>
      rw [ha hcalling]
      rfl
    | false =>
      rw [Bool.or_false]
      rfl
  · intro hcalled
    obtain ⟨hbefore, hcalling⟩ := Bool.or_eq_false_iff.mp hcalled
    exact untouched_step (h.untouched hbefore) hcalling hs

/-- The status line, and the calls it is made from. -/
structure Line (l : Activity) : Prop where
  queue : l.handled ++ l.pending = l.session.events.filter posted
  error : l.ui.hadError = (shown l.handled).hadError
  visible : l.ui.hadError = true → l.ui.visible = true
  text : l.ui.text ≠ .errorNoServer

theorem queue_setSession (h : l.handled ++ l.pending = l.session.events.filter posted)
    (hs : Listener.step l.session a = some t) :
    (l.setSession t).handled ++ (l.setSession t).pending = t.events.filter posted := by
  obtain ⟨es, hes, -, -⟩ := events_of_step hs
  have hnew : t.events.drop l.session.events.length = es := by
    rw [hes, List.drop_left]
  show l.handled ++ (l.pending ++ (t.events.drop l.session.events.length).filter posted) = _
  rw [hnew, ← List.append_assoc, h, hes, List.filter_append]

theorem handle_hadError {ui ui' : Ui} {isFinishing : Bool} (h : ui.hadError = ui'.hadError)
    (e : Event) : (ui.handle isFinishing e).hadError = (ui'.handle false e).hadError := by
  cases e with
  | onDisconnected =>
    rw [Ui.handle, Ui.handle]
    split
    · split
      · exact h
      · exact h
    · split
      · exact h
      · exact h
  | onConnected width height => rfl
  | onError u => rfl
  | _ => exact h

theorem handle_visible {ui : Ui} {isFinishing : Bool} (h : ui.hadError = true → ui.visible = true)
    (e : Event) : (ui.handle isFinishing e).hadError = true →
      (ui.handle isFinishing e).visible = true := by
  cases e with
  | onDisconnected =>
    rw [Ui.handle]
    split
    · exact fun _ => rfl
    · exact h
  | onConnected width height => exact fun herror => absurd herror Bool.false_ne_true
  | onError u => exact fun _ => rfl
  | _ => exact h

theorem handle_text {ui : Ui} {isFinishing : Bool} (h : ui.text ≠ .errorNoServer)
    (he : e ≠ .onError .connectException) :
    (ui.handle isFinishing e).text ≠ .errorNoServer := by
  cases e with
  | onDisconnected =>
    rw [Ui.handle]
    split
    · exact Text.noConfusion
    · exact h
  | onConnected width height => exact h
  | onError u =>
    cases u with
    | connectException => exact absurd rfl he
    | socketTimeout => exact Text.noConfusion
    | other => exact Text.noConfusion
  | _ => exact h

/-- What holds of an activity at any time. -/
structure Inv (l : Activity) : Prop where
  calls : OneCall l.session l.called
  line : Line l

theorem inv_step {b : Action} (h : Inv l) (hs : step l b = some m) : Inv m := by
  obtain ⟨hcalls, hqueue, herror, hvisible, htext⟩ := h
  cases b with
  | setClient =>
    obtain ⟨-, rfl⟩ := disabled_eq_some.mp hs
    exact ⟨hcalls, hqueue, herror, hvisible, htext⟩
  | session a =>
    rw [step] at hs
    obtain ⟨hallows, hs⟩ := Option.ite_none_right_eq_some.mp hs
    obtain ⟨t, ht, hs⟩ := Option.bind_eq_some_iff.mp hs
    cases hs
    -- `connect` is started only where it was not called before
    have honce : calling a = true → l.called = false := by
      intro hcalling
      cases a
      case connect root width height =>
        simpa using (Bool.and_eq_true_iff.mp hallows).2
      case connectFails u =>
        simpa using (Bool.and_eq_true_iff.mp hallows).2
      all_goals cases hcalling
    exact ⟨oneCall_step hcalls honce ht, queue_setSession hqueue ht, herror, hvisible, htext⟩
  | handle =>
    rw [step] at hs
    obtain ⟨-, hs⟩ := Option.ite_none_right_eq_some.mp hs
    cases hpending : l.pending with
    | nil =>
      rw [hpending] at hs
      cases hs
    | cons e es =>
      rw [hpending] at hs
      cases hs
      rw [hpending] at hqueue
      have hmem : e ∈ l.session.events := by
        refine List.mem_of_mem_filter (p := posted) ?_
        rw [← hqueue]
        exact List.mem_append_right _ List.mem_cons_self
      -- the listener is never told of a server that was not reached
      have he : e ≠ .onError .connectException := by
        rintro rfl
        exact hcalls.untold hmem
      refine ⟨hcalls, ?_, ?_, handle_visible hvisible e, handle_text htext he⟩
      · show (l.handled ++ [e]) ++ es = _
        rw [List.append_assoc]
        exact hqueue
      · show (l.ui.handle l.isFinishing e).hadError = (shown (l.handled ++ [e])).hadError
        rw [shown_concat]
        exact handle_hadError herror e
  | toggleMode mouse =>
    obtain ⟨-, rfl⟩ := enabled_eq_some.mp hs
    exact ⟨hcalls, hqueue, herror, fun _ => rfl, Text.noConfusion⟩
  | hide =>
    obtain ⟨-, rfl⟩ := enabled_eq_some.mp hs
    refine ⟨hcalls, hqueue, ?_, ?_, ?_⟩
    · dsimp only
      split
      · exact herror
      · exact herror
    · dsimp only
      split
      next hhide =>
        intro hsome
        rw [hsome] at hhide
        cases hhide
      · exact hvisible
    · dsimp only
      split
      · exact htext
      · exact htext
  | terminalFails =>
    obtain ⟨-, rfl⟩ := enabled_eq_some.mp hs
    exact ⟨hcalls, hqueue, herror, fun _ => rfl, Text.noConfusion⟩
  | destroy isFinishing =>
    rw [step] at hs
    obtain ⟨-, hs⟩ := Option.ite_none_right_eq_some.mp hs
    split at hs
    · obtain ⟨t, ht, hs⟩ := Option.bind_eq_some_iff.mp hs
      cases hs
      have hcalls' := oneCall_step hcalls (fun hcalling => by cases hcalling) ht
      rw [show calling .disconnect = false from rfl, Bool.or_false] at hcalls'
      exact ⟨hcalls', queue_setSession hqueue ht, herror, hvisible, htext⟩
    · cases hs
      exact ⟨hcalls, hqueue, herror, hvisible, htext⟩

theorem inv_run {as : List Action} (h : run step {} as = some l) : Inv l := by
  have hsession : OneCall {} false := by
    refine ⟨⟨.off, rfl, rfl, rfl⟩, ⟨fun _ => rfl, fun h => ?_⟩, List.not_mem_nil, rfl,
      fun _ => ⟨rfl, rfl, rfl⟩⟩
    cases h
  have hstart : Inv {} := ⟨hsession, rfl, rfl, fun _ => rfl, Text.noConfusion⟩
  exact run_invariant_of_step (fun l b m hl hs => inv_step hl hs) hstart h

/-! ### What is said -/

/-- That no server was found is not told, and not shown: it is found out before `running` is
set, and the thread tries once. -/
theorem no_server_untold {as : List Action} (h : run step {} as = some l) :
    .onError .connectException ∉ l.session.events ∧ l.ui.text ≠ .errorNoServer :=
  ⟨(inv_run h).calls.untold, (inv_run h).line.text⟩

/-- The thread finds no server. -/
def refused : List Action :=
  [.setClient, .session (.connectFails .connectException)] ++
    List.replicate 5 (Action.session (.net .ok .other false)) ++ [.handle]

theorem refused_untold : ∃ l, run step {} refused = some l ∧
    .onError .connectException ∉ l.session.events ∧ l.ui.text ≠ .errorNoServer ∧
      l.ui.text = .statusDisconnected := by
  obtain ⟨l, hrun, htext⟩ : ∃ l, run step {} refused = some l ∧
      l.ui.text = .statusDisconnected := ⟨_, rfl, rfl⟩
  obtain ⟨huntold, hother⟩ := no_server_untold hrun
  exact ⟨l, hrun, huntold, hother, htext⟩

theorem shown_filter (es : List Event) : shown (es.filter posted) = shown es := by
  rw [shown, List.foldl_filter, shown]
  refine congrArg (fun f => es.foldl f ({} : Ui)) (funext fun ui => funext fun e => ?_)
  cases e with
  | _ => rfl

/-- Where only the listener writes to the status line. -/
structure Exact (l : Activity) : Prop where
  hides : l.hides = 0
  shows : l.isFinishing = false → l.ui = shown l.handled

theorem exact_step {b : Action} (h : Exact l) (hb : b.writes = false) (hs : step l b = some m) :
    Exact m := by
  obtain ⟨hhides, hshows⟩ := h
  cases b with
  | setClient =>
    obtain ⟨-, rfl⟩ := disabled_eq_some.mp hs
    exact ⟨hhides, hshows⟩
  | session a =>
    rw [step] at hs
    obtain ⟨-, hs⟩ := Option.ite_none_right_eq_some.mp hs
    obtain ⟨t, -, hs⟩ := Option.bind_eq_some_iff.mp hs
    cases hs
    exact ⟨hhides, hshows⟩
  | handle =>
    rw [step] at hs
    obtain ⟨-, hs⟩ := Option.ite_none_right_eq_some.mp hs
    cases hpending : l.pending with
    | nil =>
      rw [hpending] at hs
      cases hs
    | cons e es =>
      rw [hpending] at hs
      cases hs
      refine ⟨hhides, fun hfinishing => ?_⟩
      have hnot : l.isFinishing = false := hfinishing
      show l.ui.handle l.isFinishing e = shown (l.handled ++ [e])
      rw [shown_concat, hnot, hshows hnot]
  | toggleMode mouse => cases hb
  | hide =>
    obtain ⟨⟨-, hsome⟩, -⟩ := enabled_eq_some.mp hs
    omega
  | terminalFails => cases hb
  | destroy isFinishing =>
    rw [step] at hs
    obtain ⟨-, hs⟩ := Option.ite_none_right_eq_some.mp hs
    split at hs
    · obtain ⟨t, -, hs⟩ := Option.bind_eq_some_iff.mp hs
      cases hs
      exact ⟨hhides, fun hfinishing => hshows (Bool.or_eq_false_iff.mp hfinishing).1⟩
    · cases hs
      exact ⟨hhides, fun hfinishing => hshows (Bool.or_eq_false_iff.mp hfinishing).1⟩

/-- Once the session has ended and the UI thread has run its calls, it is known whether an
error was told; if nothing else has written to the status line, it shows the error, or that the
session has ended. -/
theorem status_settled {as : List Action} (h : run step {} as = some l)
    (hcalled : l.called = true) (hidle : l.session.client.net = .idle)
    (hpending : l.pending = []) :
    (l.ui.hadError = true ↔ ∃ u, .onError u ∈ l.session.events) ∧
      ((∀ b ∈ as, b.writes = false) → l.isFinishing = false → l.ui.visible = true ∧
        ((∃ u, .onError u ∈ l.session.events ∧ l.ui.text = describeError u) ∨
          (∀ u, .onError u ∉ l.session.events) ∧ l.ui.text = .statusDisconnected)) := by
  obtain ⟨hcalls, hline⟩ := inv_run h
  have hhandled : shown l.handled = shown l.session.events := by
    have hqueue := hline.queue
    rw [hpending, List.append_nil] at hqueue
    rw [hqueue, shown_filter]
  have honce : l.session.events.count .connect = 1 := by
    rw [hcalls.once, hcalled]
    rfl
  obtain ⟨p, hp, hat⟩ := hcalls.accepted
  obtain rfl := hat.of_idle hidle
  have htold : ErrorTold l.session.events ∨ NoError l.session.events ∧
      shown l.session.events = ⟨false, true, .statusDisconnected⟩ := by
    rcases told_of_run hp (Nat.le_of_eq honce) with ⟨-, -, hnone⟩ | ⟨herror, -⟩ | ⟨hno, hshown, -⟩
    · rw [List.count_eq_zero.mpr hnone] at honce
      cases honce
    · exact .inl herror
    · exact .inr ⟨hno, hshown⟩
  refine ⟨?_, fun hwrites hfinishing => ?_⟩
  · rw [hline.error, hhandled]
    rcases htold with ⟨u, hu, hshown⟩ | ⟨hno, hshown⟩
    · rw [hshown]
      exact ⟨fun _ => ⟨u, hu⟩, fun _ => rfl⟩
    · rw [hshown]
      exact ⟨fun herror => absurd herror Bool.false_ne_true, fun htold =>
        htold.elim fun u hu => absurd hu (hno u)⟩
  · have hexact : Exact l :=
      run_invariant (fun l b m hl hb hs => exact_step hl hb hs) ⟨rfl, fun _ => rfl⟩
        (meets_of_forall_mem hwrites _) h
    rw [hexact.shows hfinishing, hhandled]
    rcases htold with ⟨u, hu, hshown⟩ | ⟨hno, hshown⟩
    · rw [hshown]
      exact ⟨rfl, .inl ⟨u, hu, rfl⟩⟩
    · rw [hshown]
      exact ⟨rfl, .inr ⟨hno, rfl⟩⟩

theorem refused_settled : ∃ l, run step {} refused = some l ∧
    (l.ui.hadError = true ↔ ∃ u, .onError u ∈ l.session.events) ∧ l.ui.visible = true := by
  obtain ⟨l, hrun, hcalled, hidle, hpending, hfinishing⟩ : ∃ l, run step {} refused = some l ∧
      l.called = true ∧ l.session.client.net = .idle ∧ l.pending = [] ∧ l.isFinishing = false :=
    ⟨_, rfl, rfl, rfl, rfl, rfl⟩
  obtain ⟨herror, hstatus⟩ := status_settled hrun hcalled hidle hpending
  exact ⟨l, hrun, herror, (hstatus (by decide) hfinishing).1⟩

end X11Client.Launcher
