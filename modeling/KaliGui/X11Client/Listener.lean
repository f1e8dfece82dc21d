/-
What a session tells its listener (`X11Client.kt`, lines 84 to 166 and 250 to 295).

`connect` calls `onConnected` once the setup reply is parsed, and `onFramebuffer` for the
images that have changed.  An exception goes to its `catch`, which calls `onError` if `running`
is still set; the UI thread may disconnect before `running` is looked at, and between the look
and the call.  `finally` closes the socket and calls `onDisconnected`.

* `Session`, `step` — the client, with the exception that is caught and the calls made so far;
* `Phase` — what a listener may rely on, as an automaton over the calls;
* `callbacks_ordered` — in every run the calls are accepted;
* `disconnected_silent_iff` — from where in `connect` no error is told after `disconnect`.
-/
import KaliGui.X11Client.Session

namespace X11Client.Listener

open Machine

/-! ### The session -/

/-- The exceptions that `describeError` tells apart. -/
inductive Throwable
  | connectException
  | socketTimeout
  | other
  deriving DecidableEq, Repr

/-- The calls of the listener, and those of `connect` and `disconnect`. -/
inductive Event
  | connect
  | onConnected (width height : ℕ)
  | onFramebuffer (width height : ℕ)
  | onError (t : Throwable)
  | onDisconnected
  | disconnect
  deriving DecidableEq, Repr

/-- An exception that is caught. -/
inductive Caught
  /-- before `running.get()` -/
  | looking (t : Throwable)
  /-- `running` was set; before `listener.onError` -/
  | telling (t : Throwable)
  deriving DecidableEq, Repr

structure Session where
  client : State := {}
  /-- in `catch` -/
  caught : Option Caught := none
  events : List Event := []

inductive Action
  /-- `connect` is called and the socket connects to a server -/
  | connect (root width height : ℕ)
  /-- `connect` is called and the socket does not connect -/
  | connectFails (t : Throwable)
  /-- if the step throws, it is `t`; if it reads an image, that may have changed -/
  | net (env : NetEnv) (t : Throwable) (changed : Bool)
  | send (c : Call)
  | disconnect
  | ui (fails : Bool)
  deriving DecidableEq, Repr

/-- The parts of `connect`. -/
inductive Stage
  | idle
  /-- `running` is not set yet -/
  | starting
  | handshake
  | frameLoop
  | closing
  deriving DecidableEq, Repr

def stage : NetPc → Stage
  | .idle => .idle
  | .setSocket _ => .starting
  | .setInput _ => .starting
  | .setOutput _ => .starting
  | .setRunning _ => .starting
  | .handshake _ => .handshake
  | .setupReady _ _ => .handshake
  | .setup _ _ => .handshake
  | .awaitingReply _ => .handshake
  | .frameLoop _ => .frameLoop
  | .getImage _ => .frameLoop
  | .imageReady _ _ _ => .frameLoop
  | .image _ _ _ => .frameLoop
  | .awaitingImage _ _ => .frameLoop
  | .closing _ => .closing

/-- The step before which the network thread is at `pc` throws; `while (running.get())` goes to
`finally` without. -/
def throws (pc : NetPc) (after : State) : Bool :=
  match pc with
  | .frameLoop _ => false
  | _ => after.net = .closing .closeSocket

/-- A socket that is connected does not throw a `ConnectException`; reads have a timeout. -/
def Throwable.possible (t : Throwable) (pc : NetPc) : Bool :=
  match t, pc with
  | .connectException, _ => false
  | .socketTimeout, .awaitingReply _ => true
  | .socketTimeout, .awaitingImage _ _ => true
  | .socketTimeout, _ => false
  | .other, _ => true

/-- What the step calls, if it does not throw. -/
def calls (pc : NetPc) (after : State) (changed : Bool) : List Event :=
  match pc with
  | .awaitingReply _ => [.onConnected after.screenWidth after.screenHeight]
  | .awaitingImage _ _ =>
    if changed then [.onFramebuffer after.screenWidth after.screenHeight] else []
  | .closing .dropOutput => [.onDisconnected]
  | _ => []

/-- A step of the network thread. -/
def Session.net (s : Session) (env : NetEnv) (t : Throwable) (changed : Bool) : Option Session :=
  match s.caught with
  | some (.looking t) =>
    some { s with caught := if s.client.running then some (.telling t) else none }
  | some (.telling t) => some { s with caught := none, events := s.events ++ [.onError t] }
  | none => do
    let client ← netStep s.client env
    if throws s.client.net client then
      if t.possible s.client.net then some { s with client := client, caught := some (.looking t) }
      else none
    else
      some { s with
        client := client, events := s.events ++ calls s.client.net client changed }

def step (s : Session) : Action → Option Session
  | .connect root width height => do
    let client ← X11Client.step s.client (.connect root width height)
    some { s with client := client, events := s.events ++ [.connect] }
  | .connectFails t => do
    let client ← X11Client.step s.client .connectFails
    some { s with
      client := client, caught := some (.looking t), events := s.events ++ [.connect] }
  | .net env t changed => s.net env t changed
  | .send c => do
    let client ← X11Client.step s.client (.send c)
    some { s with client := client }
  | .disconnect => do
    let client ← X11Client.step s.client .disconnect
    some { s with client := client, events := s.events ++ [.disconnect] }
  | .ui fails => do
    let client ← X11Client.step s.client (.ui fails)
    some { s with client := client }

/-! ### What a listener may rely on -/

/-- What was called in the current `connect`. -/
inductive Phase
  /-- no `connect` is under way -/
  | off
  | opening
  /-- `onConnected` was called, with this size -/
  | connected (width height : ℕ)
  /-- `onError` was called -/
  | failed
  deriving DecidableEq, Repr

/-- The calls that may come next; `disconnect` may be called at any time. -/
def Phase.next : Phase → Event → Option Phase
  | .off, .connect => some .opening
  | .opening, .onConnected width height => some (.connected width height)
  | .connected width height, .onFramebuffer w h =>
    if w = width ∧ h = height then some (.connected width height) else none
  | .opening, .onError _ => some .failed
  | .connected _ _, .onError _ => some .failed
  | .opening, .onDisconnected => some .off
  | .connected _ _, .onDisconnected => some .off
  | .failed, .onDisconnected => some .off
  | p, .disconnect => some p
  | _, _ => none

/-- The phase the client is in. -/
def At (s : Session) (p : Phase) : Prop :=
  match stage s.client.net with
  | .idle => p = .off ∧ s.caught = none
  | .starting => p = .opening ∧ s.caught = none
  | .handshake => p = .opening ∧ s.caught = none
  | .frameLoop => p = .connected s.client.screenWidth s.client.screenHeight ∧ s.caught = none
  | .closing => p ≠ .off ∧ (s.caught ≠ none → p ≠ .failed)

/-- The calls so far are accepted, and lead to the phase of the client. -/
def Accepted (s : Session) : Prop :=
  ∃ p, run Phase.next .off s.events = some p ∧ At s p

/-! ### The steps -/

variable {s s' t : Session} {c c' : State} {env : NetEnv} {changed : Bool} {es : List Event}

/-- What a step that does not throw calls on its way from stage to stage. -/
def Goes (c c' : State) (es : List Event) : Prop :=
  match stage c.net, stage c'.net with
  | .starting, .starting => es = []
  | .starting, .handshake => es = []
  | .handshake, .handshake => es = []
  | .handshake, .frameLoop => es = [.onConnected c'.screenWidth c'.screenHeight]
  | .frameLoop, .frameLoop =>
    (c'.screenWidth = c.screenWidth ∧ c'.screenHeight = c.screenHeight) ∧
      (es = [] ∨ es = [.onFramebuffer c'.screenWidth c'.screenHeight])
  | .frameLoop, .closing => es = []
  | .closing, .closing => es = []
  | .closing, .idle => es = [.onDisconnected]
  | _, _ => False

theorem goes_of_netStep (h : netStep c env = some c') (ht : throws c.net c' = false) :
    Goes c c' (calls c.net c' changed) := by
  rw [netStep] at h
  rw [Goes]
  -- one case for each place of the thread; those that throw are excluded by `ht`
  cases hpc : c.net
  all_goals
    rw [hpc] at h ht
    dsimp only at h
  case idle => cases h
  case setSocket k =>
    cases h
    rfl
  case setInput k =>
    split at h
    · cases h
      cases ht
    · cases h
      rfl
  case setOutput k =>
    split at h
    · cases h
      cases ht
    · cases h
      rfl
  case setRunning k =>
    cases h
    rfl
  case handshake k =>
    split at h
    · cases h
      rfl
    · cases h
      cases ht
  case setupReady out inp =>
    obtain ⟨-, rfl⟩ := enabled_eq_some.mp h
    rfl
  case setup w inp =>
    split at h
    · cases h
      rfl
    · split at h
      · cases h
        cases ht
      · cases h
        rfl
  case awaitingReply inp =>
    cases env
    · cases h
      rfl
    · cases h
      cases ht
    · cases h
      cases ht
  case frameLoop k =>
    split at h
    · cases h
      exact ⟨⟨rfl, rfl⟩, .inl rfl⟩
    · cases h
      rfl
  case getImage k =>
    split at h
    · cases h
      exact ⟨⟨rfl, rfl⟩, .inl rfl⟩
    · cases h
      cases ht
  case imageReady k out inp =>
    obtain ⟨-, rfl⟩ := enabled_eq_some.mp h
    exact ⟨⟨rfl, rfl⟩, .inl rfl⟩
  case image k w inp =>
    split at h
    · cases h
      exact ⟨⟨rfl, rfl⟩, .inl rfl⟩
    · split at h
      · cases h
        cases ht
      · cases h
        exact ⟨⟨rfl, rfl⟩, .inl rfl⟩
  case awaitingImage k inp =>
    split at h
    · cases h
      refine ⟨⟨rfl, rfl⟩, ?_⟩
      cases changed
      · -- no picture, or the same again: nothing is told
        exact .inl rfl
      · exact .inr rfl
    · cases h
      cases ht
  case closing c =>
    cases c
    all_goals
      cases h
      rfl

/-- Where a step throws. -/
theorem stage_of_throws (h : netStep c env = some c') (ht : throws c.net c' = true) :
    (stage c.net ≠ .idle ∧ stage c.net ≠ .closing) ∧ stage c'.net = .closing := by
  cases hpc : c.net
  all_goals rw [hpc] at ht
  case idle =>
    rw [netStep, hpc] at h
    cases h
  case frameLoop k => cases ht
  case closing step =>
    rw [netStep, hpc] at h
    cases step
    all_goals
      cases h
      cases ht
  all_goals
    rw [of_decide_eq_true ht]
    exact ⟨⟨Stage.noConfusion, Stage.noConfusion⟩, rfl⟩

/-- Only the start of `connect` sets `running`. -/
theorem running_of_netStep (h : netStep c env = some c') :
    c'.running = c.running ∨ stage c.net = .starting ∧ stage c'.net = .handshake := by
  rw [netStep] at h
  cases hpc : c.net
  all_goals
    rw [hpc] at h
    dsimp only at h
  case idle => cases h
  case setRunning k =>
    cases h
    exact .inr ⟨rfl, rfl⟩
  case awaitingReply inp =>
    cases env
    all_goals
      cases h
      exact .inl rfl
  case closing step =>
    cases step
    case closeSocket =>
      rw [State.close] at h
      cases h
      dsimp only
      split
      · exact .inl rfl
      · exact .inl rfl
    all_goals
      cases h
      exact .inl rfl
  case setSocket k =>
    cases h
    exact .inl rfl
  case setupReady out inp =>
    obtain ⟨-, rfl⟩ := enabled_eq_some.mp h
    exact .inl rfl
  case imageReady k out inp =>
    obtain ⟨-, rfl⟩ := enabled_eq_some.mp h
    exact .inl rfl
  case setup w inp =>
    split at h
    · cases h
      exact .inl rfl
    · split at h
      all_goals
        cases h
        exact .inl rfl
  case image k w inp =>
    split at h
    · cases h
      exact .inl rfl
    · split at h
      all_goals
        cases h
        exact .inl rfl
  all_goals
    split at h
    all_goals
      cases h
      exact .inl rfl

theorem close_same (c : State) (step : Closing) :
    (c.close step).1.net = c.net ∧ (c.close step).1.running = c.running ∧
      (c.close step).1.screenWidth = c.screenWidth ∧
      (c.close step).1.screenHeight = c.screenHeight := by
  cases step with
  | closeSocket =>
    rw [State.close]
    dsimp only
    split
    · exact ⟨rfl, rfl, rfl, rfl⟩
    · exact ⟨rfl, rfl, rfl, rfl⟩
  | dropSocket => exact ⟨rfl, rfl, rfl, rfl⟩
  | dropInput => exact ⟨rfl, rfl, rfl, rfl⟩
  | dropOutput => exact ⟨rfl, rfl, rfl, rfl⟩

/-- The UI thread leaves what the network thread reads here, but for `disconnect`. -/
theorem uiStep_same {fails : Bool} (h : uiStep c fails = some c') :
    c'.net = c.net ∧ c'.running = c.running ∧ c'.screenWidth = c.screenWidth ∧
      c'.screenHeight = c.screenHeight := by
  rw [uiStep] at h
  cases hpc : c.ui
  all_goals
    rw [hpc] at h
    dsimp only at h
  case closing step =>
    have hsame := close_same c step
    split at h
    next heq =>
      rw [heq] at hsame
      cases h
      exact hsame
    next heq =>
      rw [heq] at hsame
      cases h
      exact hsame
  case injectReady e out =>
    obtain ⟨-, rfl⟩ := enabled_eq_some.mp h
    exact ⟨rfl, rfl, rfl, rfl⟩
  case inject w =>
    split at h
    · cases h
      exact ⟨rfl, rfl, rfl, rfl⟩
    · split at h
      all_goals
        cases h
        exact ⟨rfl, rfl, rfl, rfl⟩
  case idle =>
    split at h
    · cases h
    · cases h
      exact ⟨rfl, rfl, rfl, rfl⟩
  case getOutput e =>
    split at h
    all_goals
      cases h
      exact ⟨rfl, rfl, rfl, rfl⟩

/-! ### The calls are in order -/

/-- The phase after the calls of a step. -/
theorem phase_of_goes {p : Phase} {es' : List Event} (hp : At ⟨c, none, es⟩ p)
    (hgoes : Goes c c' es') (all : List Event) :
    ∃ p', run Phase.next p es' = some p' ∧ At ⟨c', none, all⟩ p' := by
  rw [Goes] at hgoes
  rw [At] at hp
  dsimp only at hp
  -- the cases are those of `Goes`: the stages before the step and after it
  split at hgoes
  next hs ht =>
    rw [hs] at hp
    refine ⟨p, by rw [hgoes, run_nil], ?_⟩
    rw [At, ht]
    exact hp
  next hs ht =>
    rw [hs] at hp
    refine ⟨p, by rw [hgoes, run_nil], ?_⟩
    rw [At, ht]
    exact hp
  next hs ht =>
    rw [hs] at hp
    refine ⟨p, by rw [hgoes, run_nil], ?_⟩
    rw [At, ht]
    exact hp
  next hs ht =>
    rw [hs] at hp
    obtain ⟨rfl, -⟩ := hp
    refine ⟨.connected c'.screenWidth c'.screenHeight, by rw [hgoes]; rfl, ?_⟩
    rw [At, ht]
    exact ⟨rfl, rfl⟩
  next hs ht =>
    rw [hs] at hp
    obtain ⟨rfl, -⟩ := hp
    -- in the loop: a picture of the size that was told, or no call
    obtain ⟨⟨hw, hh⟩, hes⟩ := hgoes
    refine ⟨.connected c.screenWidth c.screenHeight, ?_, ?_⟩
    · rcases hes with hes | hes
      · rw [hes, run_nil]
      · rw [hes, run_singleton, Phase.next, if_pos ⟨hw, hh⟩]
    · rw [At, ht]
      exact ⟨by rw [hw, hh], rfl⟩
  next hs ht =>
    rw [hs] at hp
    obtain ⟨rfl, -⟩ := hp
    refine ⟨.connected c.screenWidth c.screenHeight, by rw [hgoes, run_nil], ?_⟩
    rw [At, ht]
    exact ⟨Phase.noConfusion, fun _ => Phase.noConfusion⟩
  next hs ht =>
    rw [hs] at hp
    refine ⟨p, by rw [hgoes, run_nil], ?_⟩
    rw [At, ht]
    exact ⟨hp.1, fun hcaught => absurd rfl hcaught⟩
  next hs ht =>
    rw [hs] at hp
    refine ⟨.off, ?_, ?_⟩
    · rw [hgoes, run_singleton]
      cases p with
      | off => exact absurd rfl hp.1
      | opening => rfl
      | connected w h => rfl
      | failed => rfl
    · rw [At, ht]
      exact ⟨rfl, rfl⟩
  next => exact hgoes.elim

/-- In the phases in which an exception is caught. -/
theorem error_of_phase {p : Phase} (hoff : p ≠ .off) (hfailed : p ≠ .failed) (t : Throwable) :
    Phase.next p (.onError t) = some .failed := by
  cases p with
  | off => exact absurd rfl hoff
  | opening => rfl
  | connected w h => rfl
  | failed => exact absurd rfl hfailed

theorem disconnect_of_phase (p : Phase) : Phase.next p .disconnect = some p := by
  cases p
  all_goals rfl

theorem accepted_append {p q : Phase} (h : run Phase.next .off s.events = some p)
    (h' : run Phase.next p es = some q) (hat : At t q) (ht : t.events = s.events ++ es) :
    Accepted t := by
  refine ⟨q, ?_, hat⟩
  rw [ht, run_append_of_eq h]
  exact h'

/-- Where only the client has changed, and not what is seen of it here. -/
theorem At.congr {p : Phase} (h : At s p) (hnet : t.client.net = s.client.net)
    (hcaught : t.caught = s.caught) (hwidth : t.client.screenWidth = s.client.screenWidth)
    (hheight : t.client.screenHeight = s.client.screenHeight) : At t p := by
  rw [At] at h ⊢
  rw [hnet, hcaught, hwidth, hheight]
  exact h

/-- An exception is caught in the last part of `connect`, and was not told. -/
theorem At.of_caught {p : Phase} (h : At s p) (hcaught : s.caught ≠ none) :
    stage s.client.net = .closing ∧ p ≠ .off ∧ p ≠ .failed := by
  rw [At] at h
  split at h
  · exact absurd h.2 hcaught
  · exact absurd h.2 hcaught
  · exact absurd h.2 hcaught
  · exact absurd h.2 hcaught
  next hstage => exact ⟨hstage, h.1, h.2 hcaught⟩

/-- Before that, no error was told. -/
theorem At.of_stage {p : Phase} (h : At s p) (hidle : stage s.client.net ≠ .idle)
    (hclosing : stage s.client.net ≠ .closing) : p ≠ .off ∧ p ≠ .failed := by
  rw [At] at h
  split at h
  next hstage => exact absurd hstage hidle
  · exact ⟨h.1 ▸ Phase.noConfusion, h.1 ▸ Phase.noConfusion⟩
  · exact ⟨h.1 ▸ Phase.noConfusion, h.1 ▸ Phase.noConfusion⟩
  · exact ⟨h.1 ▸ Phase.noConfusion, h.1 ▸ Phase.noConfusion⟩
  next hstage => exact absurd hstage hclosing

theorem at_closing {p : Phase} (hstage : stage s.client.net = .closing) (hoff : p ≠ .off)
    (hfailed : s.caught ≠ none → p ≠ .failed) : At s p := by
  rw [At, hstage]
  exact ⟨hoff, hfailed⟩

theorem accepted_net {u : Throwable} (h : Accepted s) (hs : s.net env u changed = some t) :
    Accepted t := by
  obtain ⟨p, hrun, hat⟩ := h
  rw [Session.net] at hs
  cases hcaught : s.caught with
  | some thrown =>
    rw [hcaught] at hs
    have hsome : s.caught ≠ none := by
      rw [hcaught]
      exact Option.some_ne_none thrown
    obtain ⟨hstage, hoff, hfailed⟩ := hat.of_caught hsome
    cases thrown with
    | looking t =>
      cases hs
      exact ⟨p, hrun, at_closing hstage hoff fun _ => hfailed⟩
    | telling t =>
      cases hs
      have hnext : run Phase.next p [.onError t] = some .failed := by
        rw [run_singleton]
        exact error_of_phase hoff hfailed t
      exact accepted_append hrun hnext
        (at_closing hstage Phase.noConfusion fun hnone => absurd rfl hnone) rfl
  | none =>
    rw [hcaught] at hs
    obtain ⟨client, hclient, hs⟩ := Option.bind_eq_some_iff.mp hs
    have hp : At ⟨s.client, none, s.events⟩ p := hat.congr rfl hcaught.symm rfl rfl
    cases hthrows : throws s.client.net client with
    | true =>
      rw [hthrows, if_pos rfl] at hs
      obtain ⟨-, rfl⟩ := enabled_eq_some.mp hs
      obtain ⟨⟨hidle, hclosing⟩, hstage⟩ := stage_of_throws hclient hthrows
      obtain ⟨hoff, hfailed⟩ := hat.of_stage hidle hclosing
      exact ⟨p, hrun, at_closing hstage hoff fun _ => hfailed⟩
    | false =>
      rw [hthrows, if_neg Bool.false_ne_true] at hs
      cases hs
      obtain ⟨p', hrun', hat'⟩ := phase_of_goes hp (goes_of_netStep hclient hthrows)
        (s.events ++ calls s.client.net client changed)
      exact accepted_append hrun hrun' hat' rfl

/-- `connect` is called in no other call of it. -/
theorem At.of_idle {p : Phase} (h : At s p) (hidle : s.client.net = .idle) : p = .off := by
  rw [At, hidle] at h
  exact h.1

theorem accepted_step {a : Action} (h : Accepted s) (hs : step s a = some t) : Accepted t := by
  cases a with
  | connect root width height =>
    obtain ⟨client, hclient, hs⟩ := Option.bind_eq_some_iff.mp hs
    cases hs
    obtain ⟨hidle, rfl⟩ := enabled_eq_some.mp hclient
    obtain ⟨p, hrun, hat⟩ := h
    have hcaught : s.caught = none := by
      rw [At, hidle] at hat
      exact hat.2
    obtain rfl := hat.of_idle hidle
    exact accepted_append (q := .opening) hrun rfl ⟨rfl, hcaught⟩ rfl
  | connectFails u =>
    obtain ⟨client, hclient, hs⟩ := Option.bind_eq_some_iff.mp hs
    cases hs
    obtain ⟨hidle, rfl⟩ := enabled_eq_some.mp hclient
    obtain ⟨p, hrun, hat⟩ := h
    obtain rfl := hat.of_idle hidle
    exact accepted_append (q := .opening) hrun rfl
      ⟨Phase.noConfusion, fun _ => Phase.noConfusion⟩ rfl
  | net env u changed => exact accepted_net h hs
  | send call =>
    obtain ⟨client, hclient, hs⟩ := Option.bind_eq_some_iff.mp hs
    cases hs
    obtain ⟨-, rfl⟩ := enabled_eq_some.mp hclient
    obtain ⟨p, hrun, hat⟩ := h
    exact ⟨p, hrun, hat.congr rfl rfl rfl rfl⟩
  | disconnect =>
    obtain ⟨client, hclient, hs⟩ := Option.bind_eq_some_iff.mp hs
    cases hs
    obtain ⟨-, rfl⟩ := enabled_eq_some.mp hclient
    obtain ⟨p, hrun, hat⟩ := h
    have hnext : run Phase.next p [.disconnect] = some p := by
      rw [run_singleton]
      exact disconnect_of_phase p
    exact accepted_append hrun hnext (hat.congr rfl rfl rfl rfl) rfl
  | ui fails =>
    obtain ⟨client, hclient, hs⟩ := Option.bind_eq_some_iff.mp hs
    cases hs
    obtain ⟨hnet, -, hwidth, hheight⟩ := uiStep_same hclient
    obtain ⟨p, hrun, hat⟩ := h
    exact ⟨p, hrun, hat.congr hnet rfl hwidth hheight⟩

/-- In every run the listener is called in order: `onConnected`, frames of the size that it
said, at most one error, and `onDisconnected` at the end of each `connect`, and only then. -/
theorem callbacks_ordered {as : List Action} (h : run step {} as = some s) :
    ∃ p, run Phase.next .off s.events = some p ∧ (p = .off ↔ s.client.net = .idle) := by
  have hstart : Accepted {} := ⟨.off, rfl, rfl, rfl⟩
  obtain ⟨p, hrun, hat⟩ :=
    run_invariant_of_step (fun s a t hacc hs => accepted_step hacc hs) hstart h
  refine ⟨p, hrun, fun hoff => ?_, hat.of_idle⟩
  by_contra hnet
  have hidle : stage s.client.net ≠ .idle := by
    intro hstage
    cases hpc : s.client.net
    case idle => exact hnet hpc
    all_goals
      rw [hpc] at hstage
      cases hstage
  by_cases hclosing : stage s.client.net = .closing
  · rw [At, hclosing] at hat
    exact hat.1 hoff
  · exact (hat.of_stage hidle hclosing).1 hoff

/-- A session up to its first image. -/
def firstImage : List Action := .connect 0 640 480 :: List.replicate 29 (.net .ok .other true)

theorem firstImage_ordered : ∃ s, run step {} firstImage = some s ∧
    s.events = [.connect, .onConnected 640 480, .onFramebuffer 640 480] ∧
    ∃ p, run Phase.next .off s.events = some p ∧ (p = .off ↔ s.client.net = .idle) := by
  obtain ⟨s, hs, hevents⟩ : ∃ s, run step {} firstImage = some s ∧
      s.events = [.connect, .onConnected 640 480, .onFramebuffer 640 480] := ⟨_, rfl, rfl⟩
  exact ⟨s, hs, hevents, callbacks_ordered hs⟩

/-! ### Disconnecting -/

/-- The action starts a connection to a server. -/
def Action.connects : Action → Bool
  | .connect _ _ _ => true
  | _ => false

/-- Where `connect` is. -/
inductive Place
  | inStage (stage : Stage)
  /-- in `catch`, where `running` was found to be set -/
  | telling
  deriving DecidableEq, Repr

def Session.place (s : Session) : Place :=
  match s.caught with
  | some (.telling _) => .telling
  | _ => .inStage (stage s.client.net)

/-- `running` is not set nor about to be, and no error is about to be told. -/
structure Stopped (s : Session) : Prop where
  running : s.client.running = false
  stage : stage s.client.net ≠ .starting
  caught : ∀ t, s.caught ≠ some (.telling t)

/-- Past its start, `connect` does not come back to it. -/
theorem past_start (h : netStep c env = some c') (hc : stage c.net ≠ .starting) :
    stage c'.net ≠ .starting := by
  intro hc'
  cases ht : throws c.net c' with
  | true =>
    rw [(stage_of_throws h ht).2] at hc'
    cases hc'
  | false =>
    have hgoes : Goes c c' (calls c.net c' true) := goes_of_netStep h ht
    rw [Goes, hc'] at hgoes
    cases hstage : stage c.net
    case starting => exact hc hstage
    all_goals
      rw [hstage] at hgoes
      exact hgoes

theorem mem_calls {pc : NetPc} {e : Event} (h : e ∈ calls pc c changed) :
    e ≠ .connect ∧ ∀ u, e ≠ .onError u := by
  unfold calls at h
  split at h
  · rw [List.mem_singleton.mp h]
    exact ⟨Event.noConfusion, fun u => Event.noConfusion⟩
  · split at h
    · rw [List.mem_singleton.mp h]
      exact ⟨Event.noConfusion, fun u => Event.noConfusion⟩
    · exact absurd h List.not_mem_nil
  · rw [List.mem_singleton.mp h]
    exact ⟨Event.noConfusion, fun u => Event.noConfusion⟩
  · exact absurd h List.not_mem_nil

/-- While it is so no error is told. -/
theorem stopped_step {a : Action} (h : Stopped s) (ha : a.connects = false)
    (hs : step s a = some t) :
    Stopped t ∧ ∃ es, t.events = s.events ++ es ∧ ∀ u, .onError u ∉ es := by
  obtain ⟨hrunning, hstage, hcatch⟩ := h
  have silent : ∃ es, s.events = s.events ++ es ∧ ∀ u, .onError u ∉ es :=
    ⟨[], (List.append_nil _).symm, fun u hu => absurd hu List.not_mem_nil⟩
  cases a with
  | connect root width height => cases ha
  | connectFails u =>
    obtain ⟨client, hclient, hs⟩ := Option.bind_eq_some_iff.mp hs
    cases hs
    obtain ⟨-, rfl⟩ := enabled_eq_some.mp hclient
    refine ⟨⟨hrunning, Stage.noConfusion, fun t ht => ?_⟩, [.connect], rfl, fun u hu => ?_⟩
    · cases Option.some_inj.mp ht
    · cases List.mem_singleton.mp hu
  | net env u changed =>
    rw [step, Session.net] at hs
    cases hcaught : s.caught with
    | some thrown =>
      rw [hcaught] at hs
      cases thrown with
      | looking thrown =>
        -- `running` is found not to be set
        dsimp only at hs
        rw [hrunning, if_neg Bool.false_ne_true] at hs
        cases hs
        exact ⟨⟨hrunning, hstage, fun t ht => absurd ht.symm (Option.some_ne_none _)⟩, silent⟩
      | telling thrown => exact absurd hcaught (hcatch thrown)
    | none =>
      rw [hcaught] at hs
      obtain ⟨client, hclient, hs⟩ := Option.bind_eq_some_iff.mp hs
      have hstopped : client.running = false ∧ stage client.net ≠ .starting := by
        refine ⟨?_, past_start hclient hstage⟩
        rcases running_of_netStep hclient with hsame | ⟨hstarting, -⟩
        · rw [hsame, hrunning]
        · exact absurd hstarting hstage
      split at hs
      · obtain ⟨-, rfl⟩ := enabled_eq_some.mp hs
        refine ⟨⟨hstopped.1, hstopped.2, fun t ht => ?_⟩, silent⟩
        cases Option.some_inj.mp ht
      · cases hs
        refine ⟨⟨hstopped.1, hstopped.2, fun t ht => ?_⟩, _, rfl,
          fun u hu => (mem_calls hu).2 u rfl⟩
        exact absurd ht.symm (Option.some_ne_none _)
  | send call =>
    obtain ⟨client, hclient, hs⟩ := Option.bind_eq_some_iff.mp hs
    cases hs
    obtain ⟨-, rfl⟩ := enabled_eq_some.mp hclient
    exact ⟨⟨hrunning, hstage, hcatch⟩, silent⟩
  | disconnect =>
    obtain ⟨client, hclient, hs⟩ := Option.bind_eq_some_iff.mp hs
    cases hs
    obtain ⟨-, rfl⟩ := enabled_eq_some.mp hclient
    exact ⟨⟨rfl, hstage, hcatch⟩, [.disconnect], rfl, fun u hu => by
      cases List.mem_singleton.mp hu⟩
  | ui fails =>
    obtain ⟨client, hclient, hs⟩ := Option.bind_eq_some_iff.mp hs
    cases hs
    obtain ⟨hnet, hsame, -, -⟩ := uiStep_same hclient
    exact ⟨⟨hsame.trans hrunning, hnet ▸ hstage, hcatch⟩, silent⟩

theorem stopped_run {as : List Action} : ∀ {s : Session}, Stopped s →
    (∀ a ∈ as, a.connects = false) → run step s as = some t →
      ∃ es, t.events = s.events ++ es ∧ ∀ u, .onError u ∉ es := by
  induction as with
  | nil =>
    intro s _ _ hrun
    rw [run_nil, Option.some_inj] at hrun
    exact ⟨[], by rw [hrun, List.append_nil], fun u hu => absurd hu List.not_mem_nil⟩
  | cons a as ih =>
    intro s h has hrun
    obtain ⟨s', hs, hrun'⟩ := run_cons_eq_some.mp hrun
    obtain ⟨h', es, hes, hnone⟩ := stopped_step h (has a List.mem_cons_self) hs
    obtain ⟨es', hes', hnone'⟩ :=
      ih h' (fun b hb => has b (List.mem_cons_of_mem a hb)) hrun'
    refine ⟨es ++ es', by rw [hes', hes, List.append_assoc], fun u hu => ?_⟩
    exact (List.mem_append.mp hu).elim (hnone u) (hnone' u)

/-- A disconnect before `running` is set: then it is set, and there is no output. -/
def earlyDisconnect : List Action :=
  List.replicate 4 (Action.net .ok .other false) ++ List.replicate 4 (Action.ui false) ++
    List.replicate 3 (Action.net .ok .other false)

/-- A session without an answer to its setup request, up to the call of `onError`. -/
def handshakeFails : List Action :=
  Action.connect 0 1 1 :: List.replicate 14 (Action.net .ok .other false) ++
    [.net .fails .other false, .net .ok .other false]

/-- After `disconnect` no error is told, until `connect` reaches a server again: so it is from
everywhere in `connect`, but for its start and the moment before `onError`. -/
theorem disconnected_silent_iff (g : Place) :
    (∀ as bs s t, run step {} as = some s → s.place = g →
      (∀ b ∈ bs, b.connects = false) → run step s (.disconnect :: bs) = some t →
      ∀ u, s.events.count (.onError u) = t.events.count (.onError u)) ↔
        g ≠ .inStage .starting ∧ g ≠ .telling := by
  constructor
  · intro h
    constructor
    · rintro rfl
      obtain ⟨s, t, hs, ht, hplace, hnone, hone⟩ : ∃ s t, run step {} [.connect 0 1 1] = some s ∧
          run step s (.disconnect :: earlyDisconnect) = some t ∧
          s.place = .inStage .starting ∧ s.events.count (.onError .other) = 0 ∧
          t.events.count (.onError .other) = 1 := ⟨_, _, rfl, rfl, rfl, rfl, rfl⟩
      have hsame := h _ _ s t hs hplace (by decide) ht .other
      rw [hnone, hone] at hsame
      cases hsame
    · rintro rfl
      obtain ⟨s, t, hs, ht, hplace, hnone, hone⟩ : ∃ s t, run step {} handshakeFails = some s ∧
          run step s [.disconnect, .net .ok .other false] = some t ∧
          s.place = .telling ∧ s.events.count (.onError .other) = 0 ∧
          t.events.count (.onError .other) = 1 := ⟨_, _, rfl, rfl, rfl, rfl, rfl⟩
      have hsame := h _ _ s t hs hplace (by decide) ht .other
      rw [hnone, hone] at hsame
      cases hsame
  · rintro ⟨hstarting, htelling⟩ as bs s t - hplace hbs hrun u
    obtain ⟨s', hs, hrun'⟩ := run_cons_eq_some.mp hrun
    obtain ⟨client, hclient, hs⟩ := Option.bind_eq_some_iff.mp hs
    cases hs
    obtain ⟨-, rfl⟩ := enabled_eq_some.mp hclient
    have hcatch : ∀ v, s.caught ≠ some (.telling v) := by
      intro v hv
      refine htelling (hplace.symm.trans ?_)
      rw [Session.place, hv]
    have hstage : stage s.client.net ≠ .starting := by
      intro hstage
      refine hstarting (hplace.symm.trans ?_)
      rw [Session.place]
      split
      next v hv => exact absurd hv (hcatch v)
      next => rw [hstage]
    have hstopped := fun hstopped => stopped_run hstopped hbs hrun'
    obtain ⟨es, hes, hnone⟩ := hstopped ⟨rfl, hstage, hcatch⟩
    rw [hes, List.count_append, List.count_append, List.count_eq_zero.mpr (hnone u)]
    rfl

end X11Client.Listener
