/-
What `surfaceAvailable` says of the renderer's surface (`renderer.cpp`).

The renderer's thread takes over a new shared state and a new window at the top of its
loop, in that order; until then they are pending.  It writes the flag when it takes over
a state, by the window alone, and when it has tried to make a surface for the window.

* `releaseWinAndSurface`, `refreshContext`, `iterate` — the code;
* `step` — new windows, new states and iterations, in any order, where each call of EGL
  may fail;
* `watch` — the same, and whether EGL has made and attached the surface of the window taken
  over last;
* `Tells` — by these answers alone, whether the flag is set and whether there is a surface;
* `surfaceAvailable_truthful_iff` — when the flag is true only with a surface to draw on.
-/
import KaliGui.Lib.Run
import Mathlib.Data.Int.Notation
import Mathlib.Data.Nat.Notation
import Mathlib.Logic.Function.Basic

namespace Lorie.Surface

open Machine

/-! ### State -/

/-- An `ANativeWindow`. -/
inductive Window
  /-- `defaultWin` -/
  | default
  | surface (n : ℕ)
  deriving DecidableEq, Repr

/-- An `EGLSurface` as the renderer knows it. -/
inductive EglSurface
  /-- `EGL_NO_SURFACE` -/
  | none
  /-- `defaultSfc` -/
  | default
  | created (id : ℕ)
  deriving DecidableEq, Repr

/-- The part of `lorie_shared_server_state` that tells of the surface. -/
structure Shared where
  address : ℕ
  surfaceAvailable : Bool
  deriving DecidableEq, Repr

structure State where
  win : Window := .default
  sfc : EglSurface := .default
  pendingWin : Option Window := none
  windowChanged : Bool := false
  state : Option Shared := none
  pendingState : Option ℕ := none
  stateChanged : Bool := false
  /-- the surfaces that are created and not destroyed, with their windows -/
  surfaces : ℕ → Option Window := fun _ => none
  /-- the surfaces created so far -/
  created : ℕ := 0
  /-- the surface that is current in the context -/
  current : EglSurface := .default

/-- What EGL and the window answer in one iteration. -/
structure Env where
  /-- `ANativeWindow_getWidth` and `ANativeWindow_getHeight` of the pending window -/
  width : ℤ := 1
  height : ℤ := 1
  /-- `eglMakeCurrent` of the default surface, and `eglDestroySurface`, of a release -/
  releases : Bool := true
  destroys : Bool := true
  /-- `eglMakeCurrent` of the default surface when there is no window -/
  reverts : Bool := true
  /-- `eglCreateWindowSurface`, and `eglMakeCurrent` of what it created -/
  creates : Bool := true
  makesCurrent : Bool := true

/-! ### The code -/

/-- `releaseWinAndSurface(&win, &sfc)` -/
def releaseWinAndSurface (env : Env) (s : State) : State :=
  match s.sfc with
  | .created id =>
    if ¬ env.releases then s
    else
      let s := { s with current := .default }
      if ¬ env.destroys then s
      else
        { s with
          surfaces := Function.update s.surfaces id none
          sfc := .default
          win := .default }
  | _ => { s with win := .default }

def setSurfaceAvailable (available : Bool) (s : State) : State :=
  { s with state := s.state.map fun shared => { shared with surfaceAvailable := available } }

/-- The window that is taken over; one without a size is given back, and the default
window stands in its place. -/
def takenWindow (env : Env) (pending : Option Window) : Option Window :=
  pending.map fun window => if env.width ≤ 0 ∨ env.height ≤ 0 then .default else window

/-- `eglCreateWindowSurface` for the window that was taken over. -/
def createSurface (window : Window) (s : State) : State :=
  { s with
    sfc := .created s.created
    surfaces := Function.update s.surfaces s.created (some window)
    created := s.created + 1 }

/-- `refreshContext` -/
def refreshContext (env : Env) (s : State) : State :=
  let taken := takenWindow env s.pendingWin
  let s := releaseWinAndSurface env s
  let s := { s with pendingWin := none, windowChanged := false }
  match taken with
  | none =>
    setSurfaceAvailable false
      { s with win := .default, current := if env.reverts then .default else s.current }
  | some window =>
    let s := { s with win := window }
    if ¬ env.creates then { s with sfc := .none }
    else
      let s := createSurface window s
      if ¬ env.makesCurrent then setSurfaceAvailable false s
      else setSurfaceAvailable (window ≠ .default) { s with current := s.sfc }

/-- The part of `threadLoop` for a new state. -/
def changeState (s : State) : State :=
  { s with
    state := s.pendingState.map fun address => ⟨address, s.win ≠ .default⟩
    pendingState := none
    stateChanged := false }

/-- An iteration of `threadLoop`; drawing leaves all this as it is. -/
def iterate (env : Env) (s : State) : State :=
  let s := if s.stateChanged then changeState s else s
  if s.windowChanged then refreshContext env s else s

/-! ### Steps -/

inductive Act
  /-- `setWindow` up to where it waits for the renderer -/
  | setWindow (window : Option ℕ)
  /-- `setSharedState` up to where it waits -/
  | setSharedState (address : Option ℕ)
  | iterate (env : Env)

def step (s : State) : Act → Option State
  | .setWindow window =>
    let newWin := window.map Window.surface
    if newWin.isSome ∧ s.pendingWin = newWin then some s
    else some { s with pendingWin := newWin, windowChanged := true }
  | .setSharedState address => some { s with pendingState := address, stateChanged := true }
  | .iterate env => some (iterate env s)

/-! ### The flag -/

/-- `lorieRendererAvailable`, of the state that is mapped. -/
def State.available (s : State) : Bool := s.state.any (·.surfaceAvailable)

/-- The current surface is a live surface of a window that is not the default one. -/
def HasSurface (s : State) : Prop :=
  ∃ id n, s.sfc = .created id ∧ s.surfaces id = some (.surface n) ∧ s.current = .created id

def Truthful (s : State) : Prop := s.available = true → HasSurface s

/-- Whether the flag is set after a new state is taken over, and before a new window is. -/
def State.availableBetween (s : State) : Bool :=
  if s.stateChanged then s.pendingState.isSome && (s.win ≠ .default) else s.available

/-- No surface fails to be created while the flag is set; and a new state, where there is
no new window, is taken over with a surface to draw on, or with no window. -/
def FlagKept (s : State) : Act → Prop
  | .iterate env =>
    if s.windowChanged then
      s.pendingWin.isSome = true → env.creates = false → s.availableBetween = false
    else s.stateChanged = true → s.availableBetween = true → HasSurface s
  | _ => True

/-! ### The answers of EGL -/

/-- The renderer, and what EGL answered. -/
structure Watched where
  state : State := {}
  /-- for the window that was taken over last, EGL made a surface, and made it current -/
  attached : Bool := false

def Watched.answered (w : Watched) : Act → Bool
  | .iterate env => if w.state.windowChanged then env.creates && env.makesCurrent else w.attached
  | _ => w.attached

def watch (w : Watched) (a : Act) : Option Watched :=
  (step w.state a).map fun s => ⟨s, w.answered a⟩

/-- A state is mapped, or taken over in this iteration, while the window is not the default
one; and, when the state is not new, EGL has answered for that window. -/
def Watched.flagged (w : Watched) : Bool :=
  if w.state.stateChanged then w.state.pendingState.isSome && (w.state.win ≠ .default)
  else w.state.state.isSome && (w.state.win ≠ .default) && w.attached

/-- `eglCreateWindowSurface` fails only where the flag is not set; and a new state is taken over
without a new window only where EGL has made and attached the window's surface. -/
def SurfaceKept (w : Watched) : Act → Prop
  | .iterate env =>
    if w.state.windowChanged then
      w.state.pendingWin.isSome = true → env.creates = false → w.flagged = false
    else
      w.state.stateChanged = true → w.state.pendingState.isSome = true →
        w.state.win ≠ .default → w.attached = true
  | _ => True

/-! ### What the code does to the flag -/

variable {s s' : State}

theorem available_setSurfaceAvailable (available : Bool) (s : State) :
    (setSurfaceAvailable available s).available = (s.state.isSome && available) := by
  rw [State.available, setSurfaceAvailable]
  cases s.state with
  | none => rfl
  | some shared => rfl

theorem truthful_of_not_available (h : s.available = false) : Truthful s := by
  intro havailable
  rw [h] at havailable
  exact absurd havailable Bool.false_ne_true

theorem truthful_setSurfaceAvailable_false (s : State) :
    Truthful (setSurfaceAvailable false s) := by
  refine truthful_of_not_available ?_
  rw [available_setSurfaceAvailable, Bool.and_false]

theorem releaseWinAndSurface_state (env : Env) (s : State) :
    (releaseWinAndSurface env s).state = s.state := by
  rw [releaseWinAndSurface]
  split
  · split
    · rfl
    split
    · rfl
    · rfl
  · rfl

/-- A surface that could not be created leaves the flag as it was, with no surface. -/
theorem refreshContext_of_not_creates {env : Env} (hpending : s.pendingWin.isSome = true)
    (hcreates : env.creates = false) :
    (refreshContext env s).available = s.available ∧ (refreshContext env s).sfc = .none := by
  obtain ⟨window, hwindow⟩ := Option.isSome_iff_exists.mp hpending
  have hfails : ¬ env.creates = true := by
    rw [hcreates]
    exact Bool.false_ne_true
  rw [refreshContext, hwindow]
  dsimp only [takenWindow, Option.map_some]
  rw [if_pos hfails]
  refine ⟨?_, rfl⟩
  rw [State.available, State.available, releaseWinAndSurface_state]

/-- In all other cases the flag is true only with the new surface. -/
theorem refreshContext_truthful {env : Env}
    (h : s.pendingWin.isSome = true → env.creates = true) : Truthful (refreshContext env s) := by
  rw [refreshContext]
  cases hpending : s.pendingWin with
  | none => exact truthful_setSurfaceAvailable_false _
  | some window =>
    have hcreates : ¬ ¬ env.creates = true := not_not.mpr (h (by rw [hpending]; rfl))
    dsimp only [takenWindow, Option.map_some]
    rw [if_neg hcreates]
    split
    · exact truthful_setSurfaceAvailable_false _
    intro havailable
    rw [available_setSurfaceAvailable] at havailable
    have hnew := of_decide_eq_true (Bool.and_eq_true_iff.mp havailable).2
    -- The window has a size, so it is the one that was pending.
    generalize (if env.width ≤ 0 ∨ env.height ≤ 0 then Window.default else window) = taken at hnew ⊢
    cases taken with
    | default => exact absurd rfl hnew
    | surface n => exact ⟨_, n, rfl, Function.update_self .., rfl⟩

theorem changeState_available (h : s.stateChanged = true) :
    (changeState s).available = s.availableBetween := by
  rw [State.available, changeState, State.availableBetween, if_pos h]
  cases s.pendingState with
  | none => rfl
  | some address => rfl

/-- What an iteration starts the window's part with. -/
theorem available_between (s : State) :
    (if s.stateChanged then changeState s else s).available = s.availableBetween := by
  split
  · rename_i hchanged
    exact changeState_available hchanged
  · rename_i hsame
    rw [State.availableBetween, if_neg hsame]

theorem windowChanged_between (s : State) :
    (if s.stateChanged then changeState s else s).windowChanged = s.windowChanged := by
  split
  · rfl
  · rfl

theorem pendingWin_between (s : State) :
    (if s.stateChanged then changeState s else s).pendingWin = s.pendingWin := by
  split
  · rfl
  · rfl

/-! ### When it tells the truth -/

/-- An iteration leaves the flag true without a surface exactly where the condition is not
met. -/
theorem flagKept_iff_iterate (h : Truthful s) (env : Env) :
    FlagKept s (.iterate env) ↔ Truthful (iterate env s) := by
  rw [FlagKept, iterate]
  rw [windowChanged_between]
  have havailable := available_between s
  have hpending := pendingWin_between s
  by_cases hwindow : s.windowChanged = true
  · rw [if_pos hwindow, if_pos hwindow]
    -- all that counts of the state taken over is the flag and the pending window
    generalize (if s.stateChanged then changeState s else s) = middle at havailable hpending ⊢
    rw [← havailable, ← hpending]
    by_cases hfails : middle.pendingWin.isSome = true ∧ env.creates = false
    · obtain ⟨hflag, hnone⟩ := refreshContext_of_not_creates hfails.1 hfails.2
      constructor
      · intro hok
        exact truthful_of_not_available (hflag.trans (hok hfails.1 hfails.2))
      · -- the flag set with `EGL_NO_SURFACE`
        intro htruthful _ _
        refine eq_false_of_ne_true fun hset => ?_
        obtain ⟨id, n, hsfc, -⟩ := htruthful (hflag.trans hset)
        exact EglSurface.noConfusion (hnone.symm.trans hsfc)
    · constructor
      · intro _
        refine refreshContext_truthful fun hsome => ?_
        exact eq_true_of_ne_false fun hcreates => hfails ⟨hsome, hcreates⟩
      · exact fun _ hsome hcreates => absurd ⟨hsome, hcreates⟩ hfails
  · -- with no new window the surface stays, and only a new state sets the flag
    rw [if_neg hwindow, if_neg hwindow]
    by_cases hchanged : s.stateChanged = true
    · rw [if_pos hchanged, Truthful, changeState_available hchanged]
      exact ⟨fun hok hset => hok hchanged hset, fun htruthful _ hset => htruthful hset⟩
    · rw [if_neg hchanged]
      exact ⟨fun _ => h, fun _ hset => absurd hset hchanged⟩

theorem flagKept_iff {a : Act} (h : Truthful s) (hstep : step s a = some s') :
    FlagKept s a ↔ Truthful s' := by
  cases a with
  | setWindow window =>
    simp only [step] at hstep
    split at hstep
    · obtain rfl := Option.some_inj.mp hstep
      exact ⟨fun _ => h, fun _ => trivial⟩
    · obtain rfl := Option.some_inj.mp hstep
      exact ⟨fun _ => h, fun _ => trivial⟩
  | setSharedState address =>
    obtain rfl := Option.some_inj.mp hstep
    exact ⟨fun _ => h, fun _ => trivial⟩
  | iterate env =>
    obtain rfl := Option.some_inj.mp hstep
    exact flagKept_iff_iterate h env

/-! ### By the answers -/

/-- What the answers say of the flag and the surface. -/
structure Tells (w : Watched) : Prop where
  flag : w.state.available = (w.state.state.isSome && (w.state.win ≠ .default) && w.attached)
  surface : w.state.win ≠ .default → (w.attached = true ↔ HasSurface w.state)
  current : ∀ id, w.state.current = .created id → id < w.state.created

theorem tells_initial : Tells {} :=
  ⟨rfl, fun hwin => absurd rfl hwin, fun _ hcurrent => EglSurface.noConfusion hcurrent⟩

variable {w w' : Watched}

theorem Tells.truthful (h : Tells w) : Truthful w.state := by
  intro havailable
  rw [h.flag, Bool.and_eq_true, Bool.and_eq_true, decide_eq_true_eq] at havailable
  exact (h.surface havailable.1.2).mp havailable.2

theorem Tells.flagged (h : Tells w) : w.state.availableBetween = w.flagged := by
  rw [State.availableBetween, Watched.flagged, h.flag]

theorem Tells.surfaceKept_iff (h : Tells w) (a : Act) : SurfaceKept w a ↔ FlagKept w.state a := by
  cases a with
  | setWindow window => exact Iff.rfl
  | setSharedState address => exact Iff.rfl
  | iterate env =>
    rw [SurfaceKept, FlagKept, h.flagged]
    split
    · exact Iff.rfl
    · refine forall_congr' fun hchanged => ?_
      rw [Watched.flagged, if_pos hchanged, Bool.and_eq_true, decide_eq_true_eq]
      constructor
      · intro hok ⟨hpending, hwin⟩
        exact (h.surface hwin).mp (hok hpending hwin)
      · intro hok hpending hwin
        exact (h.surface hwin).mpr (hok ⟨hpending, hwin⟩)

theorem releaseWinAndSurface_current (env : Env) (s : State) :
    (releaseWinAndSurface env s).created = s.created ∧
      ((releaseWinAndSurface env s).current = .default ∨
        (releaseWinAndSurface env s).current = s.current) := by
  rw [releaseWinAndSurface]
  split
  · split
    · exact ⟨rfl, .inr rfl⟩
    split
    · exact ⟨rfl, .inl rfl⟩
    · exact ⟨rfl, .inl rfl⟩
  · exact ⟨rfl, .inr rfl⟩

/-- After a window was taken over, the answers in that iteration say it all. -/
theorem tells_refreshContext {s : State} {env : Env}
    (hcurrent : ∀ id, s.current = .created id → id < s.created)
    (hflag : s.pendingWin.isSome = true → env.creates = false → s.available = false) :
    Tells ⟨refreshContext env s, env.creates && env.makesCurrent⟩ := by
  obtain ⟨hcreated, hreleased⟩ := releaseWinAndSurface_current env s
  -- what is current is a surface made before, also after the old one is released
  have hlive : ∀ id, (releaseWinAndSurface env s).current = .created id →
      id < (releaseWinAndSurface env s).created := by
    intro id hid
    rw [hcreated]
    rcases hreleased with hdefault | hsame
    · exact EglSurface.noConfusion (hdefault.symm.trans hid)
    · exact hcurrent id (hsame.symm.trans hid)
  rw [refreshContext]
  cases hpending : s.pendingWin with
  | none =>
    refine ⟨?_, fun hwin => absurd rfl hwin, fun id hid => ?_⟩
    · show (setSurfaceAvailable false _).available = _
      rw [available_setSurfaceAvailable, Bool.and_false]
      simp [takenWindow, setSurfaceAvailable]
    · have hid : (if env.reverts then EglSurface.default
          else (releaseWinAndSurface env s).current) = .created id := hid
      split at hid
      · exact EglSurface.noConfusion hid
      · exact hlive id hid
  | some window =>
    dsimp only [takenWindow, Option.map_some]
    generalize (if env.width ≤ 0 ∨ env.height ≤ 0 then Window.default else window) = taken
    cases hcreates : env.creates with
    | false =>
      rw [if_pos Bool.false_ne_true, Bool.false_and]
      refine ⟨?_, fun _ => ⟨fun hno => absurd hno Bool.false_ne_true, fun hsurface => ?_⟩, hlive⟩
      · rw [Bool.and_false, ← hflag (by rw [hpending]; rfl) hcreates]
        show State.available _ = _
        rw [State.available, State.available, releaseWinAndSurface_state]
      · -- no surface was made, so there is none that could be live
        obtain ⟨id, n, hsfc, -⟩ := hsurface
        exact EglSurface.noConfusion hsfc
    | true =>
      rw [if_neg (not_not.mpr rfl), Bool.true_and]
      cases hmakes : env.makesCurrent with
      | false =>
        rw [if_pos Bool.false_ne_true]
        refine ⟨?_, fun _ => ⟨fun hno => absurd hno Bool.false_ne_true, fun hsurface => ?_⟩,
          fun id hid => Nat.lt_succ_of_lt (hlive id hid)⟩
        · rw [available_setSurfaceAvailable, Bool.and_false, Bool.and_false]
        · -- the surface that is current is an older one
          obtain ⟨id, n, hsfc, -, hid⟩ := hsurface
          have hnew : (releaseWinAndSurface env s).created = id := EglSurface.created.inj hsfc
          exact absurd (hlive id hid) (hnew ▸ Nat.lt_irrefl _)
      | true =>
        rw [if_neg (not_not.mpr rfl)]
        refine ⟨?_, fun hwin => ⟨fun _ => ?_, fun _ => rfl⟩, fun id hid => ?_⟩
        · rw [available_setSurfaceAvailable, Bool.and_true]
          show _ = ((Option.map _ _).isSome && _)
          rw [Option.isSome_map]
          rfl
        · cases taken with
          | default => exact absurd rfl hwin
          | surface n => exact ⟨_, n, rfl, Function.update_self .., rfl⟩
        · obtain rfl : (releaseWinAndSurface env s).created = id := EglSurface.created.inj hid
          exact Nat.lt_succ_self _

theorem Tells.step {a : Act} (h : Tells w) (hok : SurfaceKept w a) (hstep : watch w a = some w') :
    Tells w' := by
  obtain ⟨s', hs', rfl⟩ := Option.map_eq_some_iff.mp hstep
  cases a with
  | setWindow window =>
    simp only [Surface.step] at hs'
    split at hs' <;> obtain rfl := Option.some_inj.mp hs' <;> exact ⟨h.flag, h.surface, h.current⟩
  | setSharedState address =>
    obtain rfl := Option.some_inj.mp hs'
    exact ⟨h.flag, h.surface, h.current⟩
  | iterate env =>
    obtain rfl := Option.some_inj.mp hs'
    rw [Watched.answered, iterate, windowChanged_between]
    rw [SurfaceKept] at hok
    by_cases hwindow : w.state.windowChanged = true
    · rw [if_pos hwindow, if_pos hwindow]
      rw [if_pos hwindow] at hok
      refine tells_refreshContext (fun id hid => ?_) fun hpending hcreates => ?_
      · split at hid
        · rw [if_pos ‹_›]
          exact h.current id hid
        · rw [if_neg ‹_›]
          exact h.current id hid
      · rw [available_between, h.flagged]
        exact hok (pendingWin_between w.state ▸ hpending) hcreates
    · rw [if_neg hwindow, if_neg hwindow]
      rw [if_neg hwindow] at hok
      by_cases hchanged : w.state.stateChanged = true
      · rw [if_pos hchanged]
        refine ⟨?_, h.surface, h.current⟩
        rw [changeState_available hchanged, h.flagged, Watched.flagged, if_pos hchanged]
        show _ = ((w.state.pendingState.map _).isSome && _ && _)
        rw [Option.isSome_map]
        cases hpending : w.state.pendingState.isSome with
        | false => rfl
        | true =>
          -- where the window is not the default one, EGL has answered for it
          by_cases hwin : w.state.win ≠ .default
          · rw [hok hchanged hpending hwin, Bool.and_true]
            rfl
          · rw [decide_eq_false hwin]
            show _ = (true && decide (w.state.win ≠ .default) && w.attached)
            rw [decide_eq_false hwin]
            rfl
      · rw [if_neg hchanged]
        exact h

/-- Between iterations the flag is true only with a live, current surface of a window,
throughout a run, if and only if no surface fails to be created while the flag is set, and
no state is taken over without a new window while EGL has not made a surface for the window
taken over last, or not made it current. -/
theorem surfaceAvailable_truthful_iff {as : List Act} (hrun : run step {} as = some s) :
    Always step Truthful {} as ↔ Meets watch SurfaceKept {} as := by
  have hwatch : ∀ w a, (watch w a).map Watched.state = step w.state a := by
    intro w a
    rw [watch, Option.map_map]
    exact Option.map_id'
  have hmap := run_map hwatch as {}
  rw [hrun] at hmap
  obtain ⟨w, hw, -⟩ := Option.map_eq_some_iff.mp hmap
  rw [← always_map hwatch (P := Truthful) (t := {})]
  refine always_iff_meets (I := Tells) (fun _ h => h.truthful) (fun w a w' h hstep => ?_)
    (fun _ _ _ h hok hstep => h.step hok hstep) tells_initial hw
  obtain ⟨s', hs', rfl⟩ := Option.map_eq_some_iff.mp hstep
  exact (h.surfaceKept_iff a).trans (flagKept_iff h.truthful hs')

/-- A window, then a state, and a window whose surface cannot be made current. -/
def currentFails : List Act :=
  [.setWindow (some 1), .iterate {}, .setSharedState (some 7), .iterate {},
   .setWindow (some 2), .iterate { makesCurrent := false }]

theorem currentFails_truthful : Always step Truthful {} currentFails := by
  refine (surfaceAvailable_truthful_iff
    (show run step {} currentFails = some _ from rfl)).mpr ?_
  refine meets_cons_of_eq rfl trivial (meets_cons_of_eq rfl (fun _ hfails => nomatch hfails) <|
    meets_cons_of_eq rfl trivial (meets_cons_of_eq rfl (fun _ _ _ => rfl) <|
      meets_cons_of_eq rfl trivial (meets_cons_of_eq rfl (fun _ hfails => nomatch hfails)
        (meets_nil _))))

/-- A window with a surface, then one for which none can be created. -/
def createFails : List Act :=
  [.setSharedState (some 7), .setWindow (some 1), .iterate {},
   .setWindow (some 2), .iterate { creates := false }]

/-- The flag stays true with `EGL_NO_SURFACE`. -/
theorem available_without_surface :
    ∃ s, run step {} createFails = some s ∧ s.available = true ∧ s.sfc = .none ∧
      ¬ Truthful s := by
  refine ⟨_, rfl, rfl, rfl, fun htruthful => ?_⟩
  obtain ⟨id, n, hsfc, -⟩ := htruthful rfl
  exact EglSurface.noConfusion hsfc

end Lorie.Surface
