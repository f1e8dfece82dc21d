/-
The loop of the renderer's thread (`renderer.cpp`, lines 681 to 874, 887 to 925 and 1062 to
1158).

Before each turn the thread asks whether it can wait.  It cannot while something is pending,
or while there is something to draw and a surface to draw it on, unless it waits for a buffer
or for the next frame.  A turn takes over what is pending, draws a frame or finds that it
cannot, and applies the GPU copies either way.

* `Renderer`, `Shared` — the renderer and the shared memory;
* `refreshContext`, `applyPendingGpuCopies`, `redrawLocked`, `shouldWait`, `threadLoop` — the
  code;
* `Settled`, `Resting` — what holds after a turn, and after a turn that started so;
* `sameSurface_takeOver` — windows and states are taken over as in the model of the surface;
* `threadLoop_waits` — with no change from outside, the thread waits after two turns at most.
-/
import KaliGui.Lib.RingIndex
import KaliGui.Lorie.Redraw
import KaliGui.Lorie.Surface

namespace Lorie.RenderLoop

open RingIndex
open Surface (Window Env takenWindow)

/-! ### State -/

/-- A `LorieBuffer`; the reference count is an `int16_t`. -/
structure Buffer where
  id : ℕ
  width : ℕ
  height : ℕ
  refcount : BitVec 16
  deriving DecidableEq

/-- The lists of a renderer. -/
structure Lists where
  addedBuffers : List Buffer
  buffers : List Buffer
  removedBuffers : List Buffer

/-- `LorieGpuCopyEntry`; what is copied does not matter here. -/
structure Entry where
  serial : ℕ
  srcBufferId : ℕ
  dstBufferId : ℕ

/-- `LORIE_GPU_COPY_QUEUE_CAPACITY` -/
def capacity : UInt32 := 8

/-- `lorie_shared_server_state` -/
structure Shared where
  writeIndex : UInt32
  readIndex : UInt32
  completedSerial : ℕ
  /-- by their slots -/
  entries : ℕ → Entry
  rootWindowTextureID : ℕ
  drawRequested : Bool
  surfaceAvailable : Bool
  waitForNextFrame : Bool
  cursorUpdated : Bool
  cursorMoved : Bool

structure Renderer where
  stopping : Bool
  stateChanged : Bool
  windowChanged : Bool
  viewportChanged : Bool
  state : Option Shared
  pendingState : Option Shared
  win : Window
  pendingWin : Option Window
  lists : Lists
  expectedW : ℕ
  expectedH : ℕ
  lastRequestedBufferId : ℕ
  /-- the variable of `threadLoop` -/
  waitingForBuffers : Bool

def Shared.GpuCopyPending (s : Shared) : Prop := s.readIndex ≠ s.writeIndex

instance (s : Shared) : Decidable s.GpuCopyPending := inferInstanceAs (Decidable (_ ≠ _))

/-- There is something to draw. -/
def Shared.Dirty (s : Shared) : Prop :=
  s.drawRequested = true ∨ s.cursorMoved = true ∨ s.cursorUpdated = true

instance (s : Shared) : Decidable s.Dirty := inferInstanceAs (Decidable (_ ∨ _ ∨ _))

/-! ### Buffers -/

/-- `LorieBufferList_findById` -/
def findById (l : List Buffer) (id : ℕ) : Option Buffer := l.find? (·.id = id)

/-- The lists after `findBufferWithRetry`, which attaches a buffer that was not attached; the
retries find nothing new if nothing is added meanwhile. -/
def findBufferWithRetry (id : ℕ) (l : Lists) : Lists :=
  match findById l.buffers id, findById l.addedBuffers id with
  | none, some b =>
    { l with
      addedBuffers := l.addedBuffers.eraseP (·.id = id)
      buffers := b :: l.buffers }
  | _, _ => l

/-- The reference counts of buffers as far as they are above 1, wrapped below it. -/
def surplus (l : List Buffer) : ℕ := l.head?.elim 0 fun b => (b.refcount - 1).toNat

/-- The loop that releases the first of the removed buffers until there is none;
`LorieBuffer_release` frees a buffer, and so takes it out of the list, at its last reference. -/
def releaseAll : List Buffer → List Buffer
  | [] => []
  | b :: l =>
    if b.refcount = 1 then releaseAll l
    else releaseAll ({ b with refcount := b.refcount - 1 } :: l)
termination_by l => (l.length, surplus l)
decreasing_by
  · exact Prod.Lex.left _ _ (Nat.lt_succ_self _)
  · rename_i hne
    refine Prod.Lex.right _ ?_
    simp only [surplus, List.head?_cons, Option.elim_some]
    bv_omega

/-! ### GPU copies -/

/-- `applyPendingGpuCopiesLocked`, with the serial of the last copy so far. -/
def applyPendingGpuCopiesLocked (l : Lists) (s : Shared) (lastSerial : ℕ) : Lists × Shared × ℕ :=
  if s.readIndex = s.writeIndex then (l, s, lastSerial)
  else
    let entry := s.entries (slot capacity s.readIndex)
    applyPendingGpuCopiesLocked
      (findBufferWithRetry entry.dstBufferId (findBufferWithRetry entry.srcBufferId l))
      { s with readIndex := s.readIndex + 1 } entry.serial
termination_by (s.writeIndex - s.readIndex).toNat
decreasing_by exact toNat_sub_succ_lt ‹_›

/-- `completedSerial`, once the copies are done. -/
def Shared.complete (s : Shared) (serial : ℕ) : Shared :=
  if serial = 0 then s else { s with completedSerial := serial }

/-- What a frame that is drawn writes. -/
def Shared.frameDrawn (s : Shared) (serial : ℕ) : Shared :=
  { ({ s with drawRequested := false, cursorUpdated := false, cursorMoved := false }).complete
      serial with
    waitForNextFrame := true }

def applyPendingGpuCopies (l : Lists) (s : Shared) : Lists × Shared :=
  if s.GpuCopyPending then
    let (l, s, serial) := applyPendingGpuCopiesLocked l s 0
    (l, s.complete serial)
  else (l, s)

/-! ### A turn -/

/-- Something changed the state of the memory that is mapped. -/
def Renderer.update (r : Renderer) (f : Shared → Shared) : Renderer :=
  { r with state := r.state.map f }

/-- The part of `threadLoop` for a new state. -/
def changeState (r : Renderer) : Renderer :=
  { r with
    state := r.pendingState.map fun s => { s with surfaceAvailable := r.win ≠ .default }
    pendingState := none
    stateChanged := false
    waitingForBuffers := false }

def refreshContext (env : Env) (r : Renderer) : Renderer :=
  match takenWindow env r.pendingWin with
  | none =>
    { r with win := .default, pendingWin := none, windowChanged := false }.update
      fun s => { s with surfaceAvailable := false }
  | some win =>
    let r := { r with win := win, pendingWin := none, windowChanged := false }
    if ¬ env.creates then r
    else if ¬ env.makesCurrent then r.update fun s => { s with surfaceAvailable := false }
    else
      -- the image is drawn at least once right after a change of the surface
      r.update fun s =>
        { s with
          surfaceAvailable := win ≠ .default
          drawRequested := win ≠ .default
          cursorUpdated := win ≠ .default }

/-- The part of `threadLoop` for new buffers. -/
def attachAll (r : Renderer) : Renderer :=
  { r with
    lists := { r.lists with
      addedBuffers := []
      buffers := r.lists.addedBuffers.reverse ++ r.lists.buffers }
    waitingForBuffers := r.waitingForBuffers && r.lists.addedBuffers.isEmpty }

/-- `redrawLocked`, with the memory that is mapped. -/
def redrawLocked (r : Renderer) (s : Shared) : Renderer :=
  let (l, s) := applyPendingGpuCopies r.lists s
  let r := { r with lists := l, state := some s }
  match (findById l.buffers s.rootWindowTextureID).or
      (findById l.removedBuffers s.rootWindowTextureID) with
  | none => { r with waitingForBuffers := true }
  | some b =>
    if ¬ Redraw.SizeFits r.expectedW r.expectedH b.width b.height then
      { r with state := some { s with drawRequested := false }, waitingForBuffers := true }
    else
      let (l, s, serial) := applyPendingGpuCopiesLocked l s 0
      { r with lists := l, state := some (s.frameDrawn serial) }

/-- The part of `threadLoop` that draws, or else applies the GPU copies. -/
def draw (r : Renderer) : Renderer :=
  match r.state with
  | none => r
  | some s =>
    if s.surfaceAvailable ∧ ¬ s.waitForNextFrame ∧ (s.Dirty ∨ s.GpuCopyPending) then
      redrawLocked r s
    else
      let (l, s) := applyPendingGpuCopies r.lists s
      { r with lists := l, state := some s }

def releaseRemoved (r : Renderer) : Renderer :=
  { r with lists := { r.lists with removedBuffers := releaseAll r.lists.removedBuffers } }

/-- The part of a turn before drawing. -/
def takeOver (env : Env) (r : Renderer) : Renderer :=
  let r := if r.stateChanged then changeState r else r
  let r := if r.windowChanged then refreshContext env r else r
  attachAll r

def turn (env : Env) (r : Renderer) : Renderer := releaseRemoved (draw (takeOver env r))

/-! ### The loop -/

/-- There is something that has to be processed at once. -/
def Renderer.ChangesPending (r : Renderer) : Prop :=
  r.stateChanged = true ∨ r.windowChanged = true ∨
    (r.lists.addedBuffers ≠ [] ∨ r.lists.removedBuffers ≠ []) ∨
    ∃ s ∈ r.state, s.GpuCopyPending

instance (r : Renderer) : Decidable r.ChangesPending :=
  inferInstanceAs (Decidable (_ ∨ _ ∨ (_ ∨ _) ∨ _))

/-- What `shouldWait` writes, and what it returns. -/
def shouldWait (r : Renderer) : Renderer × Bool :=
  let r :=
    if r.viewportChanged then { r with viewportChanged := false, waitingForBuffers := false } else r
  if r.ChangesPending then (r, false)
  else
    match r.state with
    | none => (r, true)
    | some s =>
      let r := { r with
        waitingForBuffers :=
          r.waitingForBuffers && r.lastRequestedBufferId = s.rootWindowTextureID
        lastRequestedBufferId := s.rootWindowTextureID }
      if ¬ s.surfaceAvailable ∨ s.waitForNextFrame ∨ r.waitingForBuffers then (r, true)
      else (r, ¬ s.Dirty)

/-- Where the loop gets to. -/
inductive Outcome
  /-- `pthread_cond_wait` -/
  | waits (r : Renderer)
  /-- the end of the loop -/
  | stops (r : Renderer)
  | goesOn (r : Renderer)

/-- `threadLoop`, for at most so many turns and with nothing changed from outside. -/
def threadLoop (envs : ℕ → Env) : ℕ → Renderer → Outcome
  | 0, r => .goesOn r
  | n + 1, r =>
    if r.stopping then .stops r
    else
      match shouldWait r with
      | (r, true) => .waits r
      | (r, false) => threadLoop (fun i => envs (i + 1)) n (turn (envs 0) r)

/-! ### What holds after a turn -/

/-- Nothing is pending any more. -/
structure Settled (r : Renderer) : Prop where
  changes : ¬ r.ChangesPending
  viewport : r.viewportChanged = false

/-- The thread waits for the next frame, or for a buffer with the id that it has looked for. -/
def Resting (r : Renderer) : Prop :=
  ∃ s, r.state = some s ∧ (s.waitForNextFrame = true ∨
    r.waitingForBuffers = true ∧ r.lastRequestedBufferId = s.rootWindowTextureID)

/-- What drawing leaves alone. -/
structure SameFlags (r r' : Renderer) : Prop where
  stopping : r'.stopping = r.stopping
  stateChanged : r'.stateChanged = r.stateChanged
  windowChanged : r'.windowChanged = r.windowChanged
  viewportChanged : r'.viewportChanged = r.viewportChanged
  lastRequestedBufferId : r'.lastRequestedBufferId = r.lastRequestedBufferId

/-! ### Buffers and copies -/

variable {env : Env} {r : Renderer} {l : Lists} {s : Shared}

theorem findBufferWithRetry_addedBuffers (id : ℕ) (h : l.addedBuffers = []) :
    (findBufferWithRetry id l).addedBuffers = [] := by
  rw [findBufferWithRetry, h]
  split
  next hfound => cases hfound
  next => exact h

theorem releaseAll_eq_nil (l : List Buffer) : releaseAll l = [] := by
  fun_induction releaseAll l with
  | case1 => rfl
  | case2 b l hlast ih => exact ih
  | case3 b l hmore ih => exact ih

/-- The queue is drained, and there are no new buffers if there were none. -/
structure Drained (l : Lists) (s : Shared) (l' : Lists) (s' : Shared) : Prop where
  empty : s'.readIndex = s'.writeIndex
  rootWindowTextureID : s'.rootWindowTextureID = s.rootWindowTextureID
  addedBuffers : l.addedBuffers = [] → l'.addedBuffers = []

theorem drained_applyPendingGpuCopiesLocked (l : Lists) (s : Shared) (lastSerial : ℕ) :
    Drained l s (applyPendingGpuCopiesLocked l s lastSerial).1
      (applyPendingGpuCopiesLocked l s lastSerial).2.1 := by
  fun_induction applyPendingGpuCopiesLocked l s lastSerial with
  | case1 l s lastSerial hempty => exact ⟨hempty, rfl, id⟩
  | case2 l s lastSerial hpending entry ih =>
    refine ⟨ih.empty, ih.rootWindowTextureID, fun h => ih.addedBuffers ?_⟩
    exact findBufferWithRetry_addedBuffers _ (findBufferWithRetry_addedBuffers _ h)

/-- The serial that is published is none of the loop's business. -/
theorem Drained.complete {l l' : Lists} {s s' : Shared} (h : Drained l s l' s') (serial : ℕ) :
    Drained l s l' (s'.complete serial) := by
  rw [Shared.complete]
  split
  · exact h
  · exact ⟨h.empty, h.rootWindowTextureID, h.addedBuffers⟩

theorem Drained.frameDrawn {l l' : Lists} {s s' : Shared} (h : Drained l s l' s')
    (serial : ℕ) : Drained l s l' (s'.frameDrawn serial) := by
  rw [Shared.frameDrawn, Shared.complete]
  split
  · exact ⟨h.empty, h.rootWindowTextureID, h.addedBuffers⟩
  · exact ⟨h.empty, h.rootWindowTextureID, h.addedBuffers⟩

theorem drained_applyPendingGpuCopies (l : Lists) (s : Shared) :
    Drained l s (applyPendingGpuCopies l s).1 (applyPendingGpuCopies l s).2 := by
  rw [applyPendingGpuCopies]
  split
  next => exact (drained_applyPendingGpuCopiesLocked l s 0).complete _
  next hnot => exact ⟨not_not.mp hnot, rfl, id⟩

/-! ### Drawing -/

/-- What drawing leaves behind, without new buffers to start with. -/
structure Drawn (r r' : Renderer) : Prop where
  same : SameFlags r r'
  addedBuffers : r'.lists.addedBuffers = []
  drained : ∀ s ∈ r'.state, ¬ s.GpuCopyPending

/-- Whatever comes of it, a redraw ends in a wait for a buffer or for the next frame. -/
theorem redrawLocked_spec (hadded : r.lists.addedBuffers = []) (s : Shared) :
    Drawn r (redrawLocked r s) ∧
      ∃ s', (redrawLocked r s).state = some s' ∧
        s'.rootWindowTextureID = s.rootWindowTextureID ∧
        (s'.waitForNextFrame = true ∨ (redrawLocked r s).waitingForBuffers = true) := by
  have hfirst := drained_applyPendingGpuCopies r.lists s
  rw [redrawLocked]
  split
  next l s₁ happly =>
    rw [happly] at hfirst
    have hnone := hfirst.addedBuffers hadded
    dsimp only
    split
    next =>
      -- the root buffer is not there
      refine ⟨⟨⟨rfl, rfl, rfl, rfl, rfl⟩, hnone, ?_⟩, s₁, rfl, hfirst.rootWindowTextureID, .inr rfl⟩
      rintro _ ⟨⟩
      exact not_not.mpr hfirst.empty
    next b hfound =>
      split
      next hsize =>
        -- it is not of the expected size
        refine ⟨⟨⟨rfl, rfl, rfl, rfl, rfl⟩, hnone, ?_⟩, _, rfl, hfirst.rootWindowTextureID,
          .inr rfl⟩
        rintro _ ⟨⟩
        exact not_not.mpr hfirst.empty
      next hsize =>
        -- it is drawn
        have hagain := (drained_applyPendingGpuCopiesLocked l s₁ 0).frameDrawn
          (applyPendingGpuCopiesLocked l s₁ 0).2.2
        refine ⟨⟨⟨rfl, rfl, rfl, rfl, rfl⟩, hagain.addedBuffers hnone, ?_⟩, _, rfl,
          hagain.rootWindowTextureID.trans hfirst.rootWindowTextureID, .inl rfl⟩
        rintro _ ⟨⟩
        exact not_not.mpr hagain.empty

theorem drawn_draw (hadded : r.lists.addedBuffers = []) : Drawn r (draw r) := by
  rw [draw]
  split
  next hnone =>
    refine ⟨⟨rfl, rfl, rfl, rfl, rfl⟩, hadded, fun s hs => ?_⟩
    rw [hnone] at hs
    cases hs
  next s hsome =>
    split
    next => exact (redrawLocked_spec hadded s).1
    next =>
      have hdrained := drained_applyPendingGpuCopies r.lists s
      refine ⟨⟨rfl, rfl, rfl, rfl, rfl⟩, hdrained.addedBuffers hadded, ?_⟩
      rintro _ ⟨⟩
      exact not_not.mpr hdrained.empty

/-! ### Turns -/

theorem refreshContext_spec (env : Env) (r : Renderer) :
    (refreshContext env r).stopping = r.stopping ∧
      (refreshContext env r).stateChanged = r.stateChanged ∧
      (refreshContext env r).windowChanged = false ∧
      (refreshContext env r).viewportChanged = r.viewportChanged := by
  rw [refreshContext]
  split
  · exact ⟨rfl, rfl, rfl, rfl⟩
  · split_ifs
    · exact ⟨rfl, rfl, rfl, rfl⟩
    · exact ⟨rfl, rfl, rfl, rfl⟩
    · exact ⟨rfl, rfl, rfl, rfl⟩

theorem takeOver_spec (env : Env) (r : Renderer) :
    (takeOver env r).stopping = r.stopping ∧ (takeOver env r).stateChanged = false ∧
      (takeOver env r).windowChanged = false ∧
      (takeOver env r).viewportChanged = r.viewportChanged ∧
      (takeOver env r).lists.addedBuffers = [] := by
  have hstate : ∃ q : Renderer, (if r.stateChanged then changeState r else r) = q ∧
      q.stopping = r.stopping ∧ q.stateChanged = false ∧
      q.viewportChanged = r.viewportChanged := by
    refine ⟨_, rfl, ?_⟩
    split
    next => exact ⟨rfl, rfl, rfl⟩
    next hnot => exact ⟨rfl, Bool.eq_false_of_not_eq_true hnot, rfl⟩
  obtain ⟨q, hq, hstopping, hchanged, hviewport⟩ := hstate
  rw [takeOver, hq]
  split
  next =>
    obtain ⟨hstopping', hchanged', hwindow, hviewport'⟩ := refreshContext_spec env q
    exact ⟨hstopping'.trans hstopping, hchanged'.trans hchanged, hwindow,
      hviewport'.trans hviewport, rfl⟩
  next hnot =>
    exact ⟨hstopping, hchanged, Bool.eq_false_of_not_eq_true hnot, hviewport, rfl⟩

/-- The same window and the same flag of the surface, here and in the model of the surface. -/
structure SameSurface (r : Renderer) (t : Surface.State) : Prop where
  win : r.win = t.win
  pendingWin : r.pendingWin = t.pendingWin
  windowChanged : r.windowChanged = t.windowChanged
  stateChanged : r.stateChanged = t.stateChanged
  surfaceAvailable :
    r.state.map (·.surfaceAvailable) = t.state.map (·.surfaceAvailable)
  pendingState : r.pendingState.isSome = t.pendingState.isSome

theorem sameSurface_changeState {t : Surface.State} (h : SameSurface r t) :
    SameSurface (changeState r) (Surface.changeState t) := by
  refine ⟨h.win, h.pendingWin, h.windowChanged, rfl, ?_, rfl⟩
  have hsome := h.pendingState
  simp only [changeState, Surface.changeState, h.win]
  cases hp : r.pendingState <;> cases ht : t.pendingState <;> rw [hp, ht] at hsome
  · rfl
  · cases hsome
  · cases hsome
  · rfl

/-- Where both write the flag, it is the same. -/
theorem SameSurface.available_const {t : Surface.State} (h : SameSurface r t) (b : Bool) :
    r.state.map (fun _ => b) = t.state.map fun _ => b := by
  have hmap := congrArg (Option.map fun _ => b) h.surfaceAvailable
  rwa [Option.map_map, Option.map_map] at hmap

theorem update_available {f : Shared → Shared} {b : Bool}
    (hf : ∀ s, (f s).surfaceAvailable = b) :
    (r.update f).state.map (·.surfaceAvailable) = r.state.map fun _ => b := by
  rw [Renderer.update, Option.map_map]
  exact congrArg (Option.map · r.state) (funext hf)

theorem setSurfaceAvailable_available (b : Bool) (t : Surface.State) :
    (Surface.setSurfaceAvailable b t).state.map (·.surfaceAvailable) = t.state.map fun _ => b := by
  rw [Surface.setSurfaceAvailable, Option.map_map]
  rfl

theorem releaseWinAndSurface_same (env : Env) (t : Surface.State) :
    (Surface.releaseWinAndSurface env t).state = t.state ∧
      (Surface.releaseWinAndSurface env t).stateChanged = t.stateChanged ∧
      (Surface.releaseWinAndSurface env t).pendingState = t.pendingState := by
  rw [Surface.releaseWinAndSurface]
  split
  · split_ifs
    · exact ⟨rfl, rfl, rfl⟩
    · exact ⟨rfl, rfl, rfl⟩
    · exact ⟨rfl, rfl, rfl⟩
  · exact ⟨rfl, rfl, rfl⟩

theorem SameSurface.written {t : Surface.State} (env : Env) (h : SameSurface r t)
    {f : Shared → Shared} {b : Bool} (hf : ∀ s, (f s).surfaceAvailable = b) :
    (r.update f).state.map (·.surfaceAvailable) =
      (Surface.setSurfaceAvailable b (Surface.releaseWinAndSurface env t)).state.map
        (·.surfaceAvailable) := by
  rw [update_available hf, setSurfaceAvailable_available, (releaseWinAndSurface_same env t).1]
  exact h.available_const b

theorem sameSurface_refreshContext {t : Surface.State} (env : Env) (h : SameSurface r t) :
    SameSurface (refreshContext env r) (Surface.refreshContext env t) := by
  obtain ⟨hstate, hchanged, hpending⟩ := releaseWinAndSurface_same env t
  have hstateChanged := h.stateChanged.trans hchanged.symm
  have hpendingState := h.pendingState.trans (congrArg Option.isSome hpending.symm)
  rw [refreshContext, Surface.refreshContext, h.pendingWin]
  cases takenWindow env t.pendingWin with
  | none =>
    exact ⟨rfl, rfl, rfl, hstateChanged, h.written env fun _ => rfl, hpendingState⟩
  | some win =>
    dsimp only
    split
    · refine ⟨rfl, rfl, rfl, hstateChanged, ?_, hpendingState⟩
      rw [hstate]
      exact h.surfaceAvailable
    split
    · exact ⟨rfl, rfl, rfl, hstateChanged, h.written env fun _ => rfl, hpendingState⟩
    · exact ⟨rfl, rfl, rfl, hstateChanged, h.written env fun _ => rfl, hpendingState⟩

/-- A turn takes over states and windows as the model of the surface does. -/
theorem sameSurface_takeOver {t : Surface.State} (env : Env) (h : SameSurface r t) :
    SameSurface (takeOver env r) (Surface.iterate env t) := by
  have hstate : SameSurface (if r.stateChanged then changeState r else r)
      (if t.stateChanged then Surface.changeState t else t) := by
    rw [← h.stateChanged]
    split
    · exact sameSurface_changeState h
    · exact h
  rw [takeOver, Surface.iterate]
  generalize (if r.stateChanged then changeState r else r) = q at hstate ⊢
  generalize (if t.stateChanged then Surface.changeState t else t) = u at hstate ⊢
  rw [← hstate.windowChanged]
  split
  · have hwindow := sameSurface_refreshContext env hstate
    exact ⟨hwindow.win, hwindow.pendingWin, hwindow.windowChanged, hwindow.stateChanged,
      hwindow.surfaceAvailable, hwindow.pendingState⟩
  · exact ⟨hstate.win, hstate.pendingWin, hstate.windowChanged, hstate.stateChanged,
      hstate.surfaceAvailable, hstate.pendingState⟩

/-- Without changes nothing is taken over. -/
theorem takeOver_of_not_changes (env : Env) (h : ¬ r.ChangesPending) :
    takeOver env r = attachAll r ∧ r.lists.addedBuffers = [] := by
  obtain ⟨hstate, hwindow, hbuffers, -⟩ :=
    (not_or.trans (and_congr_right' (not_or.trans (and_congr_right' not_or)))).mp h
  rw [takeOver, if_neg hstate, if_neg hwindow]
  exact ⟨rfl, not_not.mp (not_or.mp hbuffers).1⟩

/-- After a turn nothing is pending. -/
theorem settled_turn (env : Env) (h : r.viewportChanged = false) : Settled (turn env r) := by
  obtain ⟨-, hstate, hwindow, hviewport, hadded⟩ := takeOver_spec env r
  have hdrawn := drawn_draw hadded
  refine ⟨?_, hdrawn.same.viewportChanged.trans (hviewport.trans h)⟩
  rintro (hchanged | hchanged | hbuffers | ⟨s, hs, hpending⟩)
  · exact absurd (hdrawn.same.stateChanged.symm.trans hchanged) (by rw [hstate]; decide)
  · exact absurd (hdrawn.same.windowChanged.symm.trans hchanged) (by rw [hwindow]; decide)
  · rcases hbuffers with hbuffers | hbuffers
    · exact hbuffers hdrawn.addedBuffers
    · exact hbuffers (releaseAll_eq_nil _)
  · exact hdrawn.drained s hs hpending

theorem stopping_turn (env : Env) (r : Renderer) : (turn env r).stopping = r.stopping := by
  obtain ⟨hstopping, -, -, -, hadded⟩ := takeOver_spec env r
  exact (drawn_draw hadded).same.stopping.trans hstopping

/-- A turn that is there to draw, and not to take something over. -/
structure ToDraw (r : Renderer) (s : Shared) : Prop where
  changes : ¬ r.ChangesPending
  state : r.state = some s
  surfaceAvailable : s.surfaceAvailable = true
  waitForNextFrame : s.waitForNextFrame = false
  dirty : s.Dirty
  lastRequestedBufferId : r.lastRequestedBufferId = s.rootWindowTextureID

theorem resting_turn (env : Env) {s : Shared} (h : ToDraw r s) : Resting (turn env r) := by
  obtain ⟨htake, hadded⟩ := takeOver_of_not_changes env h.changes
  have hstate : (attachAll r).state = some s := h.state
  have hdraw : draw (attachAll r) = redrawLocked (attachAll r) s := by
    rw [draw, hstate]
    exact if_pos ⟨h.surfaceAvailable, by rw [h.waitForNextFrame]; decide, .inl h.dirty⟩
  obtain ⟨hdrawn, s', hs', hroot, hwaits⟩ := redrawLocked_spec (r := attachAll r) rfl s
  rw [turn, htake, hdraw]
  refine ⟨s', hs', hwaits.imp_right fun hwaiting => ⟨hwaiting, ?_⟩⟩
  exact (hdrawn.same.lastRequestedBufferId.trans h.lastRequestedBufferId).trans hroot.symm

/-! ### Waiting -/

/-- The thread does not wait only if there is something to take over or something to draw. -/
theorem shouldWait_false {r' : Renderer} (h : shouldWait r = (r', false)) :
    r'.stopping = r.stopping ∧ r'.viewportChanged = false ∧
      (r.ChangesPending ∨ ∃ s, ToDraw r' s) := by
  have hviewport : ∃ q : Renderer,
      (if r.viewportChanged then { r with viewportChanged := false, waitingForBuffers := false }
        else r) = q ∧
      q.stopping = r.stopping ∧ q.viewportChanged = false ∧
      (q.ChangesPending ↔ r.ChangesPending) := by
    refine ⟨_, rfl, ?_⟩
    split
    next => exact ⟨rfl, rfl, Iff.rfl⟩
    next hnot => exact ⟨rfl, Bool.eq_false_of_not_eq_true hnot, Iff.rfl⟩
  obtain ⟨q, hq, hstopping, hfalse, hchanges⟩ := hviewport
  rw [shouldWait, hq] at h
  split at h
  next hpending =>
    obtain ⟨rfl, -⟩ := Prod.mk.inj h
    exact ⟨hstopping, hfalse, .inl (hchanges.mp hpending)⟩
  next hnone =>
    split at h
    · exact absurd (Prod.mk.inj h).2 Bool.noConfusion
    next s hstate =>
      dsimp only at h
      split at h
      · exact absurd (Prod.mk.inj h).2 Bool.noConfusion
      next hdraws =>
        obtain ⟨rfl, hdirty⟩ := Prod.mk.inj h
        obtain ⟨havailable, hnext⟩ := not_or.mp hdraws
        refine ⟨hstopping, hfalse, .inr ⟨s, hnone, hstate, not_not.mp havailable, ?_, ?_, rfl⟩⟩
        · exact Bool.eq_false_of_not_eq_true (not_or.mp hnext).1
        · exact not_not.mp (of_decide_eq_false hdirty)

theorem shouldWait_of_resting (hsettled : Settled r) (hresting : Resting r) :
    (shouldWait r).2 = true := by
  obtain ⟨s, hstate, hwaits⟩ := hresting
  have hstays : ¬ r.viewportChanged = true := by
    rw [hsettled.viewport]
    decide
  rw [shouldWait, if_neg hstays]
  dsimp only
  rw [if_neg hsettled.changes, hstate]
  dsimp only
  rw [if_pos]
  rcases hwaits with hnext | ⟨hwaiting, hid⟩
  · exact .inr (.inl hnext)
  · refine .inr (.inr ?_)
    rw [hwaiting, hid]
    exact decide_eq_true rfl

theorem threadLoop_of_running (envs : ℕ → Env) (hrunning : ¬ r.stopping = true) :
    ∃ r', threadLoop envs 3 r = .waits r' := by
  rw [threadLoop, if_neg hrunning]
  rcases hfirst : shouldWait r with ⟨r₁, _ | _⟩
  · -- whatever is pending is taken over in the first turn
    obtain ⟨hstopping₁, hviewport₁, -⟩ := shouldWait_false hfirst
    have hsettled := settled_turn (envs 0) hviewport₁
    have hrunning₁ : ¬ (turn (envs 0) r₁).stopping = true := by
      rw [stopping_turn, hstopping₁]
      exact hrunning
    dsimp only
    rw [threadLoop, if_neg hrunning₁]
    rcases hsecond : shouldWait (turn (envs 0) r₁) with ⟨r₂, _ | _⟩
    · -- the second turn draws, or finds that it cannot
      obtain ⟨hstopping₂, hviewport₂, hpending | ⟨s, htodraw⟩⟩ := shouldWait_false hsecond
      · exact absurd hpending hsettled.changes
      have hrunning₂ : ¬ (turn (envs (0 + 1)) r₂).stopping = true := by
        rw [stopping_turn, hstopping₂]
        exact hrunning₁
      have hthird := shouldWait_of_resting (settled_turn (envs (0 + 1)) hviewport₂)
        (resting_turn (envs (0 + 1)) htodraw)
      dsimp only
      rw [threadLoop, if_neg hrunning₂]
      rcases hlast : shouldWait (turn (envs (0 + 1)) r₂) with ⟨r₃, wait⟩
      rw [hlast] at hthird
      obtain rfl : wait = true := hthird
      exact ⟨r₃, rfl⟩
    · exact ⟨r₂, rfl⟩
  · exact ⟨r₁, rfl⟩

/-- With nothing changed from outside, the thread waits after two turns at most, unless it is
told to stop. -/
theorem threadLoop_waits (envs : ℕ → Env) (r : Renderer) :
    ∃ r', threadLoop envs 3 r = if r.stopping = true then .stops r' else .waits r' := by
  by_cases hstop : r.stopping = true
  · refine ⟨r, ?_⟩
    rw [threadLoop, if_pos hstop, if_pos hstop]
  · obtain ⟨r', hwaits⟩ := threadLoop_of_running envs hstop
    refine ⟨r', ?_⟩
    rw [hwaits, if_neg hstop]

end Lorie.RenderLoop
