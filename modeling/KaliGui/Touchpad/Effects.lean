/-
What the handlers do to the state, whatever the numbers are.

* `fireLongPress_eq`, `fireTwoFingerHold_eq`, `releaseOrClick_eq` — what is sent at once;
* `dropPress_eq` — what a second finger drops;
* `movePointer_eq` — where one finger moves the cursor;
* `TwoFinger`, `otherButton` — the fields and the events of two fingers;
* `apart_mouseHandle`, `apart_directHandle`, `apart_onTouch` — one finger leaves them alone;
* `Scrolled` — the fields that two fingers leave alone, and what they send;
* `scrolled_scrollHandle` — every sample of two fingers, after `dropPress`;
* `turnsWheel` — when a sample sends wheel events at all;
* `keepsHold`, `hold_scrollHandle` — when it leaves the hold armed.
-/
import KaliGui.Touchpad.Handlers
import Mathlib.Tactic.Common

namespace Touchpad

variable {F : Type*}

/-- What a step sent, the newest first. -/
def sent (s s' : State F) : List SinkEvent := s'.log.take (s'.log.length - s.log.length)

theorem sent_eq {s t : State F} {l : List SinkEvent} (h : t.log = l ++ s.log) :
    sent s t = l := by
  rw [sent, h, List.length_append, Nat.add_sub_cancel]
  exact List.take_left ..

/-! ### The timers, and the `UP` -/

/-- A timer that fires while the finger rests presses the button it stands for. -/
theorem fireLongPress_eq (holdAction : HoldAction) (s : State F) :
    fireLongPress holdAction s =
      if !s.dragged && !s.grabbing && !s.rightClicked then
        if holdAction = .grabDrag then
          { s with
            grabbing := true
            log := [.sendButton left true, .sendPointer s.cursorX s.cursorY left none] ++ s.log }
        else
          { s with
            rightClicked := true
            log := [.sendButton right false, .sendButton right true,
              .sendPointer s.cursorX s.cursorY left none] ++ s.log }
      else s := by
  simp only [fireLongPress, State.emit, List.cons_append, List.nil_append]

theorem fireTwoFingerHold_eq (s : State F) :
    fireTwoFingerHold s = { s with
      holdPending := false
      twoFingerRightClicked := true
      log := [.sendButton right false, .sendButton right true,
        .sendPointer s.cursorX s.cursorY left none] ++ s.log } := by
  simp only [fireTwoFingerHold, State.emit, List.cons_append, List.nil_append]

theorem releaseOrClick_eq (e : TouchEvent F) (s : State F) :
    releaseOrClick e s =
      if s.grabbing then
        { s with
          grabbing := false
          recentTapCount := 0
          log := [.sendButton left false] ++ s.log }
      else if s.rightClicked then s
      else if !s.dragged then
        { s with
          recentTapCount := 1
          lastTapUpTime := e.timeMs
          lastTapX := e.x
          lastTapY := e.y
          log := [.sendPointer s.cursorX s.cursorY left (some false),
            .sendPointer s.cursorX s.cursorY left (some true),
            .sendPointer s.cursorX s.cursorY left none,
            .updateCursor s.cursorX s.cursorY] ++ s.log }
      else s := by
  simp only [releaseOrClick, State.emit, List.cons_append, List.nil_append]

/-! ### The wheel -/

/-- The events of `n` turns of a wheel loop, the newest first. -/
def wheelTurns (up : Bool) : ℕ → List SinkEvent
  | 0 => []
  | n + 1 => wheelTurns up n ++ [.sendButton (if up then wheelUp else wheelDown) false,
      .sendButton (if up then wheelUp else wheelDown) true]

/-- An event of a wheel button. -/
def IsWheel (e : SinkEvent) : Prop :=
  ∃ up pressed : Bool, e = .sendButton (if up then wheelUp else wheelDown) pressed

theorem isWheel_of_mem_wheelTurns {up : Bool} {e : SinkEvent} :
    ∀ {n : ℕ}, e ∈ wheelTurns up n → IsWheel e := by
  intro n
  induction n with
  | zero => exact fun h => absurd h List.not_mem_nil
  | succ n ih =>
    intro h
    rcases List.mem_append.mp h with h | h
    · exact ih h
    · rcases List.mem_cons.mp h with rfl | h
      · exact ⟨up, false, rfl⟩
      · exact ⟨up, true, List.mem_singleton.mp h⟩

theorem wheelTurns_eq_nil {up : Bool} {n : ℕ} : wheelTurns up n = [] ↔ n = 0 := by
  cases n with
  | zero => exact ⟨fun _ => rfl, fun _ => rfl⟩
  | succ n => simp [wheelTurns]

/-- What two fingers leave alone; `es` is what was sent, the newest first. -/
structure Scrolled (s s' : State F) (es : List SinkEvent) : Prop where
  log : s'.log = es ++ s.log
  wheels : ∀ e ∈ es, IsWheel e
  mouseMode : s'.mouseMode = s.mouseMode
  cursorX : s'.cursorX = s.cursorX
  cursorY : s'.cursorY = s.cursorY
  grabbing : s'.grabbing = s.grabbing
  directPressed : s'.directPressed = s.directPressed
  longPress : s'.longPress = s.longPress
  hold : s.holdPending = s.twoFingerHold → s'.holdPending = s'.twoFingerHold
  /-- the hold is armed in MOUSE mode only -/
  touch : s.mouseMode = false → s.twoFingerHold = false → s'.twoFingerHold = false

theorem Scrolled.refl (s : State F) : Scrolled s s [] where
  log := rfl
  wheels _ he := absurd he List.not_mem_nil
  mouseMode := rfl
  cursorX := rfl
  cursorY := rfl
  grabbing := rfl
  directPressed := rfl
  longPress := rfl
  hold h := h
  touch _ h := h

theorem Scrolled.trans {s t u : State F} {es fs : List SinkEvent} (h : Scrolled s t es)
    (h' : Scrolled t u fs) : Scrolled s u (fs ++ es) where
  log := by rw [h'.log, h.log, List.append_assoc]
  wheels e he := (List.mem_append.mp he).elim (h'.wheels e) (h.wheels e)
  mouseMode := h'.mouseMode.trans h.mouseMode
  cursorX := h'.cursorX.trans h.cursorX
  cursorY := h'.cursorY.trans h.cursorY
  grabbing := h'.grabbing.trans h.grabbing
  directPressed := h'.directPressed.trans h.directPressed
  longPress := h'.longPress.trans h.longPress
  hold hs := h'.hold (h.hold hs)
  touch hm hs := h'.touch (h.mouseMode.trans hm) (h.touch hm hs)

theorem scrolled_cancelHold (s : State F) : Scrolled s (cancelHold s) [] := by
  rw [cancelHold]
  split
  · exact { Scrolled.refl s with hold := fun _ => rfl, touch := fun _ _ => rfl }
  · exact Scrolled.refl s

/-- With the flag right, the timer is not armed after `cancelHold`. -/
theorem twoFingerHold_cancelHold {s : State F} (h : s.holdPending = s.twoFingerHold) :
    (cancelHold s).twoFingerHold = false := by
  rw [cancelHold]
  split
  · rfl
  next hp => rw [← h, Bool.eq_false_of_not_eq_true hp]

/-- What `dropPress` sends: a release for each of the two flags. -/
def releases (s : State F) : List SinkEvent :=
  (if s.directPressed then [.sendButton left false] else []) ++
    if s.grabbing then [.sendButton left false] else []

theorem eq_of_mem_releases {s : State F} {e : SinkEvent} (he : e ∈ releases s) :
    e = .sendButton left false := by
  rw [releases] at he
  rcases List.mem_append.mp he with he | he
  · split at he
    · exact List.mem_singleton.mp he
    · exact absurd he List.not_mem_nil
  · split at he
    · exact List.mem_singleton.mp he
    · exact absurd he List.not_mem_nil

theorem releases_eq_nil {s : State F} :
    releases s = [] ↔ s.grabbing = false ∧ s.directPressed = false := by
  rw [releases]
  rcases s.grabbing <;> rcases s.directPressed <;> simp

theorem dropPress_eq (s : State F) : dropPress s = { s with
    longPress := none, grabbing := false, directPressed := false, recentTapCount := 0,
    log := releases s ++ s.log } := by
  rcases hg : s.grabbing <;> rcases hd : s.directPressed <;>
    simp [dropPress, releaseGrab, cancelLongPress, State.emit, releases, hg, hd]

/-! ### What belongs to two fingers -/

/-- The fields of the scroll handler. -/
structure TwoFinger (F : Type*) where
  scrolling : Bool
  scrollLastY : F
  scrollAccum : F
  scrollAnchorY : F
  rightClicked : Bool
  holdPending : Bool
  hold : Bool

def State.two (s : State F) : TwoFinger F :=
  ⟨s.scrolling, s.scrollLastY, s.scrollAccum, s.scrollAnchorY, s.twoFingerRightClicked,
    s.holdPending, s.twoFingerHold⟩

/-- An event of another button than the left one. -/
def otherButton : SinkEvent → Bool
  | .sendButton button _ => button != left
  | _ => false

/-- What one finger leaves alone. -/
def State.apart (s : State F) : TwoFinger F × List SinkEvent := (s.two, s.log.filter otherButton)

theorem two_fireLongPress (h : HoldAction) (s : State F) : (fireLongPress h s).two = s.two := by
  rw [fireLongPress_eq]
  split
  · split <;> rfl
  · rfl

theorem apart_releaseGrab (s : State F) : (releaseGrab s).apart = s.apart := by
  rw [releaseGrab]
  split <;> rfl

theorem apart_releaseOrClick (e : TouchEvent F) (s : State F) :
    (releaseOrClick e s).apart = s.apart := by
  rw [releaseOrClick_eq]
  split
  · rfl
  split
  · rfl
  split
  · rfl
  · rfl

theorem apart_grabOrSchedule (cfg : TouchpadConfig F) (s : State F) :
    (grabOrSchedule cfg s).apart = s.apart := by
  rw [grabOrSchedule]
  split
  · split <;> rfl
  · rfl
  · rfl

theorem filter_releases_other (s : State F) : (releases s).filter otherButton = [] := by
  refine List.filter_eq_nil_iff.mpr fun e he => ?_
  rw [eq_of_mem_releases he]
  simp [otherButton]

theorem filter_wheels_other {es : List SinkEvent} (h : ∀ e ∈ es, IsWheel e) :
    es.filter otherButton = es := by
  refine List.filter_eq_self.mpr fun e he => ?_
  obtain ⟨up, pressed, rfl⟩ := h e he
  cases up <;> rfl

theorem two_dropPress (s : State F) : (dropPress s).two = s.two := by
  rw [dropPress_eq]
  rfl

variable [FloatOps F]

/-! ### Where the cursor moves -/

/-- Where `movePointer` puts the cursor; `none` for an exception. -/
def pointerTarget (v : Viewport) (e : TouchEvent F) (s : State F) : Option (ℤ × ℤ) :=
  let dx := (e.x - s.downX) / FloatOps.ofInt v.viewportWidth * FloatOps.ofInt v.framebufferWidth
  let dy := (e.y - s.downY) / FloatOps.ofInt v.viewportHeight * FloatOps.ofInt v.framebufferHeight
  (coerceIn (FloatOps.toInt (FloatOps.ofInt s.cursorX + dx)) 0 (v.framebufferWidth - 1)).bind
    fun nx =>
  (coerceIn (FloatOps.toInt (FloatOps.ofInt s.cursorY + dy)) 0 (v.framebufferHeight - 1)).map
    fun ny => (nx, ny)

theorem movePointer_eq (v : Viewport) (e : TouchEvent F) (s : State F) :
    movePointer v e s = (pointerTarget v e s).map fun p =>
      if p.1 ≠ s.cursorX ∨ p.2 ≠ s.cursorY then
        { s with
          cursorX := p.1, cursorY := p.2
          log := .sendPointer p.1 p.2 left none :: .updateCursor p.1 p.2 :: s.log }
      else s := by
  rw [movePointer, pointerTarget]
  dsimp only
  rcases coerceIn (FloatOps.toInt (FloatOps.ofInt s.cursorX +
    (e.x - s.downX) / FloatOps.ofInt v.viewportWidth * FloatOps.ofInt v.framebufferWidth)) 0
    (v.framebufferWidth - 1) with _ | nx
  · rfl
  rcases coerceIn (FloatOps.toInt (FloatOps.ofInt s.cursorY +
    (e.y - s.downY) / FloatOps.ofInt v.viewportHeight * FloatOps.ofInt v.framebufferHeight)) 0
    (v.framebufferHeight - 1) with _ | ny
  · rfl
  · rfl

/-! ### What one finger leaves alone -/

theorem apart_directHandle {v : Viewport} {e : TouchEvent F} {s t : State F}
    (h : directHandle v e s = some t) : t.apart = s.apart := by
  obtain ⟨fb, -, rfl⟩ := Option.map_eq_some_iff.mp h
  rcases fb with _ | ⟨x, y⟩
  · rfl
  · rcases ha : e.action <;> rfl

theorem apart_mouseDown (cfg : TouchpadConfig F) (e : TouchEvent F) (s : State F) :
    (mouseDown cfg e s).apart = s.apart := by
  simp only [mouseDown]
  split
  · exact apart_grabOrSchedule cfg _
  · exact apart_grabOrSchedule cfg _

theorem apart_movePointer {v : Viewport} {e : TouchEvent F} {s t : State F}
    (h : movePointer v e s = some t) : t.apart = s.apart := by
  rw [movePointer_eq] at h
  obtain ⟨p, -, rfl⟩ := Option.map_eq_some_iff.mp h
  split <;> rfl

theorem apart_mouseMove {v : Viewport} {cfg : TouchpadConfig F} {e : TouchEvent F} {s t : State F}
    (h : mouseMove v cfg e s = some t) : t.apart = s.apart := by
  obtain ⟨u, hmove, rfl⟩ := Option.map_eq_some_iff.mp h
  have hu := apart_movePointer hmove
  split at hu
  · exact hu
  · exact hu

/-- One finger in MOUSE mode. -/
theorem apart_mouseHandle {v : Viewport} {cfg : TouchpadConfig F} {e : TouchEvent F} {s t : State F}
    (h : mouseHandle v cfg e s = some t) : t.apart = s.apart := by
  rw [mouseHandle] at h
  split at h
  · rw [← Option.some_inj.mp h]
  rcases ha : e.action <;> simp only [ha] at h
  case down =>
    rw [← Option.some_inj.mp h]
    exact apart_mouseDown cfg e s
  case move => exact apart_mouseMove h
  case up =>
    rw [← Option.some_inj.mp h]
    exact apart_releaseOrClick e (cancelLongPress s)
  case cancel =>
    rw [← Option.some_inj.mp h]
    exact apart_releaseGrab (cancelLongPress s)
  all_goals rw [← Option.some_inj.mp h]

theorem two_directHandle {v : Viewport} {e : TouchEvent F} {s t : State F}
    (h : directHandle v e s = some t) : t.two = s.two :=
  congrArg Prod.fst (apart_directHandle h)

theorem two_mouseHandle {v : Viewport} {cfg : TouchpadConfig F} {e : TouchEvent F} {s t : State F}
    (h : mouseHandle v cfg e s = some t) : t.two = s.two :=
  congrArg Prod.fst (apart_mouseHandle h)

/-- One finger at most ends the scrolling of two. -/
theorem apart_onTouch {v : Viewport} {cfg : TouchpadConfig F} {fuel : ℕ} {e : TouchEvent F}
    {s t : State F} (hone : e.pointerCount < 2) (h : onTouch v cfg fuel e s = some t) :
    t.apart = s.apart ∨ t = { s with scrolling := false, scrollAccum := FloatOps.ofInt 0 } := by
  rw [onTouch, if_neg (Nat.not_le_of_lt hone)] at h
  split at h
  · obtain rfl := Option.some_inj.mp h
    split
    · exact .inr rfl
    · exact .inl rfl
  split at h
  · exact .inl (apart_mouseHandle h)
  · exact .inl (apart_directHandle h)

/-! ### The wheel loops -/

theorem scrollDown_turns {notch : F} {fuel : ℕ} {s s' : State F}
    (h : scrollDown notch fuel s = some s') :
    ∃ n accum, s' = { s with scrollAccum := accum, log := wheelTurns false n ++ s.log } ∧
      (n = 0 ↔ FloatOps.le s.scrollAccum (-notch) = false) ∧ (n = 0 → accum = s.scrollAccum) := by
  refine (scrollDown_isWhile notch).induction (R := fun s s' => ∃ n accum,
    s' = { s with scrollAccum := accum, log := wheelTurns false n ++ s.log } ∧
      (n = 0 ↔ FloatOps.le s.scrollAccum (-notch) = false) ∧ (n = 0 → accum = s.scrollAccum))
    (fun s hstop => ?_) (fun s s' hturn => ?_) h
  · exact ⟨0, s.scrollAccum, rfl, by simpa using hstop, fun _ => rfl⟩
  · rintro ⟨n, accum, rfl, -, -⟩
    refine ⟨n + 1, accum, ?_, by simp [hturn], fun hn => absurd hn (Nat.succ_ne_zero n)⟩
    simp [wheel, State.emit, wheelTurns]

theorem scrollUp_turns {notch : F} {fuel : ℕ} {s s' : State F}
    (h : scrollUp notch fuel s = some s') :
    ∃ n accum, s' = { s with scrollAccum := accum, log := wheelTurns true n ++ s.log } ∧
      (n = 0 ↔ FloatOps.le notch s.scrollAccum = false) := by
  refine (scrollUp_isWhile notch).induction (R := fun s s' => ∃ n accum,
    s' = { s with scrollAccum := accum, log := wheelTurns true n ++ s.log } ∧
      (n = 0 ↔ FloatOps.le notch s.scrollAccum = false))
    (fun s hstop => ?_) (fun s s' hturn => ?_) h
  · exact ⟨0, s.scrollAccum, rfl, by simpa using hstop⟩
  · rintro ⟨n, accum, rfl, -⟩
    refine ⟨n + 1, accum, ?_, by simp [hturn]⟩
    simp [wheel, State.emit, wheelTurns]

/-- What the accumulated travel is after a `MOVE` to `y`. -/
def travel (y : F) (s : State F) : F := s.scrollAccum + (y - s.scrollLastY)

theorem scrolled_scrollBy {cfg : TouchpadConfig F} {fuel : ℕ} {y : F} {s s' : State F}
    (h : scrollBy cfg fuel y s = some s') :
    ∃ es, Scrolled s s' es ∧ (es = [] ↔ s.twoFingerRightClicked = true ∨
      FloatOps.le (travel y s) (-cfg.scrollNotchPx) = false ∧
        FloatOps.le cfg.scrollNotchPx (travel y s) = false) := by
  rw [scrollBy] at h
  split at h
  next hright =>
    obtain rfl := Option.some_inj.mp h
    exact ⟨[], Scrolled.refl s, by simp [hright]⟩
  next hright =>
    obtain ⟨t, hdown, hup⟩ := Option.bind_eq_some_iff.mp h
    obtain ⟨m, accum, rfl, hm, hsame⟩ := scrollDown_turns hdown
    obtain ⟨n, accum', rfl, hn⟩ := scrollUp_turns hup
    refine ⟨wheelTurns true n ++ wheelTurns false m, ?_, ?_⟩
    · exact { Scrolled.refl s with
        log := (List.append_assoc ..).symm
        wheels := fun e he => (List.mem_append.mp he).elim isWheel_of_mem_wheelTurns
          isWheel_of_mem_wheelTurns }
    · rw [List.append_eq_nil_iff, wheelTurns_eq_nil, wheelTurns_eq_nil]
      dsimp only at hm hn hsame
      constructor
      · rintro ⟨hn0, hm0⟩
        refine .inr ⟨hm.mp hm0, ?_⟩
        rw [hn, hsame hm0] at hn0
        exact hn0
      · rintro (hr | ⟨hle, hge⟩)
        · exact absurd hr hright
        · have hm0 := hm.mpr hle
          refine ⟨hn.mpr ?_, hm0⟩
          rw [hsame hm0]
          exact hge

/-! ### Every sample of two fingers -/

/-- Where two fingers are: the mean of their heights. -/
def TouchEvent.midY (e : TouchEvent F) : F := (e.y + e.y1) / FloatOps.ofInt 2

/-- A sample of two fingers turns the wheel. -/
def turnsWheel (cfg : TouchpadConfig F) (e : TouchEvent F) (s : State F) : Bool :=
  e.action == .move && s.scrolling && !s.twoFingerRightClicked &&
    (FloatOps.le (travel e.midY s) (-cfg.scrollNotchPx) ||
      FloatOps.le cfg.scrollNotchPx (travel e.midY s))

theorem scrolled_scrollMove {cfg : TouchpadConfig F} {fuel : ℕ} {e : TouchEvent F}
    {s s' : State F} (ha : e.action = .move) (h : scrollMove cfg fuel e.midY s = some s') :
    ∃ es, Scrolled s s' es ∧ (es = [] ↔ turnsWheel cfg e s = false) := by
  rw [scrollMove] at h
  split at h
  next hs =>
    obtain rfl := Option.some_inj.mp h
    refine ⟨[], { Scrolled.refl s with log := rfl }, ?_⟩
    rw [Bool.not_eq_true'] at hs
    simp [turnsWheel, hs]
  next hs =>
    rw [Bool.not_eq_true, Bool.not_eq_false'] at hs
    obtain ⟨es, hscrolled, hes⟩ := scrolled_scrollBy h
    -- cancelling the hold changes nothing the loops look at
    have hcancel : Scrolled s (if s.holdPending &&
        FloatOps.lt cfg.tapSlopPx (FloatOps.abs (e.midY - s.scrollAnchorY)) then cancelHold s
        else s) [] := by
      split
      · exact scrolled_cancelHold s
      · exact Scrolled.refl s
    refine ⟨es ++ [], hcancel.trans hscrolled, ?_⟩
    rw [List.append_nil, hes]
    have hfields : ∀ b : Bool,
        (if b then cancelHold s else s).twoFingerRightClicked = s.twoFingerRightClicked ∧
        travel e.midY (if b then cancelHold s else s) = travel e.midY s := by
      intro b
      rcases b
      · exact ⟨rfl, rfl⟩
      · rw [if_pos rfl, cancelHold]
        split <;> exact ⟨rfl, rfl⟩
    rw [(hfields _).1, (hfields _).2]
    simp only [turnsWheel, ha, hs]
    rcases s.twoFingerRightClicked <;> simp

/-- Two fingers turn the wheel and move nothing else. -/
theorem scrolled_scrollHandle {cfg : TouchpadConfig F} {fuel : ℕ} {e : TouchEvent F}
    {s s' : State F} (h : scrollHandle cfg fuel e s = some s') :
    ∃ es, Scrolled s s' es ∧ (es = [] ↔ turnsWheel cfg e s = false) := by
  have stop : some { cancelHold s with scrolling := false, scrollAccum := FloatOps.ofInt 0 } =
      some s' → Scrolled s s' [] := by
    intro h
    rw [← Option.some_inj.mp h]
    exact { scrolled_cancelHold s with log := (scrolled_cancelHold s).log }
  rcases ha : e.action
  case move =>
    simp only [scrollHandle, ha] at h
    exact scrolled_scrollMove ha h
  all_goals
    refine ⟨[], ?_, by simp [turnsWheel, ha]⟩
    simp only [scrollHandle, ha] at h
  case down => rw [← Option.some_inj.mp h]; exact Scrolled.refl s
  case up => exact stop h
  case cancel => exact stop h
  case pointerDown =>
    rw [← Option.some_inj.mp h]
    split
    next hm =>
      exact { scrolled_cancelHold _ with
        hold := fun _ => rfl, touch := fun ht => absurd (hm.symm.trans ht) (by simp) }
    · exact { Scrolled.refl s with log := rfl }
  case pointerUp => exact stop h
  case other => rw [← Option.some_inj.mp h]; exact Scrolled.refl s

/-! ### The hold -/

/-- Whether a sample of two fingers leaves the hold as it is. -/
def keepsHold (cfg : TouchpadConfig F) (e : TouchEvent F) (s : State F) : Bool :=
  match e.action with
  | .move => !s.scrolling || !FloatOps.lt cfg.tapSlopPx (FloatOps.abs (e.midY - s.scrollAnchorY))
  | .pointerUp | .up | .cancel => false
  | _ => true

theorem hold_scrollBy {cfg : TouchpadConfig F} {fuel : ℕ} {y : F} {s s' : State F}
    (h : scrollBy cfg fuel y s = some s') :
    s'.scrolling = s.scrolling ∧ s'.twoFingerRightClicked = s.twoFingerRightClicked ∧
      s'.twoFingerHold = s.twoFingerHold := by
  rw [scrollBy] at h
  split at h
  · obtain rfl := Option.some_inj.mp h
    exact ⟨rfl, rfl, rfl⟩
  · obtain ⟨t, hdown, hup⟩ := Option.bind_eq_some_iff.mp h
    obtain ⟨m, accum, rfl, -⟩ := scrollDown_turns hdown
    obtain ⟨n, accum', rfl, -⟩ := scrollUp_turns hup
    exact ⟨rfl, rfl, rfl⟩

omit [FloatOps F] in
theorem rightClicked_cancelHold (s : State F) :
    (cancelHold s).scrolling = s.scrolling ∧
      (cancelHold s).twoFingerRightClicked = s.twoFingerRightClicked := by
  rw [cancelHold]
  split <;> exact ⟨rfl, rfl⟩

/-- A `MOVE` of two fingers scrolls, and the hold stays fired or not. -/
theorem rightClicked_scrollMove {cfg : TouchpadConfig F} {fuel : ℕ} {y : F} {s s' : State F}
    (h : scrollMove cfg fuel y s = some s') :
    s'.scrolling = true ∧ s'.twoFingerRightClicked = s.twoFingerRightClicked := by
  rw [scrollMove] at h
  split at h
  · obtain rfl := Option.some_inj.mp h
    exact ⟨rfl, rfl⟩
  next hs =>
    rw [Bool.not_eq_true, Bool.not_eq_false'] at hs
    obtain ⟨hscroll, hright, -⟩ := hold_scrollBy h
    rw [hscroll, hright]
    split
    · obtain ⟨hscroll, hright⟩ := rightClicked_cancelHold s
      exact ⟨hscroll.trans hs, hright⟩
    · exact ⟨hs, rfl⟩

theorem hold_scrollMove {cfg : TouchpadConfig F} {fuel : ℕ} {e : TouchEvent F} {s s' : State F}
    (hhold : s.holdPending = s.twoFingerHold) (hmove : e.action = .move)
    (h : scrollMove cfg fuel e.midY s = some s') :
    s'.twoFingerHold = (s.twoFingerHold && keepsHold cfg e s) := by
  rw [keepsHold, hmove]
  dsimp only
  rw [scrollMove] at h
  split at h
  next hs =>
    obtain rfl := Option.some_inj.mp h
    rw [hs, Bool.true_or, Bool.and_true]
  next hs =>
    rw [Bool.not_eq_true, Bool.not_eq_false'] at hs
    obtain ⟨-, -, hold⟩ := hold_scrollBy h
    rw [hold, hs, Bool.not_true, Bool.false_or, ← hhold]
    split
    next hcancel =>
      obtain ⟨hpending, hfar⟩ := Bool.and_eq_true_iff.mp hcancel
      rw [twoFingerHold_cancelHold hhold, hfar, Bool.not_true, Bool.and_false]
    next hkeep =>
      rw [← hhold]
      revert hkeep
      rcases s.holdPending <;>
        rcases FloatOps.lt cfg.tapSlopPx (FloatOps.abs (e.midY - s.scrollAnchorY)) <;> simp

theorem rightClicked_scrollHandle {cfg : TouchpadConfig F} {fuel : ℕ} {e : TouchEvent F}
    {s s' : State F} (hdown : e.action ≠ .pointerDown) (h : scrollHandle cfg fuel e s = some s') :
    s'.twoFingerRightClicked = s.twoFingerRightClicked := by
  have stop : some { cancelHold s with scrolling := false, scrollAccum := FloatOps.ofInt 0 } =
      some s' → s'.twoFingerRightClicked = s.twoFingerRightClicked := by
    intro h
    obtain rfl := Option.some_inj.mp h
    exact (rightClicked_cancelHold s).2
  rcases ha : e.action
  case move =>
    simp only [scrollHandle, ha] at h
    exact (rightClicked_scrollMove h).2
  case pointerDown => exact absurd ha hdown
  all_goals simp only [scrollHandle, ha] at h
  case down => rw [← Option.some_inj.mp h]
  case up => exact stop h
  case cancel => exact stop h
  case pointerUp => exact stop h
  case other => rw [← Option.some_inj.mp h]

/-- What a sample of two fingers does to the hold, if it is not the one that arms it. -/
theorem hold_scrollHandle {cfg : TouchpadConfig F} {fuel : ℕ} {e : TouchEvent F}
    {s s' : State F} (hhold : s.holdPending = s.twoFingerHold) (hdown : e.action ≠ .pointerDown)
    (h : scrollHandle cfg fuel e s = some s') :
    s'.twoFingerHold = (s.twoFingerHold && keepsHold cfg e s) := by
  have stop : some { cancelHold s with scrolling := false, scrollAccum := FloatOps.ofInt 0 } =
      some s' → s'.twoFingerHold = (s.twoFingerHold && false) := by
    intro h
    obtain rfl := Option.some_inj.mp h
    rw [Bool.and_false]
    exact twoFingerHold_cancelHold hhold
  rcases ha : e.action
  case move =>
    simp only [scrollHandle, ha] at h
    exact hold_scrollMove hhold ha h
  case pointerDown => exact absurd ha hdown
  all_goals
    simp only [scrollHandle, ha] at h
    rw [keepsHold, ha]
  case down => rw [← Option.some_inj.mp h, Bool.and_true]
  case up => exact stop h
  case cancel => exact stop h
  case pointerUp => exact stop h
  case other => rw [← Option.some_inj.mp h, Bool.and_true]

/-- Where two fingers end a gesture the hold is not armed. -/
theorem twoFingerHold_of_ends {cfg : TouchpadConfig F} {fuel : ℕ} {e : TouchEvent F}
    {s s' : State F} (hends : e.action.ends = true) (hhold : s.holdPending = s.twoFingerHold)
    (h : scrollHandle cfg fuel e s = some s') : s'.twoFingerHold = false := by
  have hdown : e.action ≠ .pointerDown := fun hdown => by
    rw [hdown] at hends
    cases hends
  have hkeeps : keepsHold cfg e s = false := by
    rw [keepsHold]
    rcases ha : e.action <;> simp [ha, TouchAction.ends] at hends ⊢
  rw [hold_scrollHandle hhold hdown h, hkeeps, Bool.and_false]

end Touchpad
