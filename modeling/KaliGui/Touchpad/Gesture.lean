/-
A gesture of one finger in MOUSE mode, from its `DOWN` to its `UP`.

Three flags and the long-press timer decide what the buttons do.  Whatever came before
the gesture, the samples and the moment the timer fires, the presses and releases are
those of one `Outcome`, and the outcome is decided by three facts: whether the `DOWN`
followed a tap closely, whether the finger left the slop before the timer fired, and
whether the timer fired.

* `buttons` — the presses and releases one step sent;
* `Outcome`, `classify` — what a gesture amounts to;
* `Decided` — the states from which only the `UP` may still send something;
* `gesture_classified` — every gesture, step by step.
-/
import KaliGui.Touchpad.LeftButton
import KaliGui.Touchpad.Effects

namespace Touchpad

open Machine

/-! ### What a gesture amounts to -/

/-- The button an event presses (`true`) or releases. -/
def buttonEvent : SinkEvent → Option (ℕ × Bool)
  | .sendPointer _ _ button pressed => pressed.map fun p => (button, p)
  | .sendButton button pressed => some (button, pressed)
  | .updateCursor _ _ => none

variable {F : Type*}

/-- The presses and releases of a step, in order. -/
def buttons (s s' : State F) : List (ℕ × Bool) := (sent s s').reverse.filterMap buttonEvent

inductive Outcome
  | nothing
  | tap
  | hold
  /-- the second touch of tap, tap, hold -/
  | grabAtDown
  | grabAtTimer
  deriving DecidableEq, Repr

def Outcome.atDown : Outcome → List (ℕ × Bool)
  | .grabAtDown => [(left, true)]
  | _ => []

def Outcome.atTimer : Outcome → List (ℕ × Bool)
  | .hold => [(right, true), (right, false)]
  | .grabAtTimer => [(left, true)]
  | _ => []

def Outcome.atUp : Outcome → List (ℕ × Bool)
  | .tap => [(left, true), (left, false)]
  | .grabAtDown | .grabAtTimer => [(left, false)]
  | _ => []

/-- Which outcome it is. -/
def classify (holdAction : HoldAction) (close exceeded fired : Bool) : Outcome :=
  if holdAction = .tapTapHold ∧ close then .grabAtDown
  else if exceeded then .nothing
  else if fired then if holdAction = .grabDrag then .grabAtTimer else .hold
  else .tap

def isTimer : Action F → Bool
  | .longPress => true
  | _ => false

/-- The timer fires only while it is armed. -/
def Armed (s : State F) : Action F → Prop
  | .longPress => s.longPress.isSome
  | _ => True

instance (s : State F) : ∀ a, Decidable (Armed s a)
  | .longPress => inferInstanceAs (Decidable (s.longPress.isSome = true))
  | .touch _ _ _ _ => .isTrue trivial
  | .twoFingerHold => .isTrue trivial
  | .setMode _ => .isTrue trivial
  | .setCursor _ _ => .isTrue trivial

/-- A sample of one finger, with viewport and framebuffer known. -/
structure OneFinger (e : TouchEvent F) (v : Viewport) : Prop where
  one : e.pointerCount < 2
  viewportWidth : 0 < v.viewportWidth
  framebufferWidth : 0 < v.framebufferWidth
  framebufferHeight : 0 < v.framebufferHeight

/-- What may happen between the `DOWN` and the `UP`. -/
inductive Between : Action F → Prop
  | move {e : TouchEvent F} {v : Viewport} (cfg : TouchpadConfig F) (fuel : ℕ)
      (hmove : e.action = .move) (hone : OneFinger e v) : Between (.touch e v cfg fuel)
  | longPress : Between .longPress

variable [FloatOps F]

/-- A `MOVE` to a point farther from the `DOWN` at `d` than the slop. -/
def exceeds (d : TouchEvent F) : Action F → Bool
  | .touch e _ cfg _ => FloatOps.lt (cfg.tapSlopPx * cfg.tapSlopPx)
      ((e.x - d.x) * (e.x - d.x) + (e.y - d.y) * (e.y - d.y))
  | _ => false

/-- Some `MOVE` leaves the slop before the timer fires. -/
def exceededFirst (d : TouchEvent F) (as : List (Action F)) : Bool :=
  (as.takeWhile fun a => !isTimer a).any (exceeds d)

/-! ### The steps -/

omit [FloatOps F] in
theorem buttons_eq {s t : State F} {l : List SinkEvent} (h : t.log = l ++ s.log) :
    buttons s t = l.reverse.filterMap buttonEvent := by
  rw [buttons, sent_eq h]

/-- A gesture of one finger in MOUSE mode is under way. -/
structure InGesture (s : State F) : Prop where
  mouseMode : s.mouseMode = true
  scrolling : s.scrolling = false
  touching : s.touching = true

omit [FloatOps F] in
theorem InGesture.disarm {s : State F} (h : InGesture s) : InGesture { s with longPress := none } :=
  ⟨h.mouseMode, h.scrolling, h.touching⟩

omit [FloatOps F] in
theorem OneFinger.laidOut {e : TouchEvent F} {v : Viewport} (h : OneFinger e v) :
    v.laidOut = true := by
  have hwidth := h.viewportWidth
  have hframe := h.framebufferWidth
  simp only [Viewport.laidOut, Bool.not_eq_true', Bool.or_eq_false_iff, decide_eq_false_iff_not,
    not_le]
  exact ⟨hwidth, hframe⟩

/-- One finger in MOUSE mode reaches its handler. -/
theorem onTouch_oneFinger {e : TouchEvent F} {v : Viewport} {s : State F} (h : OneFinger e v)
    (hmode : s.mouseMode = true) (hscroll : s.scrolling = false) (cfg : TouchpadConfig F)
    (fuel : ℕ) : onTouch v cfg fuel e s = mouseHandle v cfg e s := by
  rw [onTouch, if_neg (Nat.not_le_of_lt h.one), hscroll, if_neg (by simp), if_pos hmode]

theorem coerceIn_isSome {lo hi : ℤ} (n : ℤ) (h : lo ≤ hi) : ∃ m, coerceIn n lo hi = some m :=
  ⟨_, if_neg (not_lt.mpr h)⟩

theorem pointerTarget_isSome {e : TouchEvent F} {v : Viewport} (h : OneFinger e v) (s : State F) :
    ∃ p, pointerTarget v e s = some p := by
  have hwidth := h.framebufferWidth
  have hheight := h.framebufferHeight
  simp only [pointerTarget]
  obtain ⟨nx, hx⟩ := coerceIn_isSome (FloatOps.toInt (FloatOps.ofInt s.cursorX +
    (e.x - s.downX) / FloatOps.ofInt v.viewportWidth * FloatOps.ofInt v.framebufferWidth))
    (show (0 : ℤ) ≤ v.framebufferWidth - 1 by omega)
  obtain ⟨ny, hy⟩ := coerceIn_isSome (FloatOps.toInt (FloatOps.ofInt s.cursorY +
    (e.y - s.downY) / FloatOps.ofInt v.viewportHeight * FloatOps.ofInt v.framebufferHeight))
    (show (0 : ℤ) ≤ v.framebufferHeight - 1 by omega)
  rw [hx, Option.bind_some, hy]
  exact ⟨_, rfl⟩

/-- The cursor is moved without a button, and the `MOVE` does not fail. -/
theorem movePointer_buttons {e : TouchEvent F} {v : Viewport} (h : OneFinger e v) (s : State F) :
    ∃ (nx ny : ℤ) (es : List SinkEvent), es.reverse.filterMap buttonEvent = [] ∧
      movePointer v e s = some { s with cursorX := nx, cursorY := ny, log := es ++ s.log } := by
  obtain ⟨⟨nx, ny⟩, htarget⟩ := pointerTarget_isSome h s
  rw [movePointer_eq, htarget, Option.map_some]
  split
  · exact ⟨nx, ny, [.sendPointer nx ny left none, .updateCursor nx ny], rfl, rfl⟩
  · exact ⟨s.cursorX, s.cursorY, [], rfl, rfl⟩

/-- What a `MOVE` leaves as it was, and what it does when it leaves the slop. -/
structure Moved (exceeded : Bool) (s s' : State F) : Prop where
  gesture : InGesture s → InGesture s'
  buttons : buttons s s' = []
  anchorX : s'.slopAnchorX = s.slopAnchorX
  anchorY : s'.slopAnchorY = s.slopAnchorY
  grabbing : s'.grabbing = s.grabbing
  rightClicked : s'.rightClicked = s.rightClicked
  dragged : s'.dragged = (s.dragged || exceeded)
  longPress : s'.longPress = if !s.dragged && exceeded then none else s.longPress

/-- Whether the handler's test finds that the `MOVE` leaves the slop. -/
def leavesSlop (cfg : TouchpadConfig F) (e : TouchEvent F) (s : State F) : Bool :=
  FloatOps.lt (cfg.tapSlopPx * cfg.tapSlopPx)
    ((e.x - s.slopAnchorX) * (e.x - s.slopAnchorX) + (e.y - s.slopAnchorY) * (e.y - s.slopAnchorY))

theorem step_move {e : TouchEvent F} {v : Viewport} (h : OneFinger e v) (hmove : e.action = .move)
    (cfg : TouchpadConfig F) (fuel : ℕ) {s : State F} (hs : InGesture s) :
    ∃ s', step s (.touch e v cfg fuel) = some s' ∧ Moved (leavesSlop cfg e s) s s' := by
  have htouch : onTouch v cfg fuel e s = mouseMove v cfg e s := by
    rw [onTouch_oneFinger h hs.mouseMode hs.scrolling, mouseHandle, h.laidOut, if_neg (by simp),
      hmove]
  have hguard : s.touching = (e.action != .down) := by
    rw [hmove, hs.touching]
    rfl
  have hends : e.action.ends = false := by
    rw [hmove]
    rfl
  rw [step, if_pos hguard, htouch, mouseMove]
  dsimp only
  split
  next hslop =>
    -- the first sample outside of the slop calls the timer off
    obtain ⟨hdragged, hleaves⟩ := Bool.and_eq_true_iff.mp hslop
    have hexceeded : leavesSlop cfg e s = true := hleaves
    obtain ⟨nx, ny, es, hes, hpointer⟩ := movePointer_buttons h
      { cancelLongPress { s with dragged := true } with recentTapCount := 0 }
    rw [hpointer]
    refine ⟨_, rfl, ?_⟩
    exact {
      gesture := fun hs => ⟨hs.mouseMode, hs.scrolling, by rw [hends]; rfl⟩
      buttons := (buttons_eq rfl).trans hes
      anchorX := rfl
      anchorY := rfl
      grabbing := rfl
      rightClicked := rfl
      dragged := by
        rw [hexceeded]
        exact (Bool.or_true _).symm
      longPress := by rw [hexceeded, hdragged]; rfl }
  next hslop =>
    have hstays : (!s.dragged && leavesSlop cfg e s) = false := Bool.eq_false_of_not_eq_true hslop
    obtain ⟨nx, ny, es, hes, hpointer⟩ := movePointer_buttons h s
    rw [hpointer]
    refine ⟨_, rfl, ?_⟩
    exact {
      gesture := fun hs => ⟨hs.mouseMode, hs.scrolling, by rw [hends]; rfl⟩
      buttons := (buttons_eq rfl).trans hes
      anchorX := rfl
      anchorY := rfl
      grabbing := rfl
      rightClicked := rfl
      dragged := by
        rcases hd : s.dragged
        · rw [hd] at hstays
          rw [show leavesSlop cfg e s = false from hstays]
          rfl
        · exact (Bool.true_or _).symm
      longPress := by rw [hstays]; rfl }

/-- What the `UP` sends. -/
def upButtons (s : State F) : List (ℕ × Bool) :=
  if s.grabbing then [(left, false)]
  else if s.rightClicked then []
  else if s.dragged then [] else [(left, true), (left, false)]

theorem step_up {e : TouchEvent F} {v : Viewport} (h : OneFinger e v) (hup : e.action = .up)
    (cfg : TouchpadConfig F) (fuel : ℕ) {s : State F} (hs : InGesture s) :
    ∃ s', step s (.touch e v cfg fuel) = some s' ∧ buttons s s' = upButtons s := by
  have htouch : onTouch v cfg fuel e s = some (mouseUp e s) := by
    rw [onTouch_oneFinger h hs.mouseMode hs.scrolling, mouseHandle, h.laidOut, if_neg (by simp),
      hup]
  have hguard : s.touching = (e.action != .down) := by
    rw [hup, hs.touching]
    rfl
  rw [step, if_pos hguard, htouch]
  refine ⟨_, rfl, ?_⟩
  rcases hg : s.grabbing
  · rcases hr : s.rightClicked
    · rcases hd : s.dragged
      · rw [buttons_eq (l := [.sendPointer s.cursorX s.cursorY left (some false),
          .sendPointer s.cursorX s.cursorY left (some true),
          .sendPointer s.cursorX s.cursorY left none, .updateCursor s.cursorX s.cursorY])
          (by simp [mouseUp, releaseOrClick, cancelLongPress, State.emit, hg, hr, hd])]
        simp only [upButtons, hg, hr, hd, if_false, Bool.false_eq_true]
        rfl
      · rw [buttons_eq (l := []) (by simp [mouseUp, releaseOrClick, cancelLongPress, hg, hr, hd])]
        simp [upButtons, hg, hr, hd]
    · rw [buttons_eq (l := []) (by simp [mouseUp, releaseOrClick, cancelLongPress, hg, hr])]
      simp [upButtons, hg, hr]
  · rw [buttons_eq (l := [.sendButton left false])
      (by simp [mouseUp, releaseOrClick, cancelLongPress, State.emit, hg])]
    simp [upButtons, hg, buttonEvent]

/-! ### Before and after the decision -/

omit [FloatOps F] in
/-- The timer of a gesture that is decided sends nothing. -/
theorem fireLongPress_decided (h : HoldAction) {s : State F}
    (hdecided : (s.grabbing || s.rightClicked || s.dragged) = true) :
    fireLongPress h { s with longPress := none } = { s with longPress := none } := by
  refine if_neg fun hidle => ?_
  simp only [Bool.and_eq_true, Bool.not_eq_true'] at hidle
  obtain ⟨⟨hd, hg⟩, hr⟩ := hidle
  rw [show s.grabbing = false from hg, show s.rightClicked = false from hr,
    show s.dragged = false from hd] at hdecided
  exact absurd hdecided (by simp)

/-- One of the flags is set; only the `UP` may still send something, which is `up`.
If `timer` is not empty, the timer does not fire again. -/
structure Decided (timer up : List (ℕ × Bool)) (s : State F) : Prop where
  gesture : InGesture s
  decided : (s.grabbing || s.rightClicked || s.dragged) = true
  up : upButtons s = up
  unarmed : timer ≠ [] → s.longPress = none

omit [FloatOps F] in
theorem Decided.moved {timer up : List (ℕ × Bool)} {s s' : State F} {exceeded : Bool}
    (h : Decided timer up s) (hmoved : Moved exceeded s s') : Decided timer up s' where
  gesture := hmoved.gesture h.gesture
  decided := by
    have hdecided := h.decided
    rw [hmoved.grabbing, hmoved.rightClicked, hmoved.dragged, ← Bool.or_assoc, hdecided]
    rfl
  up := by
    have hdecided := h.decided
    rw [← h.up, upButtons, upButtons, hmoved.grabbing, hmoved.rightClicked, hmoved.dragged]
    rcases hg : s.grabbing
    · rcases hr : s.rightClicked
      · rw [hg, hr] at hdecided
        rw [show s.dragged = true from hdecided, Bool.true_or]
      · rfl
    · rfl
  unarmed htimer := by
    rw [hmoved.longPress, h.unarmed htimer]
    exact ite_self none

/-- What the steps between `DOWN` and `UP` send, if the timer sends `timer`. -/
def during (timer : List (ℕ × Bool)) (a : Action F) : List (ℕ × Bool) :=
  if isTimer a then timer else []

/-- From a decided state on. -/
theorem decided_outputs {timer up : List (ℕ × Bool)} {u : TouchEvent F} {v : Viewport}
    (hup : u.action = .up) (hone : OneFinger u v) (cfg : TouchpadConfig F) (fuel : ℕ)
    {as : List (Action F)} {s : State F} (hs : Decided timer up s) (has : ∀ a ∈ as, Between a)
    (harmed : Meets step Armed s (as ++ [.touch u v cfg fuel])) :
    (∀ a ∈ as, timer ≠ [] → isTimer a = false) ∧
      outputs step buttons s (as ++ [.touch u v cfg fuel]) =
        some (as.map (during timer) ++ [up]) := by
  refine outputs_of_stay (Q := Decided timer up) (fun s a hs (ha : Between a) harmed => ?_)
    (fun s hs => ?_) hs has harmed
  · cases ha with
    | move cfg fuel hmove hone =>
      obtain ⟨s', hstep, hmoved⟩ := step_move hone hmove cfg fuel hs.gesture
      exact ⟨fun _ => rfl, s', hstep, hs.moved hmoved, hmoved.buttons⟩
    | longPress =>
      obtain ⟨h, harmed⟩ := Option.isSome_iff_exists.mp harmed
      have htimer : timer = [] := by
        by_contra hne
        rw [hs.unarmed hne] at harmed
        cases harmed
      refine ⟨fun hne => absurd htimer hne, { s with longPress := none }, ?_, ?_, ?_⟩
      · rw [step, harmed, Option.map_some, fireLongPress_decided h hs.decided]
      · exact ⟨hs.gesture.disarm, hs.decided, hs.up, fun _ => rfl⟩
      · have hnone : buttons s { s with longPress := none } = [] := buttons_eq (l := []) rfl
        rw [hnone, during, htimer]
        exact (ite_self []).symm
  · obtain ⟨s', hstep, hbuttons⟩ := step_up hone hup cfg fuel hs.gesture
    exact ⟨s', hstep, hbuttons.trans hs.up⟩

/-- The `DOWN` at `d` has armed the timer, which has not fired, and the finger is still
within the slop. -/
structure Waiting (d : TouchEvent F) (h : HoldAction) (s : State F) : Prop where
  gesture : InGesture s
  grabbing : s.grabbing = false
  rightClicked : s.rightClicked = false
  dragged : s.dragged = false
  longPress : s.longPress = some h
  anchorX : s.slopAnchorX = d.x
  anchorY : s.slopAnchorY = d.y

/-- The timer fires in time. -/
theorem Waiting.fires {d : TouchEvent F} {h : HoldAction} {s : State F} (hs : Waiting d h s) :
    ∃ s', step s .longPress = some s' ∧
      buttons s s' = (classify h false false true).atTimer ∧
      Decided (classify h false false true).atTimer (classify h false false true).atUp s' := by
  have hidle : (!s.dragged && !s.grabbing && !s.rightClicked) = true := by
    rw [hs.dragged, hs.grabbing, hs.rightClicked]
    rfl
  have hgesture : InGesture s := hs.gesture
  have hg := hs.grabbing
  rw [step, hs.longPress, Option.map_some, fireLongPress_eq, if_pos hidle]
  by_cases hgrab : h = .grabDrag
  · subst hgrab
    refine ⟨_, rfl, ?_, ?_⟩
    · rw [buttons_eq (l := [.sendButton left true,
        .sendPointer s.cursorX s.cursorY left none]) rfl]
      rfl
    · exact ⟨⟨hgesture.mouseMode, hgesture.scrolling, hgesture.touching⟩, rfl, rfl, fun _ => rfl⟩
  · have hhold : classify h false false true = .hold := by
      rw [classify, if_neg (by simp), if_neg (by simp), if_pos rfl, if_neg hgrab]
    rw [if_neg hgrab, hhold]
    refine ⟨_, rfl, ?_, ?_⟩
    · rw [buttons_eq (l := [.sendButton right false, .sendButton right true,
        .sendPointer s.cursorX s.cursorY left none]) rfl]
      rfl
    · refine ⟨⟨hgesture.mouseMode, hgesture.scrolling, hgesture.touching⟩, ?_, ?_, fun _ => rfl⟩
      · show (s.grabbing || true || s.dragged) = true
        rw [Bool.or_true, Bool.true_or]
      · show (if s.grabbing then _ else if true then _ else _) = _
        rw [hg]
        rfl

omit [FloatOps F] in
/-- The finger leaves the slop in time. -/
theorem Waiting.leaves {d : TouchEvent F} {h : HoldAction} {s s' : State F} (hs : Waiting d h s)
    (hmoved : Moved true s s') : Decided [] [] s' where
  gesture := hmoved.gesture hs.gesture
  decided := by rw [hmoved.dragged, Bool.or_true, Bool.or_true]
  up := by
    rw [upButtons, hmoved.grabbing, hs.grabbing, hmoved.rightClicked, hs.rightClicked,
      hmoved.dragged, Bool.or_true]
    rfl
  unarmed htimer := absurd rfl htimer

omit [FloatOps F] in
theorem Waiting.stays {d : TouchEvent F} {h : HoldAction} {s s' : State F} (hs : Waiting d h s)
    (hmoved : Moved false s s') : Waiting d h s' where
  gesture := hmoved.gesture hs.gesture
  grabbing := hmoved.grabbing.trans hs.grabbing
  rightClicked := hmoved.rightClicked.trans hs.rightClicked
  dragged := by rw [hmoved.dragged, hs.dragged, Bool.or_false]
  longPress := by rw [hmoved.longPress, Bool.and_false]; exact hs.longPress
  anchorX := hmoved.anchorX.trans hs.anchorX
  anchorY := hmoved.anchorY.trans hs.anchorY

omit [FloatOps F] in
theorem countP_cons_of_move {a : Action F} {as : List (Action F)} (ha : isTimer a = false) :
    (a :: as).countP isTimer = as.countP isTimer := List.countP_cons_of_neg (by simp [ha])

theorem exceededFirst_cons_of_move (d : TouchEvent F) {a : Action F} (as : List (Action F))
    (ha : isTimer a = false) :
    exceededFirst d (a :: as) = (exceeds d a || exceededFirst d as) := by
  rw [exceededFirst, List.takeWhile_cons_of_pos (by simp [ha]), List.any_cons, exceededFirst]

/-- From the armed timer on: the outcome is decided by what comes first. -/
theorem waiting_outputs {d u : TouchEvent F} {h : HoldAction} {v : Viewport} (hup : u.action = .up)
    (hone : OneFinger u v) (cfg : TouchpadConfig F) (fuel : ℕ) {as : List (Action F)}
    {s : State F} (hs : Waiting d h s) (has : ∀ a ∈ as, Between a)
    (harmed : Meets step Armed s (as ++ [.touch u v cfg fuel])) :
    outputs step buttons s (as ++ [.touch u v cfg fuel]) =
        some (as.map (during (classify h false (exceededFirst d as) (as.any isTimer)).atTimer) ++
          [(classify h false (exceededFirst d as) (as.any isTimer)).atUp]) ∧
      ((classify h false (exceededFirst d as) (as.any isTimer)).atTimer ≠ [] →
        as.countP isTimer = 1) := by
  induction as generalizing s with
  | nil =>
    -- the finger is lifted in time
    obtain ⟨s', hstep, hbuttons⟩ := step_up hone hup cfg fuel hs.gesture
    have htap : classify h false (exceededFirst d []) ([].any (isTimer (F := F))) = .tap := by
      rw [classify, if_neg (by simp)]
      rfl
    rw [htap]
    refine ⟨?_, fun hne => absurd rfl hne⟩
    rw [List.nil_append, outputs_cons_of_eq hstep, hbuttons, upButtons, hs.grabbing,
      hs.rightClicked, hs.dragged]
    rfl
  | cons a as ih =>
    have hrest : ∀ b ∈ as, Between b := fun b hb => has b (List.mem_cons_of_mem a hb)
    rw [List.cons_append] at harmed ⊢
    cases has a List.mem_cons_self with
    | @move e v' cfg' fuel' hmove hone' =>
      obtain ⟨s', hstep, hmoved⟩ := step_move hone' hmove cfg' fuel' hs.gesture
      have hslop : leavesSlop cfg' e s = exceeds d (.touch e v' cfg' fuel') := by
        rw [leavesSlop, hs.anchorX, hs.anchorY]
        rfl
      have harmed := harmed.2 s' hstep
      have hany : (Action.touch e v' cfg' fuel' :: as).any isTimer = as.any isTimer := rfl
      rw [hslop] at hmoved
      rw [outputs_cons_of_eq hstep, hmoved.buttons, exceededFirst_cons_of_move d as rfl, hany,
        countP_cons_of_move rfl]
      -- a move inside the slop leaves everything open, one outside decides
      rcases hexceeds : exceeds d (.touch e v' cfg' fuel')
      · rw [hexceeds] at hmoved
        obtain ⟨htrace, hcount⟩ := ih (hs.stays hmoved) hrest harmed
        rw [htrace, Bool.false_or]
        exact ⟨rfl, hcount⟩
      · rw [hexceeds] at hmoved
        have hnothing : classify h false true (as.any isTimer) = .nothing := by
          rw [classify, if_neg (by simp), if_pos rfl]
        obtain ⟨-, htrace⟩ := decided_outputs hup hone cfg fuel (hs.leaves hmoved) hrest harmed
        rw [htrace, Bool.true_or, hnothing]
        exact ⟨rfl, fun hne => absurd rfl hne⟩
    | longPress =>
      obtain ⟨s', hstep, hbuttons, hdecided⟩ := hs.fires
      obtain ⟨hnone, htrace⟩ := decided_outputs hup hone cfg fuel hdecided hrest
        (harmed.2 s' hstep)
      have hany : (Action.longPress :: as).any isTimer = true := rfl
      have hfirst : exceededFirst d (Action.longPress :: as) = false := rfl
      rw [outputs_cons_of_eq hstep, hbuttons, htrace, hany, hfirst]
      refine ⟨rfl, fun hne => ?_⟩
      rw [List.countP_cons_of_pos rfl, List.countP_eq_zero.mpr fun a ha => by simp [hnone a ha hne]]

/-! ### The gesture -/

/-- The state as the `DOWN` at `e` sets it up, with `n` taps before. -/
def started (e : TouchEvent F) (n : ℕ) (s : State F) : State F :=
  { s with
    downX := e.x, downY := e.y, slopAnchorX := e.x, slopAnchorY := e.y, downTime := e.timeMs
    dragged := false, grabbing := false, rightClicked := false, recentTapCount := n }

/-- The test for the last tap does not read what the `DOWN` has set. -/
theorem mouseDown_eq (cfg : TouchpadConfig F) (e : TouchEvent F) (s : State F) :
    mouseDown cfg e s = grabOrSchedule cfg
      (started e (if closeToLastTap cfg e s then s.recentTapCount else 0) s) := by
  have hclose : closeToLastTap cfg e (started e s.recentTapCount s) = closeToLastTap cfg e s := rfl
  show grabOrSchedule cfg (if closeToLastTap cfg e (started e s.recentTapCount s) then
    started e s.recentTapCount s else started e 0 s) = _
  rw [hclose]
  split <;> rfl

omit [FloatOps F] in
theorem grabOrSchedule_waits {cfg : TouchpadConfig F} {s : State F}
    (h : ¬ (cfg.holdAction = .tapTapHold ∧ 1 ≤ s.recentTapCount)) :
    grabOrSchedule cfg s = { s with longPress := some cfg.holdAction } := by
  rw [grabOrSchedule]
  split
  next hhold =>
    rw [if_neg fun hcount => h ⟨hhold, hcount⟩]
    rfl
  next => rfl
  next => rfl

/-- What the `DOWN` does: it grabs at once, or arms the timer. -/
theorem step_down {e : TouchEvent F} {v : Viewport} (h : OneFinger e v) (hdown : e.action = .down)
    (cfg : TouchpadConfig F) (fuel : ℕ) {s : State F} (hmode : s.mouseMode = true)
    (hscroll : s.scrolling = false) (htouch : s.touching = false) :
    ∃ s', step s (.touch e v cfg fuel) = some s' ∧
      if cfg.holdAction = .tapTapHold ∧ closeToLastTap cfg e s = true then
        buttons s s' = [(left, true)] ∧ Decided [] [(left, false)] s'
      else buttons s s' = [] ∧ Waiting e cfg.holdAction s' := by
  have hhandle : onTouch v cfg fuel e s = some (mouseDown cfg e s) := by
    rw [onTouch_oneFinger h hmode hscroll, mouseHandle, h.laidOut, if_neg (by simp), hdown]
  have hguard : s.touching = (e.action != .down) := by
    rw [hdown, htouch]
    rfl
  have hends : (!e.action.ends) = true := by
    rw [hdown]
    rfl
  rw [step, if_pos hguard, hhandle]
  refine ⟨_, rfl, ?_⟩
  rw [mouseDown_eq]
  by_cases hgrab : cfg.holdAction = .tapTapHold ∧ closeToLastTap cfg e s = true
  · obtain ⟨hhold, hclose⟩ := hgrab
    have hcount : 1 ≤ (started e s.recentTapCount s).recentTapCount := by
      simp only [closeToLastTap, Bool.and_eq_true, decide_eq_true_eq] at hclose
      exact hclose.1.1
    rw [if_pos ⟨hhold, hclose⟩, if_pos hclose, grabOrSchedule, hhold]
    dsimp only
    rw [if_pos hcount]
    refine ⟨?_, ⟨hmode, hscroll, hends⟩, rfl, rfl, fun hne => absurd rfl hne⟩
    rw [buttons_eq (l := [.sendButton left true, .sendPointer s.cursorX s.cursorY left none]) rfl]
    rfl
  · rw [if_neg hgrab, grabOrSchedule_waits]
    · exact ⟨buttons_eq (l := []) rfl, ⟨hmode, hscroll, hends⟩, rfl, rfl, rfl, rfl, rfl, rfl⟩
    · rintro ⟨hhold, hcount⟩
      split at hcount
      next hclose => exact hgrab ⟨hhold, hclose⟩
      next => exact absurd hcount (Nat.not_succ_le_zero 0)

/-- Every gesture of one finger in MOUSE mode sends the buttons of one outcome, at its
`DOWN`, when the timer fires and at its `UP`, and nothing besides. -/
theorem gesture_classified {d u : TouchEvent F} {v v' : Viewport} (hdown : d.action = .down)
    (hup : u.action = .up) (hd : OneFinger d v) (hu : OneFinger u v') (cfg cfg' : TouchpadConfig F)
    (fuel fuel' : ℕ) {as : List (Action F)} (has : ∀ a ∈ as, Between a) {s : State F}
    (hmode : s.mouseMode = true) (hscroll : s.scrolling = false) (htouch : s.touching = false)
    (harmed : Meets step Armed s (.touch d v cfg fuel :: as ++ [.touch u v' cfg' fuel'])) :
    let outcome := classify cfg.holdAction (closeToLastTap cfg d s) (exceededFirst d as)
      (as.any isTimer)
    outputs step buttons s (.touch d v cfg fuel :: as ++ [.touch u v' cfg' fuel']) =
        some (outcome.atDown :: as.map (during outcome.atTimer) ++ [outcome.atUp]) ∧
      (outcome.atTimer ≠ [] → as.countP isTimer = 1) := by
  intro outcome
  obtain ⟨s', hstep, hphase⟩ := step_down hd hdown cfg fuel hmode hscroll htouch
  have harmed' : Meets step Armed s' (as ++ [.touch u v' cfg' fuel']) := harmed.2 s' hstep
  rw [List.cons_append, outputs_cons_of_eq hstep]
  split_ifs at hphase with hgrab
  · obtain ⟨hbuttons, hdecided⟩ := hphase
    have houtcome : outcome = .grabAtDown := if_pos hgrab
    obtain ⟨-, htrace⟩ := decided_outputs hup hu cfg' fuel' hdecided has harmed'
    rw [htrace, hbuttons, houtcome]
    exact ⟨rfl, fun hne => absurd rfl hne⟩
  · obtain ⟨hbuttons, hwaiting⟩ := hphase
    have houtcome : outcome =
        classify cfg.holdAction false (exceededFirst d as) (as.any isTimer) := by
      have hnot : ¬ (cfg.holdAction = .tapTapHold ∧ false = true) := fun h => nomatch h.2
      exact (if_neg hgrab).trans (if_neg hnot).symm
    have hdown : outcome.atDown = [] := by
      rw [houtcome, classify, if_neg (by simp)]
      split_ifs <;> rfl
    obtain ⟨htrace, hcount⟩ := waiting_outputs hup hu cfg' fuel' hwaiting has harmed'
    rw [htrace, hbuttons, hdown, houtcome]
    exact ⟨rfl, hcount⟩

/-! ### Between gestures -/

omit [FloatOps F] in
theorem scrolling_releaseGrab (s : State F) : (releaseGrab s).scrolling = s.scrolling := by
  rw [releaseGrab]
  split <;> rfl

omit [FloatOps F] in
theorem scrolling_releaseOrClick (e : TouchEvent F) (s : State F) :
    (releaseOrClick e s).scrolling = s.scrolling := by
  rw [releaseOrClick_eq]
  split_ifs <;> rfl

omit [FloatOps F] in
/-- Nor does the timer of a hold. -/
theorem fireLongPress_flags (h : HoldAction) (s : State F) :
    (fireLongPress h s).touching = s.touching ∧ (fireLongPress h s).scrolling = s.scrolling := by
  rw [fireLongPress_eq]
  split_ifs <;> exact ⟨rfl, rfl⟩

/-- One finger neither starts nor ends a two-finger gesture. -/
theorem scrolling_mouseHandle {v : Viewport} {cfg : TouchpadConfig F} {e : TouchEvent F}
    {s t : State F} (h : mouseHandle v cfg e s = some t) : t.scrolling = s.scrolling := by
  rw [mouseHandle] at h
  split at h
  · rw [Option.some_inj.mp h]
  rcases ha : e.action <;> rw [ha] at h
  case down =>
    rw [← Option.some_inj.mp h]
    rcases view_mouseDown cfg e s with hview | hview <;> exact congrArg View.scrolling hview
  case move =>
    obtain ⟨longPress, hview⟩ := view_mouseMove h
    exact congrArg View.scrolling hview
  case up =>
    rw [← Option.some_inj.mp h]
    exact scrolling_releaseOrClick e (cancelLongPress s)
  case cancel =>
    rw [← Option.some_inj.mp h]
    exact scrolling_releaseGrab (cancelLongPress s)
  all_goals rw [Option.some_inj.mp h]

theorem scrolling_onTouch {v : Viewport} {cfg : TouchpadConfig F} {fuel : ℕ} {e : TouchEvent F}
    {s t : State F} (h : onTouch v cfg fuel e s = some t) (hends : e.action.ends = true) :
    t.scrolling = false := by
  rw [onTouch] at h
  split_ifs at h with htwo hscroll hmode
  · obtain ⟨scrolling, hview, hstop⟩ := view_scrollHandle h
    exact (congrArg View.scrolling hview).trans (hstop hends)
  · rw [← Option.some_inj.mp h]
  · rw [scrolling_mouseHandle h]
    exact Bool.eq_false_of_not_eq_true hscroll
  · have hview := view_directHandle h
    have hsame : t.view.scrolling = s.view.scrolling := by
      rw [hview]
      split
      · split <;> rfl
      · rfl
    exact hsame.trans (Bool.eq_false_of_not_eq_true hscroll)

/-- Between gestures no two-finger gesture is under way: the next one begins afresh. -/
theorem scrolling_of_run {mouseMode : Bool} {as : List (Action F)} {s : State F}
    (hrun : run step (initial mouseMode) as = some s) :
    s.touching = false → s.scrolling = false := by
  refine run_invariant_of_step (I := fun s : State F => s.touching = false → s.scrolling = false)
    (fun s a s' h hstep => ?_) (fun _ => rfl) hrun
  cases a with
  | touch e v cfg fuel =>
    simp only [step] at hstep
    split at hstep <;> [skip; cases hstep]
    obtain ⟨t, ht, rfl⟩ := Option.map_eq_some_iff.mp hstep
    intro htouch
    have hends : e.action.ends = true := by
      rw [← Bool.not_eq_false']
      exact htouch
    exact scrolling_onTouch (t := t) ht hends
  | longPress =>
    obtain ⟨hold, -, rfl⟩ := Option.map_eq_some_iff.mp hstep
    obtain ⟨htouch, hscroll⟩ := fireLongPress_flags hold { s with longPress := none }
    rw [htouch, hscroll]
    exact h
  | twoFingerHold =>
    simp only [step] at hstep
    split at hstep <;> [skip; cases hstep]
    rw [← Option.some_inj.mp hstep, fireTwoFingerHold_eq]
    exact h
  | setMode mouseMode =>
    rw [← Option.some_inj.mp hstep]
    exact h
  | setCursor x y =>
    rw [← Option.some_inj.mp hstep]
    exact h

/-! ### A hold and a drag -/

theorem oneFinger_square (action : TouchAction) (x y : ℚ) :
    OneFinger ⟨action, 1, x, y, 0, 0, 0⟩ square :=
  ⟨Nat.one_lt_two, by decide, by decide, by decide⟩

theorem between_move (x y : ℚ) : Between (finger .move x y) :=
  .move defaults 0 rfl (oneFinger_square .move x y)

/-- A finger that rests, not quite still, until the timer fires, and then leaves. -/
def unsteady : List (Action ℚ) :=
  [finger .move 205 203, finger .move 198 201, .longPress, finger .move 260 240]

/-- A finger that leaves the slop. -/
def across : List (Action ℚ) := [finger .move 203 200, finger .move 300 200, finger .move 420 210]

/-- After a tap. -/
def tapped : State ℚ :=
  (run step (initial true) [finger .down 200 200, finger .up 200 200]).getD (initial true)

/-- The first is a click of the right button; the second, after a tap, is a drag. -/
theorem unsteady_rightClicks :
    outputs step buttons (initial true) (finger .down 200 200 :: unsteady ++ [finger .up 260 240]) =
        some [[], [], [], [(right, true), (right, false)], [], []] ∧
      outputs step buttons tapped (finger .down 204 200 :: across ++ [finger .up 420 210]) =
        some [[(left, true)], [], [], [], [(left, false)]] := by
  constructor
  · have hbetween : ∀ a ∈ unsteady, Between a := by
      simp only [unsteady, List.forall_mem_cons, between_move, true_and]
      exact ⟨.longPress, fun a ha => absurd ha List.not_mem_nil⟩
    have harmed : Meets step Armed (initial true)
        (finger .down 200 200 :: unsteady ++ [finger .up 260 240]) := by decide +kernel
    have hhold : classify defaults.holdAction
        (closeToLastTap defaults ⟨.down, 1, 200, 200, 0, 0, 0⟩ (initial true))
        (exceededFirst ⟨.down, 1, 200, 200, 0, 0, 0⟩ unsteady) (unsteady.any isTimer) = .hold := by
      decide +kernel
    have h := (gesture_classified rfl rfl (oneFinger_square .down 200 200)
      (oneFinger_square .up 260 240) defaults defaults 0 0 hbetween rfl rfl rfl harmed).1
    rw [hhold] at h
    exact h
  · have hbetween : ∀ a ∈ across, Between a := by
      simp only [across, List.forall_mem_cons, between_move, true_and]
      exact fun a ha => absurd ha List.not_mem_nil
    have harmed : Meets step Armed tapped
        (finger .down 204 200 :: across ++ [finger .up 420 210]) := by decide +kernel
    have hgrab : classify defaults.holdAction
        (closeToLastTap defaults ⟨.down, 1, 204, 200, 0, 0, 0⟩ tapped)
        (exceededFirst ⟨.down, 1, 204, 200, 0, 0, 0⟩ across) (across.any isTimer) =
          .grabAtDown := by decide +kernel
    have h := (gesture_classified rfl rfl (oneFinger_square .down 204 200)
      (oneFinger_square .up 420 210) defaults defaults 0 0 hbetween (by decide +kernel)
      (by decide +kernel) (by decide +kernel) harmed).1
    rw [hgrab] at h
    exact h

end Touchpad
