/-
The left button over touch streams.

The handlers press and release the left button in several places and remember it
in `grabbing` and `directPressed`.  Replaying what was sent tells whether the
presses and releases alternate and whether the button is held; `View` is that and
the fields that decide what is sent next.

* `leftHeld` — the left button after the events sent;
* `Paired` — it alternates, agrees with the state and is not held between gestures;
* `left_button_paired_iff` — the runs in which it is paired throughout.
-/
import KaliGui.Touchpad.Handlers
import Mathlib.Tactic.Common

namespace Touchpad

open Machine

/-! ### The button as the server sees it -/

/-- The press (`true`) or release of the left button that an event makes. -/
def leftEvent : SinkEvent → Option Bool
  | .sendPointer _ _ button pressed => if button = left then pressed else none
  | .sendButton button pressed => if button = left then some pressed else none
  | .updateCursor _ _ => none

/-- A press or release of the button where it alternates with what came before. -/
def turn (pressed : Bool) (held : Option Bool) : Option Bool :=
  if held = some (!pressed) then some pressed else none

@[simp] theorem turn_press_released : turn true (some false) = some true := rfl
@[simp] theorem turn_release_held : turn false (some true) = some false := rfl
@[simp] theorem turn_press_held : turn true (some true) = none := rfl
@[simp] theorem turn_release_released : turn false (some false) = none := rfl

/-- Whether the left button is held after the events, the newest first; `none` if
they do not alternate, beginning with a press. -/
def leftHeld : List SinkEvent → Option Bool
  | [] => some false
  | e :: log =>
    match leftEvent e with
    | none => leftHeld log
    | some pressed => turn pressed (leftHeld log)

/-- The left button's events alternate, it is held exactly while the state says so,
and it is not held between gestures. -/
structure Paired {F : Type*} (s : State F) : Prop where
  held : leftHeld s.log = some (s.grabbing || s.directPressed)
  released : s.touching = false → leftHeld s.log = some false

/-- What the left button depends on. -/
structure View where
  held : Option Bool
  grabbing : Bool
  directPressed : Bool
  scrolling : Bool
  mouseMode : Bool
  touching : Bool
  longPress : Option HoldAction

variable {F : Type*}

def State.view (s : State F) : View :=
  ⟨leftHeld s.log, s.grabbing, s.directPressed, s.scrolling, s.mouseMode, s.touching, s.longPress⟩

/-- The button is held as the two flags say, and not by both. -/
structure Balanced (w : View) : Prop where
  held : w.held = some (w.grabbing || w.directPressed)
  exclusive : w.grabbing = true → w.directPressed = false

/-- An event that is not the left button's. -/
theorem leftHeld_cons_of_none {e : SinkEvent} (h : leftEvent e = none) (log : List SinkEvent) :
    leftHeld (e :: log) = leftHeld log := by
  simp only [leftHeld, h]

@[simp] theorem leftHeld_updateCursor (x y : ℤ) (log : List SinkEvent) :
    leftHeld (.updateCursor x y :: log) = leftHeld log := rfl

@[simp] theorem leftHeld_motion (x y : ℤ) (log : List SinkEvent) :
    leftHeld (.sendPointer x y left none :: log) = leftHeld log := rfl

@[simp] theorem leftHeld_sendPointer (x y : ℤ) (p : Bool) (log : List SinkEvent) :
    leftHeld (.sendPointer x y left (some p) :: log) = turn p (leftHeld log) := rfl

@[simp] theorem leftHeld_sendButton (p : Bool) (log : List SinkEvent) :
    leftHeld (.sendButton left p :: log) = turn p (leftHeld log) := rfl

@[simp] theorem leftHeld_right (p : Bool) (log : List SinkEvent) :
    leftHeld (.sendButton right p :: log) = leftHeld log := rfl

/-! ### What the handlers do to it -/

theorem view_releaseGrab {s : State F} (h : Balanced s.view) :
    (releaseGrab s).view =
      { s.view with held := some s.directPressed, grabbing := false } := by
  have hheld : leftHeld s.log = some (s.grabbing || s.directPressed) := h.held
  rcases hg : s.grabbing
  · rw [hg, Bool.false_or] at hheld
    simp [releaseGrab, State.view, hg, hheld]
  · have hd : s.directPressed = false := h.exclusive hg
    rw [hg, hd] at hheld
    simp [releaseGrab, State.view, State.emit, hg, hd, hheld]

theorem view_dropPress {s : State F} (h : Balanced s.view) :
    (dropPress s).view = { s.view with
      held := some false, grabbing := false, directPressed := false, longPress := none } := by
  have hrelease : (releaseGrab (cancelLongPress s)).view = { s.view with
      held := some s.directPressed, grabbing := false, longPress := none } :=
    view_releaseGrab (s := cancelLongPress s) ⟨h.held, h.exclusive⟩
  simp only [State.view, View.mk.injEq] at hrelease
  obtain ⟨hheld, hg, hd, hscroll, hmode, htouch, hlong⟩ := hrelease
  simp only [dropPress, hd]
  rcases hdp : s.directPressed
  · rw [hdp] at hheld
    simp [State.view, hheld, hg, hdp, hscroll, hmode, htouch, hlong]
  · rw [hdp] at hheld
    simp [State.view, State.emit, hheld, hg, hscroll, hmode, htouch, hlong]

/-- A turn of a wheel loop sends other buttons only. -/
theorem view_wheel (up : Bool) (s : State F) : (wheel up s).view = s.view := by
  have hlog : ∀ p, leftEvent (.sendButton (if up then wheelUp else wheelDown) p) = none := by
    intro p
    cases up <;> rfl
  simp only [wheel, State.view, State.emit, leftHeld_cons_of_none (hlog _)]

theorem view_fireTwoFingerHold (s : State F) : (fireTwoFingerHold s).view = s.view := by
  simp only [fireTwoFingerHold, State.view, State.emit, leftHeld_right, leftHeld_motion]

theorem view_cancelHold (s : State F) : (cancelHold s).view = s.view := by
  rw [cancelHold]
  split <;> rfl

theorem view_grabOrSchedule (cfg : TouchpadConfig F) (s : State F) :
    (grabOrSchedule cfg s).view =
        { s.view with held := turn true s.view.held, grabbing := true } ∨
      (grabOrSchedule cfg s).view = { s.view with longPress := some cfg.holdAction } := by
  rw [grabOrSchedule]
  split
  · split
    · exact Or.inl rfl
    · exact Or.inr rfl
  · exact Or.inr rfl
  · exact Or.inr rfl

theorem view_releaseOrClick {e : TouchEvent F} {s : State F} (h : Balanced s.view)
    (hd : s.directPressed = false) : (releaseOrClick e s).view =
      { s.view with held := some false, grabbing := false } := by
  have hheld : leftHeld s.log = some (s.grabbing || s.directPressed) := h.held
  rw [hd, Bool.or_false] at hheld
  rw [releaseOrClick]
  split
  next hg =>
    rw [hg] at hheld
    simp [State.view, State.emit, hheld]
  next hg =>
    rw [Bool.not_eq_true] at hg
    rw [hg] at hheld
    split
    · simp [State.view, hheld, hg]
    · split
      · simp [State.view, State.emit, hheld, hg]
      · simp [State.view, hheld, hg]

/-- An `UP` of one finger in MOUSE mode releases a grab or sends whole clicks. -/
theorem view_mouseUp {e : TouchEvent F} {s : State F} (h : Balanced s.view)
    (hd : s.directPressed = false) : (mouseUp e s).view =
      { s.view with held := some false, grabbing := false, longPress := none } :=
  view_releaseOrClick (s := cancelLongPress s) ⟨h.held, h.exclusive⟩ hd

/-- The armed long press is about to grab. -/
def grabs (s : State F) : Bool :=
  decide (s.longPress = some .grabDrag) && (!s.dragged && !s.grabbing && !s.rightClicked)

theorem view_fireLongPress {h : HoldAction} {s : State F} (harmed : s.longPress = some h) :
    (fireLongPress h { s with longPress := none }).view =
      if grabs s then
        { s.view with held := turn true s.view.held, grabbing := true, longPress := none }
      else { s.view with longPress := none } := by
  have hgrabs : grabs s =
      (decide (h = .grabDrag) && (!s.dragged && !s.grabbing && !s.rightClicked)) := by
    simp [grabs, harmed]
  rw [fireLongPress, hgrabs]
  split
  next hidle =>
    rw [hidle, Bool.and_true]
    rcases h <;> rfl
  next hbusy =>
    rw [Bool.not_eq_true] at hbusy
    rw [hbusy, Bool.and_false]
    rfl

variable [FloatOps F]

theorem view_scrollDown {notch : F} {fuel : ℕ} {s s' : State F}
    (h : scrollDown notch fuel s = some s') : s'.view = s.view := by
  refine (scrollDown_isWhile notch).induction (R := fun s s' => s'.view = s.view)
    (fun s _ => rfl) (fun s s' _ hrest => ?_) h
  exact hrest.trans (view_wheel false _)

theorem view_scrollUp {notch : F} {fuel : ℕ} {s s' : State F}
    (h : scrollUp notch fuel s = some s') : s'.view = s.view := by
  refine (scrollUp_isWhile notch).induction (R := fun s s' => s'.view = s.view)
    (fun s _ => rfl) (fun s s' _ hrest => ?_) h
  exact hrest.trans (view_wheel true _)

theorem view_scrollBy {cfg : TouchpadConfig F} {fuel : ℕ} {y : F} {s s' : State F}
    (h : scrollBy cfg fuel y s = some s') : s'.view = s.view := by
  rw [scrollBy] at h
  split at h
  · rw [Option.some_inj.mp h]
  · obtain ⟨t, hdown, hup⟩ := Option.bind_eq_some_iff.mp h
    rw [view_scrollUp hup, view_scrollDown hdown]
    rfl

theorem view_scrollMove {cfg : TouchpadConfig F} {fuel : ℕ} {y : F} {s s' : State F}
    (h : scrollMove cfg fuel y s = some s') : s'.view = { s.view with scrolling := true } := by
  rw [scrollMove] at h
  split at h
  · rw [← Option.some_inj.mp h]
    rfl
  next hs =>
    have hs : s.scrolling = true := by simpa using hs
    have hscroll : s.view = { s.view with scrolling := true } := by
      simp only [State.view, hs]
    rw [← hscroll, view_scrollBy h]
    split
    · exact view_cancelHold s
    · rfl

/-- Two fingers leave the left button alone. -/
theorem view_scrollHandle {cfg : TouchpadConfig F} {fuel : ℕ} {e : TouchEvent F} {s s' : State F}
    (h : scrollHandle cfg fuel e s = some s') :
    ∃ scrolling, s'.view = { s.view with scrolling := scrolling } ∧
      (e.action.ends = true → scrolling = false) := by
  have stop : some { cancelHold s with scrolling := false, scrollAccum := FloatOps.ofInt 0 } =
      some s' → s'.view = { s.view with scrolling := false } := by
    intro h
    rw [← Option.some_inj.mp h, ← view_cancelHold s]
    rfl
  rcases ha : e.action
  all_goals simp only [scrollHandle, ha] at h
  · exact ⟨s.scrolling, by rw [← Option.some_inj.mp h]; rfl, by simp [TouchAction.ends]⟩
  · exact ⟨true, view_scrollMove h, by simp [TouchAction.ends]⟩
  · exact ⟨false, stop h, fun _ => rfl⟩
  · exact ⟨false, stop h, fun _ => rfl⟩
  · refine ⟨true, ?_, by simp [TouchAction.ends]⟩
    rw [← Option.some_inj.mp h]
    split
    · exact view_cancelHold _
    · rfl
  · exact ⟨false, stop h, fun _ => rfl⟩
  · exact ⟨s.scrolling, by rw [← Option.some_inj.mp h]; rfl, by simp [TouchAction.ends]⟩

/-- One finger in TOUCH mode: nothing outside the image, and inside it a press, a
release or only motion. -/
theorem view_directHandle {v : Viewport} {e : TouchEvent F} {s s' : State F}
    (h : directHandle v e s = some s') :
    s'.view =
      if v.inside e.x e.y then
        match e.action with
        | .down => { s.view with held := turn true s.view.held, directPressed := true }
        | .up | .cancel => { s.view with held := turn false s.view.held, directPressed := false }
        | _ => s.view
      else s.view := by
  obtain ⟨fb, hfb, rfl⟩ := Option.map_eq_some_iff.mp h
  rw [← Viewport.toFramebuffer_isSome hfb]
  rcases fb with _ | ⟨x, y⟩
  · rfl
  · rcases ha : e.action <;> rfl

/-- A `DOWN` of one finger in MOUSE mode grabs or arms the long press. -/
theorem view_mouseDown (cfg : TouchpadConfig F) (e : TouchEvent F) (s : State F) :
    (mouseDown cfg e s).view =
        { s.view with held := turn true s.view.held, grabbing := true } ∨
      (mouseDown cfg e s).view =
        { s.view with grabbing := false, longPress := some cfg.holdAction } := by
  simp only [mouseDown]
  split
  · exact view_grabOrSchedule cfg _
  · exact view_grabOrSchedule cfg _

theorem view_movePointer {v : Viewport} {e : TouchEvent F} {s s' : State F}
    (h : movePointer v e s = some s') : s'.view = s.view := by
  obtain ⟨nx, -, h⟩ := Option.bind_eq_some_iff.mp h
  obtain ⟨ny, -, rfl⟩ := Option.map_eq_some_iff.mp h
  split <;> rfl

/-- A `MOVE` of one finger in MOUSE mode at most disarms the long press. -/
theorem view_mouseMove {v : Viewport} {cfg : TouchpadConfig F} {e : TouchEvent F}
    {s s' : State F} (h : mouseMove v cfg e s = some s') :
    ∃ longPress, s'.view = { s.view with longPress := longPress } := by
  obtain ⟨t, hmove, rfl⟩ := Option.map_eq_some_iff.mp h
  have hview := view_movePointer hmove
  split at hview
  · exact ⟨none, hview⟩
  · exact ⟨s.longPress, hview⟩

/-! ### The condition on the steps -/

/-- The mode is switched only between gestures. -/
def SwitchesBetweenGestures (s : State F) : Action F → Prop
  | .setMode _ => s.touching = false
  | _ => True

/-- The end of a gesture finds the finger where its handler needs it.  In TOUCH mode
one finger ends inside the image exactly when it holds the button; in MOUSE mode a
grab does not end while nothing is laid out.  A long press does not grab outside a
gesture, or on top of a TOUCH press. -/
def EndsWhereItPresses (s : State F) : Action F → Prop
  | .touch e v _ _ => e.action.ends = true → e.pointerCount < 2 → s.scrolling = false →
      if s.mouseMode then v.laidOut = true ∨ s.grabbing = false
      else s.grabbing = false ∧ s.directPressed = v.inside e.x e.y
  | .longPress => grabs s = true → s.touching = true ∧ s.directPressed = false
  | _ => True

/-- What holds of the left button while the steps meet the condition. -/
structure Inv (w : View) : Prop extends Balanced w where
  idle : w.touching = false → w.grabbing = false ∧ w.directPressed = false ∧ w.scrolling = false
  mouse : w.mouseMode = true → w.directPressed = false
  scroll : w.scrolling = true →
    w.grabbing = false ∧ w.directPressed = false ∧ w.longPress = none

theorem inv_initial (mouseMode : Bool) : Inv (initial mouseMode : State F).view where
  held := rfl
  exclusive _ := rfl
  idle _ := ⟨rfl, rfl, rfl⟩
  mouse _ := rfl
  scroll h := by simp [initial, State.view] at h

omit [FloatOps F] in
theorem Inv.paired {s : State F} (h : Inv s.view) : Paired s where
  held := h.held
  released htouch := by
    obtain ⟨hg, hd, -⟩ := h.idle htouch
    have hheld := h.held
    rw [hg, hd] at hheld
    exact hheld

/-! ### The invariant on views -/

/-- Nothing held. -/
theorem inv_released {w : View} (hheld : w.held = some false) (hg : w.grabbing = false)
    (hd : w.directPressed = false) (htouch : w.touching = false → w.scrolling = false)
    (hscroll : w.scrolling = true → w.longPress = none) : Inv w where
  held := by rw [hheld, hg, hd]; rfl
  exclusive _ := hd
  idle h := ⟨hg, hd, htouch h⟩
  mouse _ := hd
  scroll h := ⟨hg, hd, hscroll h⟩

/-- The gesture goes on. -/
theorem Inv.goOn {w : View} (h : Inv w) : Inv { w with touching := true } where
  held := h.held
  exclusive := h.exclusive
  idle htouch := absurd htouch (by simp)
  mouse := h.mouse
  scroll := h.scroll

/-- The gesture ends with nothing held. -/
theorem Inv.stop {w : View} (h : Inv w) (hg : w.grabbing = false) (hd : w.directPressed = false)
    (hs : w.scrolling = false) : Inv { w with touching := false } where
  held := h.held
  exclusive := h.exclusive
  idle _ := ⟨hg, hd, hs⟩
  mouse := h.mouse
  scroll := h.scroll

/-- The long press is armed or disarmed, with no two-finger gesture under way. -/
theorem Inv.arm {w : View} (h : Inv w) (hs : w.scrolling = false) (l : Option HoldAction) :
    Inv { w with longPress := l } where
  held := h.held
  exclusive := h.exclusive
  idle := h.idle
  mouse := h.mouse
  scroll hs' := absurd (show w.scrolling = true from hs') (by simp [hs])

/-- The long press is disarmed. -/
theorem Inv.disarm {w : View} (h : Inv w) : Inv { w with longPress := none } where
  held := h.held
  exclusive := h.exclusive
  idle := h.idle
  mouse := h.mouse
  scroll hs := ⟨(h.scroll hs).1, (h.scroll hs).2.1, rfl⟩

/-- A press within a gesture. -/
theorem inv_pressed {w : View} (hheld : w.held = some true) (hor : w.grabbing = !w.directPressed)
    (htouch : w.touching = true) (hmouse : w.mouseMode = true → w.directPressed = false)
    (hs : w.scrolling = false) : Inv w where
  held := by rw [hheld, hor]; simp
  exclusive hg := by simpa [hg] using hor
  idle h := absurd h (by simp [htouch])
  mouse := hmouse
  scroll h := absurd h (by simp [hs])

theorem Inv.held_eq_false {w : View} (h : Inv w) (hg : w.grabbing = false)
    (hd : w.directPressed = false) : w.held = some false := by
  rw [h.held, hg, hd]
  rfl

/-! ### The steps -/

/-- Two fingers: the button is let go of. -/
theorem inv_two_fingers {cfg : TouchpadConfig F} {fuel : ℕ} {e : TouchEvent F} {s t : State F}
    (h : Inv s.view) (ht : scrollHandle cfg fuel e (dropPress s) = some t) :
    Inv { t.view with touching := !e.action.ends } := by
  obtain ⟨scrolling, hview, hends⟩ := view_scrollHandle ht
  rw [hview, view_dropPress h.toBalanced]
  refine inv_released rfl rfl rfl (fun htouch => hends ?_) fun _ => rfl
  simpa using htouch

/-- The ignored tail of a two-finger gesture. -/
theorem inv_tail {e : TouchEvent F} {s : State F} (h : Inv s.view) (hs : s.scrolling = true) :
    Inv { (if e.action.ends then { s with scrolling := false, scrollAccum := FloatOps.ofInt 0 }
      else s).view with touching := !e.action.ends } := by
  obtain ⟨hg, hd, hl⟩ := h.scroll hs
  rcases e.action.ends
  · exact h.goOn
  · exact inv_released (h.held_eq_false hg hd) hg hd (fun _ => rfl) fun _ => hl

/-- One finger in TOUCH mode while the gesture goes on. -/
theorem inv_direct {v : Viewport} {e : TouchEvent F} {s t : State F} (h : Inv s.view)
    (hmode : s.mouseMode = false) (hs : s.scrolling = false)
    (hguard : s.touching = (e.action != .down)) (hends : e.action.ends = false)
    (ht : directHandle v e s = some t) : Inv { t.view with touching := true } := by
  rw [view_directHandle ht]
  split
  · rcases ha : e.action
    case down =>
      rw [ha] at hguard
      obtain ⟨hg, hd, -⟩ := h.idle hguard
      refine inv_pressed ?_ hg rfl (fun hm => ?_) hs
      · show turn true s.view.held = some true
        rw [h.held_eq_false hg hd]
        rfl
      · rw [show s.mouseMode = true from hm] at hmode
        simp at hmode
    case up => simp [ha, TouchAction.ends] at hends
    case cancel => simp [ha, TouchAction.ends] at hends
    all_goals exact h.goOn
  · exact h.goOn

/-- What the end of a gesture does in TOUCH mode. -/
theorem view_direct_ends {v : Viewport} {e : TouchEvent F} {s t : State F}
    (hends : e.action.ends = true) (ht : directHandle v e s = some t) :
    t.view = if v.inside e.x e.y then
      { s.view with held := turn false s.view.held, directPressed := false } else s.view := by
  rw [view_directHandle ht]
  rcases ha : e.action <;> simp [ha, TouchAction.ends] at hends ⊢

/-- One finger in TOUCH mode ends the gesture. -/
theorem direct_ends {v : Viewport} {e : TouchEvent F} {s t : State F} (h : Inv s.view)
    (hs : s.scrolling = false) (hends : e.action.ends = true) (ht : directHandle v e s = some t) :
    (s.grabbing = false ∧ s.directPressed = v.inside e.x e.y →
        Inv { t.view with touching := false }) ∧
      (Paired { t with touching := false } →
        s.grabbing = false ∧ s.directPressed = v.inside e.x e.y) := by
  have hview := view_direct_ends hends ht
  have hheld : s.view.held = some (s.grabbing || s.directPressed) := h.held
  have hexcl : s.grabbing = true → s.directPressed = false := h.exclusive
  constructor
  · rintro ⟨hg, hd⟩
    rw [hview]
    rcases hin : v.inside e.x e.y
    · rw [hin] at hd
      exact h.stop hg hd hs
    · rw [hin] at hd
      rw [hg, hd] at hheld
      refine inv_released ?_ hg rfl (fun _ => hs) fun hs' => ?_
      · show turn false s.view.held = some false
        rw [hheld]
        rfl
      · rw [show s.scrolling = true from hs'] at hs
        simp at hs
  · intro hpaired
    -- the flags and the button after the step, and the button is not held
    have hflags : t.view.held = some (t.view.grabbing || t.view.directPressed) := hpaired.held
    have hfree : t.view.held = some false := hpaired.released rfl
    rw [hview] at hflags hfree
    rcases hin : v.inside e.x e.y
    · rw [hin] at hfree
      change s.view.held = some false at hfree
      rw [hheld, Option.some_inj, Bool.or_eq_false_iff] at hfree
      exact hfree
    · rw [hin] at hflags hfree
      change turn false s.view.held = some (s.grabbing || false) at hflags
      change turn false s.view.held = some false at hfree
      rw [hheld] at hfree hflags
      rcases hg : s.grabbing
      · rcases hd : s.directPressed
        · simp [hg, hd] at hfree
        · exact ⟨rfl, rfl⟩
      · rw [hg, hexcl hg] at hflags
        simp at hflags

/-- One finger in MOUSE mode. -/
theorem inv_mouse {v : Viewport} {cfg : TouchpadConfig F} {e : TouchEvent F} {s t : State F}
    (h : Inv s.view) (hmode : s.mouseMode = true) (hs : s.scrolling = false)
    (hguard : s.touching = (e.action != .down)) (hlaid : v.laidOut = true)
    (ht : mouseHandle v cfg e s = some t) :
    Inv { t.view with touching := !e.action.ends } := by
  have hd : s.directPressed = false := h.mouse hmode
  rw [mouseHandle, hlaid, if_neg (by simp)] at ht
  rcases ha : e.action
  case down =>
    rw [ha] at ht hguard
    obtain ⟨hg, -, -⟩ := h.idle hguard
    rw [← Option.some_inj.mp ht]
    -- a second tap grabs the button at once, any other waits for the timer
    rcases view_mouseDown cfg e s with hview | hview
    · rw [hview]
      refine inv_pressed ?_ (by simp [State.view, hd]) rfl (fun _ => hd) hs
      show turn true s.view.held = some true
      rw [h.held_eq_false hg hd]
      rfl
    · rw [hview]
      refine inv_released (h.held_eq_false hg hd) rfl hd (fun _ => hs) fun hs' => ?_
      rw [show s.scrolling = true from hs'] at hs
      simp at hs
  case move =>
    rw [ha] at ht
    obtain ⟨longPress, hview⟩ := view_mouseMove ht
    rw [hview]
    exact (h.arm hs longPress).goOn
  case up =>
    rw [ha] at ht
    rw [← Option.some_inj.mp ht, view_mouseUp h.toBalanced hd]
    exact inv_released rfl rfl hd (fun _ => hs) fun _ => rfl
  case cancel =>
    rw [ha] at ht
    have hview : (releaseGrab (cancelLongPress s)).view = { s.view with
        held := some s.directPressed, grabbing := false, longPress := none } :=
      view_releaseGrab (s := cancelLongPress s) ⟨h.held, h.exclusive⟩
    rw [← Option.some_inj.mp ht]
    show Inv { (releaseGrab (cancelLongPress s)).view with touching := false }
    rw [hview, hd]
    exact inv_released rfl rfl hd (fun _ => hs) fun _ => rfl
  all_goals
    rw [ha] at ht
    rw [← Option.some_inj.mp ht]
    exact h.goOn

/-- One finger in MOUSE mode with nothing laid out: the sample is dropped. -/
theorem mouse_dropped {v : Viewport} {cfg : TouchpadConfig F} {e : TouchEvent F} {s t : State F}
    (hlaid : v.laidOut = false) (ht : mouseHandle v cfg e s = some t) : t = s := by
  rw [mouseHandle, hlaid, if_pos (by simp)] at ht
  exact (Option.some_inj.mp ht).symm

theorem touch_step {e : TouchEvent F} {v : Viewport} {cfg : TouchpadConfig F} {fuel : ℕ}
    {s s' : State F} (h : Inv s.view) (hstep : step s (.touch e v cfg fuel) = some s') :
    (EndsWhereItPresses s (.touch e v cfg fuel) → Inv s'.view) ∧
      (Paired s' → EndsWhereItPresses s (.touch e v cfg fuel)) := by
  simp only [step] at hstep
  split at hstep <;> [skip; simp at hstep]
  next hguard =>
    obtain ⟨t, ht, rfl⟩ := Option.map_eq_some_iff.mp hstep
    rw [onTouch] at ht
    -- two fingers, the tail of a scroll, MOUSE mode, DIRECT mode
    split at ht
    next htwo =>
      have hinv := inv_two_fingers h ht
      exact ⟨fun _ => hinv, fun _ _ hone => absurd hone (not_lt.mpr htwo)⟩
    next hone =>
      split at ht
      next hs =>
        rw [← Option.some_inj.mp ht]
        exact ⟨fun _ => inv_tail h hs, fun _ _ _ hs' => by rw [hs] at hs'; simp at hs'⟩
      next hs =>
        rw [Bool.not_eq_true] at hs
        split at ht
        next hmode =>
          rcases hlaid : v.laidOut
          · -- the sample is dropped, also if the finger is lifted with it
            obtain rfl := mouse_dropped hlaid ht
            constructor
            · intro hok
              show Inv { t.view with touching := !e.action.ends }
              rcases hends : e.action.ends
              · exact h.goOn
              · have hok := hok hends (not_le.mp hone) hs
                rw [if_pos hmode, hlaid] at hok
                exact h.stop (hok.resolve_left (by simp)) (h.mouse hmode) hs
            · intro hpaired hends _ _
              rw [if_pos hmode]
              have hfree : leftHeld t.log = some false := hpaired.released (by simp [hends])
              have hheld : leftHeld t.log = some (t.grabbing || t.directPressed) := h.held
              rw [hfree, Option.some_inj, eq_comm, Bool.or_eq_false_iff] at hheld
              exact Or.inr hheld.1
          · have hinv := inv_mouse h hmode hs hguard hlaid ht
            refine ⟨fun _ => hinv, fun _ _ _ _ => ?_⟩
            rw [if_pos hmode]
            exact Or.inl hlaid
        next hmode =>
          rcases hends : e.action.ends
          · have hinv := inv_direct h (by simpa using hmode) hs hguard hends ht
            exact ⟨fun _ => hinv, fun _ hends' => by rw [hends] at hends'; simp at hends'⟩
          · obtain ⟨hok_inv, hpaired_ok⟩ := direct_ends h hs hends ht
            constructor
            · intro hok
              have hok := hok hends (not_le.mp hone) hs
              rw [if_neg hmode] at hok
              exact hok_inv hok
            · intro hpaired _ _ _
              rw [if_neg hmode]
              exact hpaired_ok hpaired

omit [FloatOps F] in
theorem longPress_step {h : HoldAction} {s : State F} (hinv : Inv s.view)
    (harmed : s.longPress = some h) :
    ((grabs s = true → s.touching = true ∧ s.directPressed = false) →
        Inv (fireLongPress h { s with longPress := none }).view) ∧
      (Paired (fireLongPress h { s with longPress := none }) →
        grabs s = true → s.touching = true ∧ s.directPressed = false) := by
  have hview := view_fireLongPress harmed
  have hscroll : s.scrolling = false := by
    by_contra hs
    have hnone : s.longPress = none := (hinv.scroll (by simpa [State.view] using hs)).2.2
    rw [harmed] at hnone
    simp at hnone
  rcases hgrabs : grabs s
  · rw [hgrabs] at hview
    rw [hview]
    exact ⟨fun _ => hinv.disarm, fun _ hg => by simp at hg⟩
  · rw [hgrabs] at hview
    have hg : s.grabbing = false := by
      simp only [grabs, Bool.and_eq_true, Bool.not_eq_true'] at hgrabs
      exact hgrabs.2.1.2
    constructor
    · intro hok
      obtain ⟨htouch, hd⟩ := hok rfl
      rw [hview]
      refine inv_pressed ?_ (by simp [State.view, hd]) htouch (fun _ => hd) hscroll
      show turn true s.view.held = some true
      rw [hinv.held_eq_false hg hd]
      rfl
    · intro hpaired _
      have hheld : s.view.held = some s.directPressed := by
        rw [hinv.held]
        simp [State.view, hg]
      -- a press on top of a TOUCH press does not alternate, one between gestures stays
      have hpressed : leftHeld (fireLongPress h { s with longPress := none }).log =
          turn true (some s.directPressed) := hheld ▸ congrArg View.held hview
      have htouch : (fireLongPress h { s with longPress := none }).touching = s.touching :=
        congrArg View.touching hview
      have hd : s.directPressed = false := by
        rcases hd : s.directPressed
        · rfl
        · have hflags := hpaired.held
          rw [hpressed, hd] at hflags
          simp at hflags
      refine ⟨?_, hd⟩
      rcases ht : s.touching
      · have hfree := hpaired.released (htouch.trans ht)
        rw [hpressed, hd] at hfree
        simp at hfree
      · rfl

/-- Each step keeps the invariant when it meets the condition, and breaks the pairing
when it does not. -/
theorem left_button_step {s s' : State F} {a : Action F} (h : Inv s.view)
    (hmode : SwitchesBetweenGestures s a) (hstep : step s a = some s') :
    (EndsWhereItPresses s a → Inv s'.view) ∧ (Paired s' → EndsWhereItPresses s a) := by
  cases a with
  | touch e v cfg fuel => exact touch_step h hstep
  | longPress =>
    obtain ⟨hold, harmed, rfl⟩ := Option.map_eq_some_iff.mp hstep
    exact longPress_step h harmed
  | twoFingerHold =>
    simp only [step] at hstep
    split at hstep <;> [skip; simp at hstep]
    rw [← Option.some_inj.mp hstep, view_fireTwoFingerHold]
    exact ⟨fun _ => h, fun _ => trivial⟩
  | setMode mouseMode =>
    rw [← Option.some_inj.mp hstep]
    refine ⟨fun _ => ?_, fun _ => trivial⟩
    obtain ⟨hg, hd, hs⟩ := h.idle hmode
    refine inv_released (h.held_eq_false hg hd) hg hd (fun _ => hs) fun hs' => ?_
    exact absurd (show s.view.scrolling = true from hs') (by simp [hs])
  | setCursor x y =>
    rw [← Option.some_inj.mp hstep]
    exact ⟨fun _ => h, fun _ => trivial⟩

/-- In a run that switches the mode only between gestures, the left button is paired
throughout if and only if every gesture ends where it presses. -/
theorem left_button_paired_iff (mouseMode : Bool) (as : List (Action F)) (s : State F)
    (hmode : Meets step SwitchesBetweenGestures (initial mouseMode) as)
    (hrun : run step (initial mouseMode) as = some s) :
    Always step Paired (initial mouseMode) as ↔
      Meets step EndsWhereItPresses (initial mouseMode) as := by
  refine always_iff_meets_of_pre (fun s h => h.paired) (fun s a s' h hmode hstep => ?_)
    (fun s a s' h hmode hok hstep => (left_button_step h hmode hstep).1 hok)
    (inv_initial mouseMode) hmode hrun
  exact ⟨fun hok => ((left_button_step h hmode hstep).1 hok).paired,
    (left_button_step h hmode hstep).2⟩

/-! ### A finger that slides off the picture -/

/-- A picture of 1000 × 1000 pixels drawn one to one. -/
def square : Viewport := ⟨0, 0, 1000, 1000, 1000, 1000⟩

def defaults : TouchpadConfig ℚ := ⟨.tapTapHold, 12, 24, 300, 20⟩

/-- One finger at a point. -/
def finger (action : TouchAction) (x y : ℚ) : Action ℚ :=
  .touch ⟨action, 1, x, y, 0, 0, 0⟩ square defaults 0

/-- Two fingers at the same height. -/
def fingers (action : TouchAction) (x y : ℚ) : Action ℚ :=
  .touch ⟨action, 2, x, y, x + 100, y, 0⟩ square defaults 100

/-- A TOUCH drag that ends right of the picture. -/
def slideOff : List (Action ℚ) := [finger .down 200 200, finger .up 1200 200]

/-- A TOUCH drag that ends on the picture. -/
def drag : List (Action ℚ) := [finger .down 200 200, finger .move 700 200, finger .up 900 200]

/-- After `slideOff` no gesture is under way and the left button is held. -/
theorem slideOff_stuck :
    ∃ s, run step (initial false) slideOff = some s ∧ s.touching = false ∧
      leftHeld s.log = some true ∧ ¬ Paired s := by
  have heval : (run step (initial false) slideOff).map (fun s => (leftHeld s.log, s.touching)) =
      some (some true, false) := by decide +kernel
  obtain ⟨s, hrun, hs⟩ := Option.map_eq_some_iff.mp heval
  obtain ⟨hheld, htouch⟩ := Prod.mk.inj hs
  refine ⟨s, hrun, htouch, hheld, fun h => ?_⟩
  rw [h.released htouch] at hheld
  simp at hheld

/-- `drag` leaves the left button paired throughout. -/
theorem drag_paired : Always step Paired (initial false) drag := by
  have heval : (run step (initial false) drag).isSome = true := by decide +kernel
  obtain ⟨s, hrun⟩ := Option.isSome_iff_exists.mp heval
  have hmode : Meets step SwitchesBetweenGestures (initial false) drag := by
    simp [drag, finger, Meets, SwitchesBetweenGestures]
  refine (left_button_paired_iff false drag s hmode hrun).mpr ?_
  refine ⟨fun h => by simp [TouchAction.ends] at h, fun s₁ h₁ =>
    ⟨fun h => by simp [TouchAction.ends] at h, fun s₂ h₂ => ⟨fun _ _ _ => ?_, fun _ _ => trivial⟩⟩⟩
  have hpressed : (run step (initial false) [finger .down 200 200, finger .move 700 200]).map
      (fun s => (s.mouseMode, s.grabbing, s.directPressed)) = some (false, false, true) := by
    decide +kernel
  have hrun₂ : run step (initial false) [finger .down 200 200, finger .move 700 200] = some s₂ :=
    run_cons_eq_some.mpr ⟨s₁, h₁, by rw [run_singleton]; exact h₂⟩
  rw [hrun₂, Option.map_some, Option.some_inj, Prod.mk.injEq, Prod.mk.injEq] at hpressed
  have hinside : square.inside (900 : ℚ) 200 = true := by decide +kernel
  simp [hpressed, hinside]

end Touchpad
