/-
Where buttons land.

The sprite is drawn where the cursor was last put; the server has its own pointer, where the
last motion put it.  A button without a motion before it lands on the server's.  `Pointed`
keeps both beside the state.

* `Aligned` — every button so far landed under the sprite;
* `clicks_under_cursor_iff` — the runs in which it is so throughout.
-/
import KaliGui.Touchpad.Timers

namespace Touchpad

open Machine

/-! ### Sprite and pointer -/

/-- What the user sees and what the server has. -/
structure Screen where
  /-- the server's pointer -/
  server : ℤ × ℤ := (0, 0)
  /-- `X11Renderer.pendingPointerX` and its neighbour -/
  sprite : ℤ × ℤ := (0, 0)
  /-- every button so far landed under the sprite -/
  aligned : Bool := true
  deriving DecidableEq, Repr

/-- A button event lands on the server's pointer. -/
def Screen.button (p : Screen) : Screen :=
  { p with aligned := p.aligned && decide (p.server = p.sprite) }

/-- One call of the sink, on an open connection. -/
def Screen.feed (p : Screen) : SinkEvent → Screen
  | .updateCursor x y => { p with sprite := (x, y) }
  | .sendPointer x y _ none => { p with server := (x, y) }
  | .sendPointer x y _ (some _) => { p with server := (x, y) }.button
  | .sendButton _ _ => p.button

/-- Calls of the sink, the newest first. -/
def Screen.feedAll (p : Screen) (es : List SinkEvent) : Screen := es.foldr (fun e p => p.feed e) p

@[simp] theorem Screen.feedAll_nil (p : Screen) : p.feedAll [] = p := rfl

@[simp] theorem Screen.feedAll_cons (p : Screen) (e : SinkEvent) (es : List SinkEvent) :
    p.feedAll (e :: es) = (p.feedAll es).feed e := rfl

theorem Screen.feedAll_append (p : Screen) (es fs : List SinkEvent) :
    p.feedAll (es ++ fs) = (p.feedAll fs).feedAll es := List.foldr_append

@[simp] theorem Screen.button_server (p : Screen) : p.button.server = p.server := rfl

@[simp] theorem Screen.button_sprite (p : Screen) : p.button.sprite = p.sprite := rfl

@[simp] theorem Screen.button_aligned (p : Screen) :
    p.button.aligned = true ↔ p.aligned = true ∧ p.server = p.sprite := by
  rw [button, Bool.and_eq_true, decide_eq_true_iff]

/-- Buttons alone: they land where the pointer is. -/
theorem Screen.feedAll_buttons (p : Screen) {es : List SinkEvent}
    (h : ∀ e ∈ es, ∃ b pressed, e = .sendButton b pressed) :
    (p.feedAll es).server = p.server ∧ (p.feedAll es).sprite = p.sprite ∧
      ((p.feedAll es).aligned = true ↔ p.aligned = true ∧ (es ≠ [] → p.server = p.sprite)) := by
  induction es with
  | nil => simp
  | cons e es ih =>
    obtain ⟨hserver, hsprite, hal⟩ := ih fun e he => h e (List.mem_cons_of_mem _ he)
    obtain ⟨b, pressed, rfl⟩ := h e List.mem_cons_self
    rw [feedAll_cons, feed, button_server, button_sprite, button_aligned, hserver, hsprite, hal]
    refine ⟨rfl, rfl, ?_⟩
    constructor
    · rintro ⟨⟨hp, -⟩, hsync⟩
      exact ⟨hp, fun _ => hsync⟩
    · rintro ⟨hp, hsync⟩
      exact ⟨⟨hp, fun _ => hsync (by simp)⟩, hsync (by simp)⟩

variable {F : Type*}

structure Pointed (F : Type*) where
  s : State F
  screen : Screen := {}

/-- The pointer is under the sprite. -/
def Pointed.Synced (w : Pointed F) : Prop := w.screen.server = w.screen.sprite

/-- The sprite is where the handlers have the cursor. -/
def Pointed.AtCursor (w : Pointed F) : Prop := w.screen.sprite = (w.s.cursorX, w.s.cursorY)

/-- Every button so far landed under the sprite. -/
def Aligned (w : Pointed F) : Prop := w.screen.aligned = true

inductive ScreenAction (F : Type*)
  /-- a connection opens; its pointer is in the corner -/
  | connect
  | act (a : Action F)

/-! ### The condition on the steps -/

section

variable [FloatOps F]

/-- `step`, with what is sent carried out. -/
def point (w : Pointed F) : ScreenAction F → Option (Pointed F)
  | .connect => some { w with screen := { w.screen with server := (0, 0) } }
  | .act a => (step w.s a).map fun s' => ⟨s', w.screen.feedAll (sent w.s s')⟩

/-- The second touch of a tap that grabs at once. -/
def grabsAtOnce (cfg : TouchpadConfig F) (e : TouchEvent F) (s : State F) : Bool :=
  decide (cfg.holdAction = .tapTapHold) && closeToLastTap cfg e s

/-- A button that is sent where the server's pointer is finds it under the sprite: the
release that drops a press, the wheel, the release of a grab.  One that is sent at the cursor
finds the sprite there: a grab, a long press, a two-finger hold. -/
def FindsCursor (w : Pointed F) : ScreenAction F → Prop
  | .act (.touch e v cfg _) =>
    if 2 ≤ e.pointerCount then
      w.s.grabbing = true ∨ w.s.directPressed = true ∨ turnsWheel cfg e w.s = true → w.Synced
    else if w.s.scrolling = false ∧ w.s.mouseMode = true ∧ v.laidOut = true then
      (e.action = .down → grabsAtOnce cfg e w.s = true → w.AtCursor) ∧
        (e.action.ends = true → w.s.grabbing = true → w.Synced)
    else True
  | .act .longPress => w.s.longPress.isSome = true →
    (!w.s.dragged && !w.s.grabbing && !w.s.rightClicked) = true → w.AtCursor
  | .act .twoFingerHold => w.s.twoFingerHold = true → w.AtCursor
  | _ => True

instance (w : Pointed F) : ∀ a, Decidable (FindsCursor w a)
  | .connect => isTrue trivial
  | .act (.touch e v _ _) =>
    have : Decidable w.Synced := inferInstanceAs (Decidable (_ = _))
    have : Decidable w.AtCursor := inferInstanceAs (Decidable (_ = _))
    inferInstanceAs (Decidable (if 2 ≤ e.pointerCount then _ → _
      else if w.s.scrolling = false ∧ w.s.mouseMode = true ∧ v.laidOut = true then _ else True))
  | .act .longPress =>
    have : Decidable w.AtCursor := inferInstanceAs (Decidable (_ = _))
    inferInstanceAs (Decidable (_ → _ → _))
  | .act .twoFingerHold =>
    have : Decidable w.AtCursor := inferInstanceAs (Decidable (_ = _))
    inferInstanceAs (Decidable (_ → _))
  | .act (.setMode _) => isTrue trivial
  | .act (.setCursor _ _) => isTrue trivial

/-! ### What each handler sends -/

/-- What a step sends leaves the buttons under the sprite exactly if `ok` holds, and the
screen as `keeps` says. -/
def Lands (w : Pointed F) (t : State F) (ok : Prop) (keeps : Screen → Prop) : Prop :=
  ∃ es, t.log = es ++ w.s.log ∧
    ((w.screen.feedAll es).aligned = true ↔ w.screen.aligned = true ∧ ok) ∧
    keeps (w.screen.feedAll es)

/-- Sprite and pointer are where the cursor is now, if they were where it was. -/
def FollowsCursor (w : Pointed F) (t : State F) (p : Screen) : Prop :=
  w.Synced → w.AtCursor → p.server = (t.cursorX, t.cursorY) ∧ p.sprite = (t.cursorX, t.cursorY)

omit [FloatOps F] in
theorem Lands.of_log {w : Pointed F} {t u : State F} {ok : Prop} {keeps : Screen → Prop}
    (h : Lands w t ok keeps) (hu : u.log = t.log) : Lands w u ok keeps := by
  obtain ⟨es, hlog, hes⟩ := h
  exact ⟨es, hu.trans hlog, hes⟩

omit [FloatOps F] in
theorem Lands.congr {w : Pointed F} {t : State F} {ok ok' : Prop} {keeps keeps' : Screen → Prop}
    (h : Lands w t ok keeps) (hok : ok ↔ ok') (hkeeps : ∀ p, keeps p → keeps' p) :
    Lands w t ok' keeps' := by
  obtain ⟨es, hlog, hal, hk⟩ := h
  exact ⟨es, hlog, hal.trans (and_congr_right fun _ => hok), hkeeps _ hk⟩

omit [FloatOps F] in
theorem lands_nothing {w : Pointed F} {t : State F} {ok : Prop} {keeps : Screen → Prop}
    (hlog : t.log = w.s.log) (hok : ok) (hkeeps : keeps w.screen) : Lands w t ok keeps :=
  ⟨[], hlog, by simp [hok], hkeeps⟩

omit [FloatOps F] in
/-- With the cursor where it was and nothing sent. -/
theorem followsCursor_same {w : Pointed F} {t : State F} (hx : t.cursorX = w.s.cursorX)
    (hy : t.cursorY = w.s.cursorY) : FollowsCursor w t w.screen := by
  intro hsync hcursor
  rw [hx, hy, hsync]
  exact ⟨hcursor, hcursor⟩

omit [FloatOps F] in
theorem lands_dropPress {w : Pointed F} {t : State F} {es : List SinkEvent}
    (hlog : t.log = es ++ (dropPress w.s).log) (hes : ∀ e ∈ es, IsWheel e) :
    Lands w t (w.s.grabbing = true ∨ w.s.directPressed = true ∨ es ≠ [] → w.Synced)
      (fun p => p.server = w.screen.server ∧ p.sprite = w.screen.sprite) := by
  rw [dropPress_eq] at hlog
  have hbuttons : ∀ e ∈ es ++ releases w.s, ∃ b pressed, e = .sendButton b pressed := by
    intro e he
    rcases List.mem_append.mp he with he | he
    · obtain ⟨up, pressed, rfl⟩ := hes e he
      exact ⟨_, pressed, rfl⟩
    · exact ⟨left, false, eq_of_mem_releases he⟩
  obtain ⟨hserver, hsprite, hal⟩ := Screen.feedAll_buttons w.screen hbuttons
  refine ⟨es ++ releases w.s, by rw [hlog, List.append_assoc], ?_, hserver, hsprite⟩
  rw [hal, ne_eq, List.append_eq_nil_iff, releases_eq_nil, Pointed.Synced]
  refine and_congr_right fun _ => ⟨fun h hsome => h ?_, fun h hsome => h ?_⟩
  · rintro ⟨hes, hg, hd⟩
    rcases hsome with hg' | hd' | hes'
    · simp [hg] at hg'
    · simp [hd] at hd'
    · exact absurd hes hes'
  · by_contra hnone
    rw [not_or, not_or, Bool.not_eq_true, Bool.not_eq_true, ne_eq, not_not] at hnone
    exact hsome ⟨hnone.2.2, hnone.1, hnone.2.1⟩

/-- In TOUCH mode the sprite and the pointer go to the finger before any button. -/
theorem lands_directHandle {v : Viewport} {e : TouchEvent F} {w : Pointed F} {t : State F}
    (h : directHandle v e w.s = some t) :
    Lands w t True fun p => e.action = .down ∨ e.action = .move ∨ e.action.ends = true →
      w.Synced → p.server = p.sprite := by
  obtain ⟨fb, -, rfl⟩ := Option.map_eq_some_iff.mp h
  rcases fb with _ | ⟨x, y⟩
  · exact lands_nothing rfl trivial fun _ hsync => hsync
  rcases ha : e.action
  case down => exact ⟨[.sendPointer x y left (some true), .updateCursor x y], rfl,
    by simp [Screen.feed], fun _ _ => rfl⟩
  case move => exact ⟨[.sendPointer x y left none, .updateCursor x y], rfl,
    by simp [Screen.feed], fun _ _ => rfl⟩
  case up => exact ⟨[.sendPointer x y left (some false), .updateCursor x y], rfl,
    by simp [Screen.feed], fun _ _ => rfl⟩
  case cancel => exact ⟨[.sendPointer x y left (some false), .updateCursor x y], rfl,
    by simp [Screen.feed], fun _ _ => rfl⟩
  all_goals exact ⟨[.updateCursor x y], rfl, by simp [Screen.feed], by simp [TouchAction.ends]⟩

omit [FloatOps F] in
/-- Buttons after a motion to the cursor. -/
theorem lands_at_cursor {w : Pointed F} {t : State F} {l : List SinkEvent}
    (hlog : t.log = l ++ .sendPointer w.s.cursorX w.s.cursorY left none :: w.s.log)
    (hx : t.cursorX = w.s.cursorX) (hy : t.cursorY = w.s.cursorY)
    (hbuttons : ∀ e ∈ l, ∃ b pressed, e = .sendButton b pressed) (hes : l ≠ []) :
    Lands w t w.AtCursor (FollowsCursor w t) := by
  obtain ⟨hserver, hsprite, hal⟩ := Screen.feedAll_buttons
    (w.screen.feed (.sendPointer w.s.cursorX w.s.cursorY left none)) hbuttons
  have hfeed : w.screen.feedAll (l ++ [.sendPointer w.s.cursorX w.s.cursorY left none]) =
      (w.screen.feed (.sendPointer w.s.cursorX w.s.cursorY left none)).feedAll l :=
    Screen.feedAll_append ..
  refine ⟨l ++ [.sendPointer w.s.cursorX w.s.cursorY left none], by simpa using hlog, ?_, ?_⟩
  · rw [hfeed, hal]
    exact and_congr_right fun _ => ⟨fun h => (h hes).symm, fun h _ => h.symm⟩
  · intro _ hcursor
    rw [hfeed, hserver, hsprite, hx, hy]
    exact ⟨rfl, hcursor⟩

theorem lands_mouseDown (cfg : TouchpadConfig F) (e : TouchEvent F) (w : Pointed F) :
    Lands w (mouseDown cfg e w.s) (grabsAtOnce cfg e w.s = true → w.AtCursor)
      (FollowsCursor w (mouseDown cfg e w.s)) := by
  let s : State F := { w.s with
    downX := e.x, downY := e.y, slopAnchorX := e.x, slopAnchorY := e.y, downTime := e.timeMs,
    dragged := false, grabbing := false, rightClicked := false }
  have hclose : closeToLastTap cfg e s = closeToLastTap cfg e w.s := rfl
  rcases hnear : closeToLastTap cfg e w.s
  · -- far from the last tap: the count is cleared and nothing grabs
    have hdown : mouseDown cfg e w.s = grabOrSchedule cfg { s with recentTapCount := 0 } := by
      rw [mouseDown]
      exact congrArg _ (if_neg (by rw [hclose, hnear]; simp))
    have harms : grabOrSchedule cfg { s with recentTapCount := 0 } =
        scheduleLongPress cfg { s with recentTapCount := 0 } := by
      rw [grabOrSchedule]
      split
      · exact if_neg (by simp)
      · rfl
      · rfl
    rw [hdown, harms]
    exact lands_nothing rfl (by simp [grabsAtOnce, hnear]) (followsCursor_same rfl rfl)
  · have hdown : mouseDown cfg e w.s = grabOrSchedule cfg s := by
      rw [mouseDown]
      exact congrArg _ (if_pos (by rw [hclose, hnear]))
    have hcount : 1 ≤ s.recentTapCount := by
      rw [closeToLastTap, Bool.and_eq_true, Bool.and_eq_true, decide_eq_true_iff] at hnear
      exact hnear.1.1
    rw [hdown, grabOrSchedule]
    split
    next hhold =>
      rw [if_pos hcount]
      refine Lands.congr (lands_at_cursor (l := [.sendButton left true]) rfl rfl rfl
        (fun e he => ⟨left, true, List.mem_singleton.mp he⟩) (by simp)) ?_ fun _ h => h
      simp [grabsAtOnce, hhold, hnear]
    next hhold =>
      exact lands_nothing rfl (by simp [grabsAtOnce, hhold]) (followsCursor_same rfl rfl)
    next hhold =>
      exact lands_nothing rfl (by simp [grabsAtOnce, hhold]) (followsCursor_same rfl rfl)

theorem lands_movePointer {v : Viewport} {e : TouchEvent F} {w : Pointed F} {s t : State F}
    (hlog : s.log = w.s.log) (hx : s.cursorX = w.s.cursorX) (hy : s.cursorY = w.s.cursorY)
    (h : movePointer v e s = some t) : Lands w t True (FollowsCursor w t) := by
  rw [movePointer_eq] at h
  obtain ⟨⟨nx, ny⟩, -, rfl⟩ := Option.map_eq_some_iff.mp h
  split
  · refine ⟨[.sendPointer nx ny left none, .updateCursor nx ny], ?_, by simp [Screen.feed],
      fun _ _ => ⟨rfl, rfl⟩⟩
    rw [← hlog]
    rfl
  · exact lands_nothing hlog trivial (followsCursor_same hx hy)

theorem lands_mouseMove {v : Viewport} {cfg : TouchpadConfig F} {e : TouchEvent F}
    {w : Pointed F} {t : State F} (h : mouseMove v cfg e w.s = some t) :
    Lands w t True (FollowsCursor w t) := by
  obtain ⟨u, hmove, rfl⟩ := Option.map_eq_some_iff.mp h
  have hu : Lands w u True (FollowsCursor w u) := by
    split at hmove
    · exact lands_movePointer (s := { cancelLongPress { w.s with dragged := true } with
        recentTapCount := 0 }) rfl rfl rfl hmove
    · exact lands_movePointer rfl rfl rfl hmove
  exact hu.of_log rfl

omit [FloatOps F] in
/-- A release where the server's pointer is. -/
theorem lands_release {w : Pointed F} {t : State F} (hg : w.s.grabbing = true)
    (hlog : t.log = .sendButton left false :: w.s.log) (hx : t.cursorX = w.s.cursorX)
    (hy : t.cursorY = w.s.cursorY) :
    Lands w t (w.s.grabbing = true → w.Synced) (FollowsCursor w t) := by
  refine ⟨[.sendButton left false], hlog, ?_, followsCursor_same hx hy⟩
  simp [Screen.feed, Pointed.Synced, hg]

omit [FloatOps F] in
theorem lands_releaseOrClick (e : TouchEvent F) (w : Pointed F) :
    Lands w (releaseOrClick e w.s) (w.s.grabbing = true → w.Synced)
      (FollowsCursor w (releaseOrClick e w.s)) := by
  rw [releaseOrClick_eq]
  split
  next hg => exact lands_release hg rfl rfl rfl
  next hg =>
    have hnothing : w.s.grabbing = true → w.Synced := fun hg' => absurd hg' hg
    split
    · exact lands_nothing rfl hnothing (followsCursor_same rfl rfl)
    split
    · refine ⟨[.sendPointer w.s.cursorX w.s.cursorY left (some false),
        .sendPointer w.s.cursorX w.s.cursorY left (some true),
        .sendPointer w.s.cursorX w.s.cursorY left none,
        .updateCursor w.s.cursorX w.s.cursorY], rfl, ?_, ?_⟩
      · simp [Screen.feed, hg]
      · intro _ _
        simp only [Screen.feedAll_cons, Screen.feedAll_nil, Screen.feed,
          Screen.button_server, Screen.button_sprite, and_self]
    · exact lands_nothing rfl hnothing (followsCursor_same rfl rfl)

omit [FloatOps F] in
theorem lands_releaseGrab (w : Pointed F) :
    Lands w (releaseGrab (cancelLongPress w.s)) (w.s.grabbing = true → w.Synced)
      (FollowsCursor w (releaseGrab (cancelLongPress w.s))) := by
  rw [releaseGrab]
  split
  next hg => exact lands_release hg rfl rfl rfl
  next hg => exact lands_nothing rfl (fun hg' => absurd hg' hg) (followsCursor_same rfl rfl)

theorem lands_mouseHandle {v : Viewport} {cfg : TouchpadConfig F} {e : TouchEvent F}
    {w : Pointed F} {t : State F} (hlaid : v.laidOut = true)
    (h : mouseHandle v cfg e w.s = some t) :
    Lands w t ((e.action = .down → grabsAtOnce cfg e w.s = true → w.AtCursor) ∧
      (e.action.ends = true → w.s.grabbing = true → w.Synced)) (FollowsCursor w t) := by
  rw [mouseHandle, hlaid, if_neg (by simp)] at h
  rcases ha : e.action <;> simp only [ha] at h
  case down =>
    obtain rfl := Option.some_inj.mp h
    exact (lands_mouseDown cfg e w).congr (by simp [TouchAction.ends]) fun _ h => h
  case move => exact (lands_mouseMove h).congr (by simp [TouchAction.ends]) fun _ h => h
  case up =>
    obtain rfl := Option.some_inj.mp h
    have hland : Lands w (mouseUp e w.s) (w.s.grabbing = true → w.Synced)
        (FollowsCursor w (mouseUp e w.s)) :=
      (lands_releaseOrClick e { w with s := cancelLongPress w.s }).of_log rfl
    exact hland.congr (by simp [TouchAction.ends]) fun _ h => h
  case cancel =>
    obtain rfl := Option.some_inj.mp h
    have hland := (lands_releaseGrab w).of_log
      (u := { releaseGrab (cancelLongPress w.s) with dragged := false, recentTapCount := 0 }) rfl
    exact hland.congr (by simp [TouchAction.ends]) fun _ h => h
  all_goals
    obtain rfl := Option.some_inj.mp h
    exact lands_nothing rfl (by simp [TouchAction.ends]) (followsCursor_same rfl rfl)

omit [FloatOps F] in
/-- A long press puts the pointer at the cursor first. -/
theorem lands_fireLongPress (hold : HoldAction) (w : Pointed F) :
    Lands w (fireLongPress hold { w.s with longPress := none })
      ((!w.s.dragged && !w.s.grabbing && !w.s.rightClicked) = true → w.AtCursor)
      (FollowsCursor w (fireLongPress hold { w.s with longPress := none })) := by
  rw [fireLongPress_eq]
  split
  next hidle =>
    change (!w.s.dragged && !w.s.grabbing && !w.s.rightClicked) = true at hidle
    split
    · exact Lands.congr (lands_at_cursor (l := [.sendButton left true]) rfl rfl rfl
        (fun e he => ⟨left, true, List.mem_singleton.mp he⟩) (by simp)) (by simp [hidle])
        fun _ h => h
    · exact Lands.congr (lands_at_cursor (l := [.sendButton right false, .sendButton right true])
        rfl rfl rfl (by simp) (by simp)) (by simp [hidle]) fun _ h => h
  next hbusy =>
    exact lands_nothing rfl (fun hidle => absurd hidle hbusy) (followsCursor_same rfl rfl)

omit [FloatOps F] in
theorem lands_fireTwoFingerHold (w : Pointed F) :
    Lands w (fireTwoFingerHold { w.s with twoFingerHold := false }) w.AtCursor
      (FollowsCursor w (fireTwoFingerHold { w.s with twoFingerHold := false })) := by
  rw [fireTwoFingerHold_eq]
  exact lands_at_cursor (w := w) (l := [.sendButton right false, .sendButton right true]) rfl rfl
    rfl (by simp) (by simp)

theorem turnsWheel_dropPress (cfg : TouchpadConfig F) (e : TouchEvent F)
    (s : State F) : turnsWheel cfg e (dropPress s) = turnsWheel cfg e s := by
  rw [dropPress_eq]
  rfl

/-- A sample of one finger that TOUCH mode knows. -/
def TouchEvent.Known (e : TouchEvent F) : Prop :=
  e.pointerCount < 2 → e.action = .down ∨ e.action = .move ∨ e.action.ends = true

/-- Sprite and pointer stay together over a touch sample; in MOUSE mode with the cursor. -/
def StaysTogether (w : Pointed F) (e : TouchEvent F) (t : State F) (p : Screen) : Prop :=
  (w.s.mouseMode = true → FollowsCursor w t p) ∧
    (w.s.mouseMode = false → e.Known → w.Synced → p.server = p.sprite)

omit [FloatOps F] in
theorem staysTogether_same {w : Pointed F} {e : TouchEvent F} {t : State F} {p : Screen}
    (hserver : p.server = w.screen.server) (hsprite : p.sprite = w.screen.sprite)
    (hx : t.cursorX = w.s.cursorX) (hy : t.cursorY = w.s.cursorY) : StaysTogether w e t p := by
  refine ⟨fun _ hsync hcursor => ?_, fun _ _ hsync => hserver.trans (hsync.trans hsprite.symm)⟩
  rw [hserver, hsprite, hx, hy, hsync]
  exact ⟨hcursor, hcursor⟩

theorem lands_onTouch {v : Viewport} {cfg : TouchpadConfig F} {fuel : ℕ} {e : TouchEvent F}
    {w : Pointed F} {t : State F} (h : onTouch v cfg fuel e w.s = some t) :
    Lands w t (FindsCursor w (.act (.touch e v cfg fuel))) (StaysTogether w e t) := by
  rw [onTouch] at h
  simp only [FindsCursor]
  split at h
  next htwo =>
    rw [if_pos htwo]
    obtain ⟨es, hscrolled, hes⟩ := scrolled_scrollHandle h
    have hx := hscrolled.cursorX
    have hy := hscrolled.cursorY
    rw [dropPress_eq] at hx hy
    refine (lands_dropPress hscrolled.log hscrolled.wheels).congr ?_
      fun p hp => staysTogether_same hp.1 hp.2 hx hy
    rw [ne_eq, hes, turnsWheel_dropPress, Bool.not_eq_false]
  next htwo =>
    rw [if_neg htwo]
    split at h
    next hscroll =>
      obtain rfl := Option.some_inj.mp h
      have hignored : ¬ (w.s.scrolling = false ∧ w.s.mouseMode = true ∧ v.laidOut = true) := by
        simp [hscroll]
      rw [if_neg hignored]
      split
      · exact lands_nothing rfl trivial (staysTogether_same rfl rfl rfl rfl)
      · exact lands_nothing rfl trivial (staysTogether_same rfl rfl rfl rfl)
    next hscroll =>
      rw [Bool.not_eq_true] at hscroll
      split at h
      next hmode =>
        rcases hlaid : v.laidOut
        · rw [if_neg (by simp), mouse_dropped hlaid h]
          exact lands_nothing rfl trivial (staysTogether_same rfl rfl rfl rfl)
        · rw [if_pos ⟨hscroll, hmode, rfl⟩]
          exact (lands_mouseHandle hlaid h).congr Iff.rfl
            fun p hp => ⟨fun _ => hp, fun hm => absurd (hmode.symm.trans hm) (by simp)⟩
      next hmode =>
        rw [if_neg (by simp [hmode])]
        exact (lands_directHandle h).congr Iff.rfl
          fun p hp => ⟨fun hm => absurd hm hmode,
            fun _ hknown => hp (hknown (Nat.lt_of_not_le htwo))⟩

/-! ### The steps -/

omit [FloatOps F] in
theorem Lands.aligned_iff {w : Pointed F} {t : State F} {ok : Prop} {keeps : Screen → Prop}
    (h : Lands w t ok keeps) (hw : Aligned w) :
    Aligned ⟨t, w.screen.feedAll (sent w.s t)⟩ ↔ ok := by
  obtain ⟨es, hlog, hes, -⟩ := h
  rw [Aligned, sent_eq hlog, hes]
  exact and_iff_right hw

omit [FloatOps F] in
theorem Lands.keeps {w : Pointed F} {t : State F} {ok : Prop} {keeps : Screen → Prop}
    (h : Lands w t ok keeps) : keeps (w.screen.feedAll (sent w.s t)) := by
  obtain ⟨es, hlog, -, hkeeps⟩ := h
  rwa [sent_eq hlog]

/-- Every button of the step lands under the sprite exactly if the condition holds. -/
theorem point_step {w w' : Pointed F} {a : ScreenAction F} (h : Aligned w)
    (hstep : point w a = some w') : FindsCursor w a ↔ Aligned w' := by
  rcases a with _ | a
  · rw [← Option.some_inj.mp hstep]
    exact ⟨fun _ => h, fun _ => trivial⟩
  obtain ⟨s', hs', rfl⟩ := Option.map_eq_some_iff.mp hstep
  cases a with
  | touch e v cfg fuel =>
    simp only [step] at hs'
    split at hs' <;> [skip; simp at hs']
    obtain ⟨t, ht, rfl⟩ := Option.map_eq_some_iff.mp hs'
    exact (((lands_onTouch ht).of_log (u := { t with touching := !e.action.ends }) rfl).aligned_iff
      h).symm
  | longPress =>
    obtain ⟨hold, harmed, rfl⟩ := Option.map_eq_some_iff.mp hs'
    simp only [FindsCursor, harmed, Option.isSome_some, true_imp_iff]
    exact ((lands_fireLongPress hold w).aligned_iff h).symm
  | twoFingerHold =>
    simp only [step] at hs'
    split at hs' <;> [skip; simp at hs']
    next hhold =>
      rw [← Option.some_inj.mp hs']
      simp only [FindsCursor, hhold, true_imp_iff]
      exact ((lands_fireTwoFingerHold w).aligned_iff h).symm
  | setMode m =>
    rw [← Option.some_inj.mp hs']
    have hland : Lands w { w.s with mouseMode := m } True (fun _ => True) :=
      lands_nothing rfl trivial trivial
    exact (hland.aligned_iff h).symm
  | setCursor x y =>
    rw [← Option.some_inj.mp hs']
    have hland : Lands w (setCursor x y w.s) True (fun _ => True) :=
      ⟨[.updateCursor x y], rfl, by simp [Screen.feed], trivial⟩
    exact (hland.aligned_iff h).symm

/-! ### Where the two positions part -/

/-- Nothing parts the sprite, the pointer and the cursor: a connection opens with the sprite
in the corner, the cursor is placed where the pointer is, MOUSE mode is entered with the
cursor at the sprite and left with no timer armed, and TOUCH mode knows the samples. -/
def KeepsTogether (w : Pointed F) : ScreenAction F → Prop
  | .connect => w.screen.sprite = (0, 0)
  | .act (.touch e _ _ _) => w.s.mouseMode = false → e.Known
  | .act (.setCursor x y) => w.screen.server = (x, y)
  | .act (.setMode true) => w.AtCursor
  | .act (.setMode false) => w.s.longPress = none ∧ w.s.twoFingerHold = false
  | _ => True

/-- Sprite and pointer are together, in MOUSE mode also the cursor; in TOUCH mode, where the
cursor stays behind, no timer is armed. -/
structure Together (w : Pointed F) : Prop where
  synced : w.Synced
  mouse : w.s.mouseMode = true → w.AtCursor
  touch : w.s.mouseMode = false → w.s.longPress = none ∧ w.s.twoFingerHold = false

theorem mouseMode_mouseHandle {v : Viewport} {cfg : TouchpadConfig F} {e : TouchEvent F}
    {s t : State F} (h : mouseHandle v cfg e s = some t) : t.mouseMode = s.mouseMode := by
  rw [mouseHandle] at h
  split at h
  · rw [← Option.some_inj.mp h]
  rcases ha : e.action <;> simp only [ha] at h
  case down =>
    rw [← Option.some_inj.mp h]
    rcases view_mouseDown cfg e s with hview | hview
    · exact congrArg View.mouseMode hview
    · exact congrArg View.mouseMode hview
  case move =>
    obtain ⟨longPress, hview⟩ := view_mouseMove h
    exact congrArg View.mouseMode hview
  case up =>
    rw [← Option.some_inj.mp h, mouseUp, releaseOrClick_eq]
    split
    · rfl
    split
    · rfl
    split <;> rfl
  case cancel =>
    rw [← Option.some_inj.mp h, releaseGrab]
    split <;> rfl
  all_goals rw [← Option.some_inj.mp h]

/-- What a touch sample leaves as it is. -/
theorem onTouch_mode {v : Viewport} {cfg : TouchpadConfig F} {fuel : ℕ} {e : TouchEvent F}
    {s t : State F} (h : onTouch v cfg fuel e s = some t) :
    t.mouseMode = s.mouseMode ∧ (s.mouseMode = false → s.longPress = none →
      s.twoFingerHold = false → t.longPress = none ∧ t.twoFingerHold = false) := by
  rw [onTouch] at h
  split at h
  · obtain ⟨es, hscrolled, -⟩ := scrolled_scrollHandle h
    have hmode := hscrolled.mouseMode
    have hlong := hscrolled.longPress
    have htouch := hscrolled.touch
    rw [dropPress_eq] at hmode hlong htouch
    exact ⟨hmode, fun hm _ hh => ⟨hlong, htouch hm hh⟩⟩
  split at h
  · rw [← Option.some_inj.mp h]
    split
    · exact ⟨rfl, fun _ hl hh => ⟨hl, hh⟩⟩
    · exact ⟨rfl, fun _ hl hh => ⟨hl, hh⟩⟩
  split at h
  next hm => exact ⟨mouseMode_mouseHandle h, fun hm' => absurd (hm.symm.trans hm') (by simp)⟩
  · have hview := view_directHandle h
    have hhold : t.twoFingerHold = s.twoFingerHold := congrArg TwoFinger.hold (two_directHandle h)
    have hsame : t.mouseMode = s.mouseMode ∧ t.longPress = s.longPress := by
      split at hview
      · split at hview
        all_goals exact ⟨congrArg View.mouseMode hview, congrArg View.longPress hview⟩
      · exact ⟨congrArg View.mouseMode hview, congrArg View.longPress hview⟩
    exact ⟨hsame.1, fun _ hl hh => ⟨hsame.2.trans hl, hhold.trans hh⟩⟩

omit [FloatOps F] in
/-- A step that follows the cursor, in MOUSE mode. -/
theorem Together.of_follows {w : Pointed F} {t : State F} {p : Screen} (h : Together w)
    (hm : w.s.mouseMode = true) (hmode : t.mouseMode = w.s.mouseMode)
    (hfollows : FollowsCursor w t p) : Together ⟨t, p⟩ := by
  obtain ⟨hserver, hsprite⟩ := hfollows h.synced (h.mouse hm)
  exact ⟨hserver.trans hsprite.symm, fun _ => hsprite,
    fun ht => absurd ((hmode.trans hm).symm.trans ht) (by simp)⟩

omit [FloatOps F] in
theorem mouseMode_fireLongPress (hold : HoldAction) (s : State F) :
    (fireLongPress hold s).mouseMode = s.mouseMode := by
  rw [fireLongPress_eq]
  split
  · split <;> rfl
  · rfl

theorem together_step {w w' : Pointed F} {a : ScreenAction F} (h : Together w)
    (hok : KeepsTogether w a) (hstep : point w a = some w') : Together w' := by
  rcases a with _ | a
  · rw [← Option.some_inj.mp hstep]
    exact ⟨(show w.screen.sprite = (0, 0) from hok).symm, h.mouse, h.touch⟩
  obtain ⟨s', hs', rfl⟩ := Option.map_eq_some_iff.mp hstep
  cases a with
  | touch e v cfg fuel =>
    simp only [step] at hs'
    split at hs' <;> [skip; simp at hs']
    obtain ⟨t, ht, rfl⟩ := Option.map_eq_some_iff.mp hs'
    obtain ⟨hmode, htouch⟩ := onTouch_mode ht
    obtain ⟨hmouse, hdirect⟩ :=
      ((lands_onTouch ht).of_log (u := { t with touching := !e.action.ends }) rfl).keeps
    by_cases hm : w.s.mouseMode = true
    · exact h.of_follows hm hmode (hmouse hm)
    · -- the view's own position is of MOUSE mode only
      rw [Bool.not_eq_true] at hm
      refine ⟨hdirect hm (hok hm) h.synced, fun ht' => ?_, fun _ => ?_⟩
      · exact absurd ((hmode.trans hm).symm.trans ht') (by simp)
      · exact htouch hm (h.touch hm).1 (h.touch hm).2
  | longPress =>
    obtain ⟨hold, harmed, rfl⟩ := Option.map_eq_some_iff.mp hs'
    by_cases hm : w.s.mouseMode = true
    · exact h.of_follows hm (mouseMode_fireLongPress hold _) (lands_fireLongPress hold w).keeps
    · -- no timer is armed in DIRECT mode
      rw [(h.touch (Bool.eq_false_of_not_eq_true hm)).1] at harmed
      simp at harmed
  | twoFingerHold =>
    simp only [step] at hs'
    split at hs' <;> [skip; simp at hs']
    next hhold =>
      rw [← Option.some_inj.mp hs']
      by_cases hm : w.s.mouseMode = true
      · have hmode : (fireTwoFingerHold { w.s with twoFingerHold := false }).mouseMode =
            w.s.mouseMode := by rw [fireTwoFingerHold_eq]
        exact h.of_follows hm hmode (lands_fireTwoFingerHold w).keeps
      · rw [(h.touch (Bool.eq_false_of_not_eq_true hm)).2] at hhold
        simp at hhold
  | setMode m =>
    rw [← Option.some_inj.mp hs', sent_eq (t := { w.s with mouseMode := m }) (l := []) rfl]
    cases m with
    | true => exact ⟨h.synced, fun _ => hok, fun ht => by simp at ht⟩
    | false => exact ⟨h.synced, fun ht => by simp at ht, fun _ => hok⟩
  | setCursor x y =>
    rw [← Option.some_inj.mp hs', sent_eq (s := w.s) (l := [.updateCursor x y]) rfl]
    exact ⟨hok, fun _ => rfl, h.touch⟩

/-- Where the positions are together, every button finds the cursor. -/
theorem Together.findsCursor {w : Pointed F} (h : Together w) (a : ScreenAction F) :
    FindsCursor w a := by
  rcases a with _ | a
  · trivial
  cases a with
  | touch e v cfg fuel =>
    simp only [FindsCursor]
    split
    · exact fun _ => h.synced
    split
    next hm => exact ⟨fun _ _ => h.mouse hm.2.1, fun _ _ => h.synced⟩
    · trivial
  | longPress =>
    intro harmed _
    by_cases hm : w.s.mouseMode = true
    · exact h.mouse hm
    · rw [(h.touch (Bool.eq_false_of_not_eq_true hm)).1] at harmed
      simp at harmed
  | twoFingerHold =>
    intro hhold
    by_cases hm : w.s.mouseMode = true
    · exact h.mouse hm
    · rw [(h.touch (Bool.eq_false_of_not_eq_true hm)).2] at hhold
      simp at hhold
  | setMode m => trivial
  | setCursor x y => trivial

/-! ### When clicks land under the cursor -/

def pointed (mouseMode : Bool) : Pointed F := { s := initial mouseMode }

/-- Throughout a run every button lands under the sprite if and only if each one that is
sent without a motion finds the server's pointer there, and each one that is sent after a
motion to the cursor finds the sprite at the cursor; so they do where no connection, no
placing of the cursor and no switch of the mode parts the three. -/
theorem clicks_under_cursor_iff (mouseMode : Bool) (as : List (ScreenAction F)) (w : Pointed F)
    (hrun : run point (pointed mouseMode) as = some w) :
    (Always point Aligned (pointed mouseMode) as ↔
        Meets point FindsCursor (pointed mouseMode) as) ∧
      (Meets point KeepsTogether (pointed mouseMode) as →
        Meets point FindsCursor (pointed mouseMode) as) := by
  constructor
  · exact always_iff_meets (fun _ h => h) (fun _ _ _ h hstep => point_step h hstep)
      (fun _ _ _ h hok hstep => (point_step h hstep).mp hok) rfl hrun
  · refine Meets.of_invariant (fun _ _ _ => together_step) (fun _ a h _ => h.findsCursor a) ?_
    exact ⟨rfl, fun _ => rfl, fun _ => ⟨rfl, rfl⟩⟩

end

/-! ### A wheel on a fresh connection -/

/-- A connection opens, the cursor is placed in the middle, and two fingers scroll. -/
def scrollFirst : List (ScreenAction ℚ) :=
  [.connect, .act (.setCursor 500 500), .act (finger .down 200 200),
   .act (fingers .pointerDown 200 200), .act (fingers .move 200 260)]

/-- A connection opens, the cursor is placed in the middle, and one finger taps. -/
def tapFirst : List (ScreenAction ℚ) :=
  [.connect, .act (.setCursor 500 500), .act (finger .down 200 200), .act (finger .up 200 200)]

/-- `scrollFirst` turns the wheel in the corner, away from the sprite. -/
theorem scrollFirst_not_aligned :
    ∃ w, run point (pointed true) scrollFirst = some w ∧ ¬ Aligned w := by
  have heval : (run point (pointed true) scrollFirst).map (fun w => w.screen) =
      some ⟨(0, 0), (500, 500), false⟩ := by decide +kernel
  obtain ⟨w, hrun, hw⟩ := Option.map_eq_some_iff.mp heval
  exact ⟨w, hrun, by rw [Aligned, hw]; simp⟩

/-- `tapFirst` clicks under the sprite. -/
theorem tapFirst_aligned : Always point Aligned (pointed true) tapFirst := by
  have heval : (run point (pointed true) tapFirst).isSome = true := by decide +kernel
  obtain ⟨w, hrun⟩ := Option.isSome_iff_exists.mp heval
  exact (clicks_under_cursor_iff true tapFirst w hrun).1.mpr (by decide +kernel)

end Touchpad
