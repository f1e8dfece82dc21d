/-
The rest of a gesture once a second finger has been down.

The handlers ignore the remaining finger while `scrolling` is set, and the first finger that
lifts clears it.  `Watched` keeps beside the state what one-finger handling has sent since
the second finger landed.

* `TailIgnored` — nothing but the release of a button held when it landed;
* `tail_ignored_iff` — the runs in which it is so throughout.
-/
import KaliGui.Touchpad.Effects
import KaliGui.Touchpad.LeftButton

namespace Touchpad

open Machine

variable {F : Type*}

/-! ### What is watched -/

/-- The button after the events sent, the newest first. -/
def leftDown : List SinkEvent → Bool
  | [] => false
  | e :: log => (leftEvent e).getD (leftDown log)

/-- An event that moves the cursor, or the pointer away from it. -/
def moves (s : State F) : SinkEvent → Bool
  | .updateCursor _ _ => true
  | .sendPointer x y _ _ => decide ((x, y) ≠ (s.cursorX, s.cursorY))
  | .sendButton _ _ => false

/-- What only one finger should cause: the left button's events and movement. -/
def singleFinger (s : State F) (e : SinkEvent) : Bool := (leftEvent e).isSome || moves s e

structure Watched (F : Type*) where
  s : State F
  /-- two fingers have been down since the last `DOWN` -/
  two : Bool := false
  /-- the left button was held when the second one landed -/
  held : Bool := false
  /-- what one finger has caused since, the newest first -/
  effects : List SinkEvent := []

/-- Since a second finger landed nothing was sent for one finger, but the release of a
button that was held then. -/
def TailIgnored (w : Watched F) : Prop :=
  w.effects = [] ∨ w.held = true ∧ w.effects = [.sendButton left false]

/-- The effects of a step within the gesture. -/
def Watched.goOn (w : Watched F) (s' : State F) : Watched F :=
  if w.two then { w with
    s := s', effects := (sent w.s s').filter (singleFinger w.s) ++ w.effects }
  else { w with s := s' }

/-- A second finger lands. -/
def Watched.land (w : Watched F) (s' : State F) : Watched F :=
  ⟨s', true, leftDown w.s.log, (sent w.s s').filter (singleFinger w.s)⟩

section

variable [FloatOps F]

/-- `step`, watched. -/
def watch (w : Watched F) (a : Action F) : Option (Watched F) :=
  (step w.s a).map fun s' =>
    match a with
    | .touch e _ _ _ =>
      if e.action = .down then if 2 ≤ e.pointerCount then w.land s' else ⟨s', false, false, []⟩
      else if 2 ≤ e.pointerCount ∧ w.two = false then w.land s'
      else w.goOn s'
    | .longPress | .twoFingerHold => w.goOn s'
    | .setMode _ | .setCursor _ _ => { w with s := s' }

def watched (mouseMode : Bool) : Watched F := { s := initial mouseMode }

/-! ### The condition on the steps -/

/-- A sample of one finger for which its handler has nothing to do.  In MOUSE mode: nothing
is laid out, or it is an `UP` after a drag or a right click, or a `MOVE` that leaves the
cursor where it is, or another action; in TOUCH mode: it is outside the image. -/
def Inert (v : Viewport) (e : TouchEvent F) (s : State F) : Prop :=
  if s.mouseMode then
    v.laidOut = true →
      (e.action = .up → s.rightClicked = true ∨ s.dragged = true) ∧
      (e.action = .move → pointerTarget v e s = some (s.cursorX, s.cursorY))
  else v.inside e.x e.y = false

/-- A second finger lands on at most one press, and that one holds the button. -/
def LandsOnce (s : State F) : Prop :=
  (s.grabbing = true → s.directPressed = false) ∧
    (s.grabbing = true ∨ s.directPressed = true → leftDown s.log = true)

instance (v : Viewport) (e : TouchEvent F) (s : State F) : Decidable (Inert v e s) :=
  inferInstanceAs (Decidable (if s.mouseMode = true then _ else _))

instance (s : State F) : Decidable (LandsOnce s) := inferInstanceAs (Decidable (_ ∧ _))

/-- The second finger lands on at most one press; and where one finger is left, outside the
time in which it is ignored, it does nothing its handler would act on. -/
def TailInert (w : Watched F) : Action F → Prop
  | .touch e v _ _ =>
    if 2 ≤ e.pointerCount then e.action ≠ .down ∧ w.two = true ∨ LandsOnce w.s
    else e.action ≠ .down → w.two = true → w.s.scrolling = false → Inert v e w.s
  | _ => True

instance (w : Watched F) : ∀ a, Decidable (TailInert w a)
  | .touch e _ _ _ =>
    inferInstanceAs (Decidable (if 2 ≤ e.pointerCount then _ ∨ LandsOnce w.s else _ → _))
  | .longPress => isTrue trivial
  | .twoFingerHold => isTrue trivial
  | .setMode _ => isTrue trivial
  | .setCursor _ _ => isTrue trivial

end

/-! ### What is sent -/

theorem singleFinger_of_wheel {e : SinkEvent} (h : IsWheel e) (s : State F) :
    singleFinger s e = false := by
  obtain ⟨up, p, rfl⟩ := h
  cases up <;> rfl

theorem filter_wheels {es : List SinkEvent} (h : ∀ e ∈ es, IsWheel e) (s : State F) :
    es.filter (singleFinger s) = [] :=
  List.filter_eq_nil_iff.mpr fun e he => by simp [singleFinger_of_wheel (h e he) s]

theorem filter_releases (s t : State F) :
    (releases s).filter (singleFinger t) = releases s := by
  refine List.filter_eq_self.mpr fun e he => ?_
  rw [eq_of_mem_releases he]
  rfl

/-- What landing sends for one finger is as it should be exactly if it lands on at most one
press. -/
theorem landsOnce_iff (s : State F) :
    LandsOnce s ↔
      releases s = [] ∨ leftDown s.log = true ∧ releases s = [.sendButton left false] := by
  simp only [LandsOnce, releases]
  rcases s.grabbing <;> rcases s.directPressed <;> simp

/-- What one finger sent is either nothing or has moved the cursor. -/
def MovesOrNothing (es : List SinkEvent) : Prop := es = [] ∨ ∃ x y, .updateCursor x y ∈ es

/-- After a movement the tail is no longer ignored. -/
theorem not_tailIgnored_of_moves {es fs : List SinkEvent} {s : State F} {w : Watched F}
    (hmoves : ∃ x y, .updateCursor x y ∈ es)
    (hw : w.effects = es.filter (singleFinger s) ++ fs) : ¬ TailIgnored w := by
  obtain ⟨x, y, hmem⟩ := hmoves
  have hkept : .updateCursor x y ∈ w.effects := by
    rw [hw]
    exact List.mem_append_left _ (List.mem_filter.mpr ⟨hmem, rfl⟩)
  rintro (h | ⟨-, h⟩)
  · rw [h] at hkept
    exact absurd hkept List.not_mem_nil
  · rw [h, List.mem_singleton] at hkept
    simp at hkept

/-! ### One finger that is left -/

/-- No press is under way and no long press armed. -/
structure Clear (s : State F) : Prop where
  grabbing : s.grabbing = false
  directPressed : s.directPressed = false
  longPress : s.longPress = none

theorem clear_dropPress (s : State F) : Clear (dropPress s) := by
  rw [dropPress_eq]
  exact ⟨rfl, rfl, rfl⟩

theorem Clear.mouseUp {s : State F} (h : Clear s) (e : TouchEvent F) : Clear (mouseUp e s) := by
  rw [Touchpad.mouseUp, releaseOrClick_eq]
  split
  next hg => exact absurd (h.grabbing.symm.trans hg) (by simp)
  split
  · exact ⟨h.grabbing, h.directPressed, rfl⟩
  split
  · exact ⟨h.grabbing, h.directPressed, rfl⟩
  · exact ⟨h.grabbing, h.directPressed, rfl⟩

/-- The `UP` of one finger that holds nothing clicks, unless it is after a drag or a right
click. -/
theorem mouseUp_sent {s : State F} (h : Clear s) (e : TouchEvent F) :
    ∃ es, (mouseUp e s).log = es ++ s.log ∧ MovesOrNothing es ∧
      (es = [] ↔ s.rightClicked = true ∨ s.dragged = true) := by
  rw [mouseUp, releaseOrClick_eq]
  split
  next hg => exact absurd (h.grabbing.symm.trans hg) (by simp)
  split
  next hr => exact ⟨[], rfl, .inl rfl, by simpa using .inl hr⟩
  next hr =>
    split
    next hd =>
      refine ⟨[.sendPointer s.cursorX s.cursorY left (some false),
        .sendPointer s.cursorX s.cursorY left (some true),
        .sendPointer s.cursorX s.cursorY left none, .updateCursor s.cursorX s.cursorY],
        rfl, .inr ⟨s.cursorX, s.cursorY, by simp⟩, ?_⟩
      · rw [Bool.not_eq_true] at hr
        rw [Bool.not_eq_true'] at hd
        change s.rightClicked = false at hr
        change s.dragged = false at hd
        simp [hr, hd]
    next hd =>
      rw [Bool.not_eq_true, Bool.not_eq_false'] at hd
      change s.dragged = true at hd
      exact ⟨[], rfl, .inl rfl, by simp [hd]⟩

section

variable [FloatOps F]

/-- A `MOVE` of one finger moves the cursor, unless it stays. -/
theorem movePointer_sent {v : Viewport} {e : TouchEvent F} {s t : State F} (hs : Clear s)
    (h : movePointer v e s = some t) :
    Clear t ∧ ∃ es, t.log = es ++ s.log ∧ MovesOrNothing es ∧
      (es = [] ↔ pointerTarget v e s = some (s.cursorX, s.cursorY)) := by
  rw [movePointer_eq] at h
  obtain ⟨⟨nx, ny⟩, htarget, rfl⟩ := Option.map_eq_some_iff.mp h
  rw [htarget]
  split
  next hmoved =>
    refine ⟨⟨hs.grabbing, hs.directPressed, hs.longPress⟩,
      [.sendPointer nx ny left none, .updateCursor nx ny], rfl, .inr ⟨nx, ny, by simp⟩, ?_⟩
    constructor
    · exact fun h => absurd h (by simp)
    · intro hsame
      obtain ⟨rfl, rfl⟩ := Prod.mk.inj (Option.some_inj.mp hsame)
      simp at hmoved
  next hmoved =>
    have hx : nx = s.cursorX := by by_contra hne; exact hmoved (.inl hne)
    have hy : ny = s.cursorY := by by_contra hne; exact hmoved (.inr hne)
    exact ⟨hs, [], rfl, .inl rfl, by simp [hx, hy]⟩

theorem mouseMove_sent {v : Viewport} {cfg : TouchpadConfig F} {e : TouchEvent F} {s t : State F}
    (hs : Clear s) (h : mouseMove v cfg e s = some t) :
    Clear t ∧ ∃ es, t.log = es ++ s.log ∧ MovesOrNothing es ∧
      (es = [] ↔ pointerTarget v e s = some (s.cursorX, s.cursorY)) := by
  obtain ⟨u, hmove, rfl⟩ := Option.map_eq_some_iff.mp h
  split at hmove
  · obtain ⟨hu, hes⟩ := movePointer_sent (s := { cancelLongPress { s with dragged := true } with
      recentTapCount := 0 }) ⟨hs.grabbing, hs.directPressed, rfl⟩ hmove
    exact ⟨⟨hu.grabbing, hu.directPressed, hu.longPress⟩, hes⟩
  · obtain ⟨hu, hes⟩ := movePointer_sent hs hmove
    exact ⟨⟨hu.grabbing, hu.directPressed, hu.longPress⟩, hes⟩

theorem mouseHandle_sent {v : Viewport} {cfg : TouchpadConfig F} {e : TouchEvent F}
    {s t : State F} (hs : Clear s) (hdown : e.action ≠ .down)
    (h : mouseHandle v cfg e s = some t) :
    Clear t ∧ ∃ es, t.log = es ++ s.log ∧ MovesOrNothing es ∧
      (es = [] ↔ (v.laidOut = true →
        (e.action = .up → s.rightClicked = true ∨ s.dragged = true) ∧
        (e.action = .move → pointerTarget v e s = some (s.cursorX, s.cursorY)))) := by
  rw [mouseHandle] at h
  rcases hlaid : v.laidOut
  · rw [hlaid, if_pos (by simp)] at h
    obtain rfl := Option.some_inj.mp h
    exact ⟨hs, [], rfl, .inl rfl, by simp⟩
  · rw [hlaid, if_neg (by simp)] at h
    rcases ha : e.action <;> simp only [ha] at h hdown
    case down => simp at hdown
    case move =>
      obtain ⟨ht, es, hlog, hmoves, hnil⟩ := mouseMove_sent hs h
      exact ⟨ht, es, hlog, hmoves, by simp [hnil]⟩
    case up =>
      obtain rfl := Option.some_inj.mp h
      obtain ⟨es, hlog, hmoves, hnil⟩ := mouseUp_sent hs e
      exact ⟨hs.mouseUp e, es, hlog, hmoves, by simp [hnil]⟩
    case cancel =>
      obtain rfl := Option.some_inj.mp h
      have hg : (cancelLongPress s).grabbing = false := hs.grabbing
      rw [releaseGrab, hg, if_neg (by simp)]
      exact ⟨⟨hs.grabbing, hs.directPressed, rfl⟩, [], rfl, .inl rfl, by simp⟩
    all_goals
      obtain rfl := Option.some_inj.mp h
      exact ⟨hs, [], rfl, .inl rfl, by simp⟩

theorem directHandle_sent {v : Viewport} {e : TouchEvent F} {s t : State F} (hs : Clear s)
    (hdown : e.action ≠ .down) (h : directHandle v e s = some t) :
    Clear t ∧ ∃ es, t.log = es ++ s.log ∧ MovesOrNothing es ∧
      (es = [] ↔ v.inside e.x e.y = false) := by
  obtain ⟨fb, hfb, rfl⟩ := Option.map_eq_some_iff.mp h
  rw [← Viewport.toFramebuffer_isSome hfb]
  rcases fb with _ | ⟨x, y⟩
  · exact ⟨hs, [], rfl, .inl rfl, by simp⟩
  rcases ha : e.action <;> simp only [ha] at hdown
  case down => simp at hdown
  case move =>
    exact ⟨⟨hs.grabbing, hs.directPressed, hs.longPress⟩,
      [.sendPointer x y left none, .updateCursor x y], rfl, .inr ⟨x, y, by simp⟩, by simp⟩
  case up =>
    exact ⟨⟨hs.grabbing, rfl, hs.longPress⟩,
      [.sendPointer x y left (some false), .updateCursor x y], rfl, .inr ⟨x, y, by simp⟩, by simp⟩
  case cancel =>
    exact ⟨⟨hs.grabbing, rfl, hs.longPress⟩,
      [.sendPointer x y left (some false), .updateCursor x y], rfl, .inr ⟨x, y, by simp⟩, by simp⟩
  all_goals
    exact ⟨⟨hs.grabbing, hs.directPressed, hs.longPress⟩, [.updateCursor x y], rfl,
      .inr ⟨x, y, by simp⟩, by simp⟩

/-- A sample of the finger that is left. -/
theorem onTouch_one {v : Viewport} {cfg : TouchpadConfig F} {fuel : ℕ} {e : TouchEvent F}
    {s t : State F} (hs : Clear s) (hone : e.pointerCount < 2) (hdown : e.action ≠ .down)
    (h : onTouch v cfg fuel e s = some t) :
    Clear t ∧ ∃ es, t.log = es ++ s.log ∧ MovesOrNothing es ∧
      (es = [] ↔ (s.scrolling = false → Inert v e s)) := by
  rw [onTouch, if_neg (Nat.not_le_of_lt hone)] at h
  split at h
  next hscroll =>
    obtain rfl := Option.some_inj.mp h
    have hclear : Clear (if e.action.ends = true then
        { s with scrolling := false, scrollAccum := FloatOps.ofInt 0 } else s) := by
      split
      · exact ⟨hs.grabbing, hs.directPressed, hs.longPress⟩
      · exact hs
    refine ⟨hclear, [], ?_, .inl rfl, by simp [hscroll]⟩
    split <;> rfl
  next hscroll =>
    rw [Bool.not_eq_true] at hscroll
    simp only [Inert, hscroll, true_imp_iff]
    split at h
    next hm =>
      rw [if_pos hm]
      exact mouseHandle_sent hs hdown h
    next hm =>
      rw [if_neg hm]
      exact directHandle_sent hs hdown h

/-- A sample of two fingers sends releases and wheel events. -/
theorem onTouch_two {v : Viewport} {cfg : TouchpadConfig F} {fuel : ℕ} {e : TouchEvent F}
    {s t : State F} (htwo : 2 ≤ e.pointerCount) (h : onTouch v cfg fuel e s = some t) :
    Clear t ∧ ∃ es, t.log = es ++ s.log ∧
      ∀ u : State F, es.filter (singleFinger u) = releases s := by
  rw [onTouch, if_pos htwo] at h
  obtain ⟨es, hscrolled, -⟩ := scrolled_scrollHandle h
  have hclear := clear_dropPress s
  refine ⟨⟨hscrolled.grabbing.trans hclear.grabbing,
    hscrolled.directPressed.trans hclear.directPressed,
    hscrolled.longPress.trans hclear.longPress⟩, es ++ releases s, ?_, fun u => ?_⟩
  · rw [hscrolled.log, dropPress_eq, List.append_assoc]
  · rw [List.filter_append, filter_wheels hscrolled.wheels, filter_releases, List.nil_append]

/-! ### The steps -/

/-- What holds while the steps meet the condition: two fingers that have been down hold
nothing. -/
structure WatchInv (w : Watched F) : Prop where
  ignored : TailIgnored w
  clear : w.two = true → Clear w.s

omit [FloatOps F] in
theorem Watched.goOn_of_two {w : Watched F} {s' : State F} {es : List SinkEvent}
    (hw : w.two = true) (hlog : s'.log = es ++ w.s.log) :
    w.goOn s' = { w with s := s', effects := es.filter (singleFinger w.s) ++ w.effects } := by
  rw [Watched.goOn, if_pos hw, sent_eq hlog]

omit [FloatOps F] in
theorem Watched.goOn_of_one {w : Watched F} (hw : w.two = false) (s' : State F) :
    w.goOn s' = { w with s := s' } := by
  rw [Watched.goOn, hw, if_neg (by simp)]

omit [FloatOps F] in
/-- A step that causes nothing for one finger. -/
theorem WatchInv.goOn {w : Watched F} {t : State F} {l : List SinkEvent} (h : WatchInv w)
    (hlog : w.two = true → t.log = l ++ w.s.log ∧ l.filter (singleFinger w.s) = [] ∧ Clear t) :
    WatchInv (w.goOn t) := by
  rcases hw : w.two
  · rw [Watched.goOn_of_one hw]
    exact ⟨h.ignored, fun htwo => absurd (hw.symm.trans htwo) (by simp)⟩
  · obtain ⟨hlog, hnil, hclear⟩ := hlog hw
    rw [Watched.goOn_of_two hw hlog, hnil, List.nil_append]
    exact ⟨h.ignored, fun _ => hclear⟩

/-- A second finger lands. -/
theorem land_step {v : Viewport} {cfg : TouchpadConfig F} {fuel : ℕ} {e : TouchEvent F}
    {w : Watched F} {t s' : State F} (htwo : 2 ≤ e.pointerCount)
    (h : onTouch v cfg fuel e w.s = some t) (hs' : s' = { t with touching := !e.action.ends }) :
    (LandsOnce w.s ↔ TailIgnored (w.land s')) ∧ Clear (w.land s').s := by
  obtain ⟨hclear, es, hlog, hes⟩ := onTouch_two htwo h
  have hsent : sent w.s s' = es := sent_eq (by rw [hs']; exact hlog)
  refine ⟨?_, by rw [Watched.land, hs']; exact ⟨hclear.1, hclear.2, hclear.3⟩⟩
  rw [TailIgnored, Watched.land, hsent, hes]
  exact landsOnce_iff w.s

/-- The finger that is left goes on. -/
theorem tail_step {v : Viewport} {cfg : TouchpadConfig F} {fuel : ℕ} {e : TouchEvent F}
    {w : Watched F} {t s' : State F} (hw : WatchInv w) (hone : e.pointerCount < 2)
    (hdown : e.action ≠ .down) (h : onTouch v cfg fuel e w.s = some t)
    (hs' : s' = { t with touching := !e.action.ends }) :
    ((w.two = true → w.s.scrolling = false → Inert v e w.s) ↔ TailIgnored (w.goOn s')) ∧
      ((w.goOn s').two = true → Clear (w.goOn s').s) := by
  rcases htwo : w.two
  · rw [Watched.goOn_of_one htwo]
    exact ⟨⟨fun _ => hw.ignored, fun _ h => by simp at h⟩,
      fun h => absurd (htwo.symm.trans h) (by simp)⟩
  · obtain ⟨hclear, es, hlog, hmoves, hnil⟩ := onTouch_one (hw.clear htwo) hone hdown h
    have hlog' : s'.log = es ++ w.s.log := by rw [hs']; exact hlog
    rw [Watched.goOn_of_two htwo hlog']
    refine ⟨?_, fun _ => by rw [hs']; exact ⟨hclear.1, hclear.2, hclear.3⟩⟩
    rw [eq_self_iff_true, true_imp_iff, ← hnil]
    constructor
    · rintro rfl
      exact hw.ignored
    · intro hignored
      rcases hmoves with hes | hmoves
      · exact hes
      · exact absurd hignored (not_tailIgnored_of_moves hmoves rfl)

theorem watch_touch {v : Viewport} {cfg : TouchpadConfig F} {fuel : ℕ} {e : TouchEvent F}
    {w w' : Watched F} (h : WatchInv w) (hstep : watch w (.touch e v cfg fuel) = some w') :
    (TailInert w (.touch e v cfg fuel) ↔ TailIgnored w') ∧ (w'.two = true → Clear w'.s) := by
  obtain ⟨s', hs', rfl⟩ := Option.map_eq_some_iff.mp hstep
  simp only [step] at hs'
  split at hs' <;> [skip; simp at hs']
  obtain ⟨t, ht, hs'⟩ := Option.map_eq_some_iff.mp hs'
  by_cases hdown : e.action = .down
  · simp only [hdown, if_true, TailInert, ne_eq, not_true_eq_false, false_and, false_or,
      false_imp_iff]
    by_cases htwo : 2 ≤ e.pointerCount
    · rw [if_pos htwo, if_pos htwo]
      have hland := land_step htwo ht hs'.symm
      exact ⟨hland.1, fun _ => hland.2⟩
    · rw [if_neg htwo, if_neg htwo]
      exact ⟨⟨fun _ => .inl rfl, fun _ => trivial⟩, fun h => by simp at h⟩
  · simp only [hdown, if_false, TailInert, ne_eq, not_false_eq_true, true_and, true_imp_iff]
    by_cases htwo : 2 ≤ e.pointerCount
    · rw [if_pos htwo]
      rcases hw : w.two
      · rw [if_pos ⟨htwo, rfl⟩]
        have hland := land_step (w := w) htwo ht hs'.symm
        exact ⟨⟨fun hl => hland.1.mp (hl.resolve_left (by simp)), fun hl => .inr (hland.1.mpr hl)⟩,
          fun _ => hland.2⟩
      · rw [if_neg (by simp)]
        -- the fingers that are down hold nothing, so nothing is released
        obtain ⟨hclear, es, hlog, hes⟩ := onTouch_two htwo ht
        have hnil : es.filter (singleFinger w.s) = [] := by
          rw [hes, releases_eq_nil]
          exact ⟨(h.clear hw).grabbing, (h.clear hw).directPressed⟩
        have hgo : WatchInv (w.goOn s') :=
          h.goOn fun _ => ⟨by rw [← hs']; exact hlog, hnil,
            by rw [← hs']; exact ⟨hclear.1, hclear.2, hclear.3⟩⟩
        exact ⟨⟨fun _ => hgo.ignored, fun _ => .inl rfl⟩, hgo.clear⟩
    · rw [if_neg htwo, if_neg (fun h => htwo h.1)]
      exact tail_step h (Nat.lt_of_not_le htwo) hdown ht hs'.symm

theorem watch_step {w w' : Watched F} {a : Action F} (h : WatchInv w)
    (hstep : watch w a = some w') :
    (TailInert w a ↔ TailIgnored w') ∧ (w'.two = true → Clear w'.s) := by
  cases a with
  | touch e v cfg fuel => exact watch_touch h hstep
  | longPress =>
    obtain ⟨s', hs', rfl⟩ := Option.map_eq_some_iff.mp hstep
    obtain ⟨hold, harmed, rfl⟩ := Option.map_eq_some_iff.mp hs'
    -- a long press that fires was armed, so no second finger has been down
    have hgo := h.goOn (t := fireLongPress hold { w.s with longPress := none }) (l := [])
      fun htwo => by
        rw [(h.clear htwo).longPress] at harmed
        simp at harmed
    exact ⟨⟨fun _ => hgo.ignored, fun _ => trivial⟩, hgo.clear⟩
  | twoFingerHold =>
    obtain ⟨s', hs', rfl⟩ := Option.map_eq_some_iff.mp hstep
    simp only [step] at hs'
    split at hs' <;> [skip; simp at hs']
    obtain rfl := Option.some_inj.mp hs'
    have hright : [.sendButton right false, .sendButton right true,
        .sendPointer w.s.cursorX w.s.cursorY left none].filter (singleFinger w.s) = [] := by
      simp [singleFinger, moves, leftEvent, left, right]
    rw [fireTwoFingerHold_eq]
    have hgo := h.goOn
      (t := { w.s with
        twoFingerHold := false
        holdPending := false
        twoFingerRightClicked := true
        log := [.sendButton right false, .sendButton right true,
          .sendPointer w.s.cursorX w.s.cursorY left none] ++ w.s.log })
      (l := [.sendButton right false, .sendButton right true,
        .sendPointer w.s.cursorX w.s.cursorY left none])
      fun htwo => ⟨rfl, hright, (h.clear htwo).1, (h.clear htwo).2, (h.clear htwo).3⟩
    exact ⟨⟨fun _ => hgo.ignored, fun _ => trivial⟩, hgo.clear⟩
  | setMode m =>
    obtain ⟨s', hs', rfl⟩ := Option.map_eq_some_iff.mp hstep
    obtain rfl := Option.some_inj.mp hs'
    exact ⟨⟨fun _ => h.ignored, fun _ => trivial⟩,
      fun htwo => ⟨(h.clear htwo).1, (h.clear htwo).2, (h.clear htwo).3⟩⟩
  | setCursor x y =>
    obtain ⟨s', hs', rfl⟩ := Option.map_eq_some_iff.mp hstep
    obtain rfl := Option.some_inj.mp hs'
    exact ⟨⟨fun _ => h.ignored, fun _ => trivial⟩,
      fun htwo => ⟨(h.clear htwo).1, (h.clear htwo).2, (h.clear htwo).3⟩⟩

/-! ### When the tail is ignored -/

/-- Throughout a run nothing is sent for one finger once a second one has been down, but the
release of a button held when it landed, if and only if each second finger lands on at most
one press and the finger that is left does nothing its handler would act on. -/
theorem tail_ignored_iff (mouseMode : Bool) (as : List (Action F)) (w : Watched F)
    (hrun : run watch (watched mouseMode) as = some w) :
    Always watch TailIgnored (watched mouseMode) as ↔
      Meets watch TailInert (watched mouseMode) as := by
  have hinit : WatchInv (watched mouseMode : Watched F) :=
    ⟨.inl rfl, fun h => by simp [watched] at h⟩
  exact always_iff_meets (fun _ h => h.ignored) (fun _ _ _ h hstep => (watch_step h hstep).1)
    (fun _ _ _ h hok hstep => ⟨(watch_step h hstep).1.mp hok, (watch_step h hstep).2⟩) hinit hrun

end

/-! ### The finger that is left -/

/-- Two fingers are down in MOUSE mode, one lifts and the other moves on. -/
def moveOn : List (Action ℚ) :=
  [finger .down 200 200, fingers .pointerDown 200 200, fingers .pointerUp 200 200,
   finger .move 500 200]

/-- A drag in MOUSE mode, a second finger touches, and both lift. -/
def dragThenTouch : List (Action ℚ) :=
  [finger .down 200 200, finger .move 300 200, fingers .pointerDown 300 200,
   fingers .pointerUp 300 200, finger .up 300 200]

/-- After `moveOn` the finger that was left has moved the cursor. -/
theorem moveOn_not_ignored :
    ∃ w, run watch (watched true) moveOn = some w ∧ ¬ TailIgnored w := by
  have heval : (run watch (watched true) moveOn).map (fun w => (w.two, w.effects)) =
      some (true, [.sendPointer 300 0 left none, .updateCursor 300 0]) := by decide +kernel
  obtain ⟨w, hrun, hw⟩ := Option.map_eq_some_iff.mp heval
  obtain ⟨-, heffects⟩ := Prod.mk.inj hw
  refine ⟨w, hrun, ?_⟩
  rintro (h | ⟨-, h⟩)
  · rw [heffects] at h
    simp at h
  · rw [heffects] at h
    simp at h

/-- `dragThenTouch` is ignored from the second finger on. -/
theorem dragThenTouch_ignored : Always watch TailIgnored (watched true) dragThenTouch := by
  have heval : (run watch (watched true) dragThenTouch).isSome = true := by decide +kernel
  obtain ⟨w, hrun⟩ := Option.isSome_iff_exists.mp heval
  exact (tail_ignored_iff true dragThenTouch w hrun).mpr (by decide +kernel)

end Touchpad
