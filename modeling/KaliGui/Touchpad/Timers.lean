/-
Timers and held buttons while the screen is not touched.

A handler arms its timer and sets its flag, and takes them back where it sees the gesture
end.  The mode decides which handler sees the end, and may be set at any moment.

* `NoGhost` — between gestures nothing is armed and nothing is held;
* `no_ghost_input_iff` — the runs in which it is so throughout.
-/
import KaliGui.Touchpad.Effects
import KaliGui.Touchpad.LeftButton

namespace Touchpad

open Machine

variable {F : Type*}

/-- No timer is armed and no button is held. -/
structure Idle (s : State F) : Prop where
  longPress : s.longPress = none
  twoFingerHold : s.twoFingerHold = false
  grabbing : s.grabbing = false
  directPressed : s.directPressed = false

/-- With no finger down, no timer is armed and no button is held. -/
def NoGhost (s : State F) : Prop := s.touching = false → Idle s

/-! ### What each handler leaves armed -/

/-- Where one finger leaves the two-finger hold alone, its flag stays right. -/
theorem pending_of_two {s t : State F} (h : t.two = s.two)
    (hs : s.holdPending = s.twoFingerHold) : t.holdPending = t.twoFingerHold := by
  have hpending : t.holdPending = s.holdPending := congrArg TwoFinger.holdPending h
  have hhold : t.twoFingerHold = s.twoFingerHold := congrArg TwoFinger.hold h
  rw [hpending, hhold, hs]

theorem releaseOrClick_idle (e : TouchEvent F) (s : State F) :
    (releaseOrClick e s).longPress = s.longPress ∧ (releaseOrClick e s).grabbing = false ∧
      (releaseOrClick e s).directPressed = s.directPressed := by
  rw [releaseOrClick_eq]
  split
  · exact ⟨rfl, rfl, rfl⟩
  next hg =>
    rw [Bool.not_eq_true] at hg
    split
    · exact ⟨rfl, hg, rfl⟩
    split
    · exact ⟨rfl, hg, rfl⟩
    · exact ⟨rfl, hg, rfl⟩

/-- The end of a grab, or of a tap, leaves no long press and no grab. -/
theorem mouseUp_idle (e : TouchEvent F) (s : State F) :
    (mouseUp e s).longPress = none ∧ (mouseUp e s).grabbing = false ∧
      (mouseUp e s).directPressed = s.directPressed :=
  releaseOrClick_idle e (cancelLongPress s)

theorem releaseGrab_idle (s : State F) :
    (releaseGrab s).grabbing = false ∧ (releaseGrab s).longPress = s.longPress ∧
      (releaseGrab s).directPressed = s.directPressed := by
  rw [releaseGrab]
  split
  · exact ⟨rfl, rfl, rfl⟩
  next hg => exact ⟨by simpa using hg, rfl, rfl⟩

variable [FloatOps F]

/-- One finger ends the gesture in MOUSE mode. -/
theorem mouseHandle_ends {v : Viewport} {cfg : TouchpadConfig F} {e : TouchEvent F}
    {s t : State F} (hends : e.action.ends = true) (h : mouseHandle v cfg e s = some t) :
    t.directPressed = s.directPressed ∧
      (v.laidOut = true → t.longPress = none ∧ t.grabbing = false) ∧
      (v.laidOut = false → t = s) := by
  rw [mouseHandle] at h
  rcases hlaid : v.laidOut
  · rw [hlaid, if_pos (by simp)] at h
    obtain rfl := Option.some_inj.mp h
    exact ⟨rfl, fun hl => by simp at hl, fun _ => rfl⟩
  · rw [hlaid, if_neg (by simp)] at h
    rcases ha : e.action <;> simp only [ha, TouchAction.ends] at h hends
    case up =>
      obtain rfl := Option.some_inj.mp h
      obtain ⟨hl, hg, hd⟩ := mouseUp_idle e s
      exact ⟨hd, fun _ => ⟨hl, hg⟩, fun hl => by simp at hl⟩
    case cancel =>
      obtain rfl := Option.some_inj.mp h
      obtain ⟨hg, hl, hd⟩ := releaseGrab_idle (cancelLongPress s)
      exact ⟨hd, fun _ => ⟨hl, hg⟩, fun hl => by simp at hl⟩
    all_goals simp at hends

/-- One finger ends the gesture in TOUCH mode. -/
theorem directHandle_ends {v : Viewport} {e : TouchEvent F} {s t : State F}
    (hends : e.action.ends = true) (h : directHandle v e s = some t) :
    t.longPress = s.longPress ∧ t.grabbing = s.grabbing ∧
      (t.directPressed = false ↔ v.inside e.x e.y = true ∨ s.directPressed = false) := by
  obtain ⟨fb, hfb, rfl⟩ := Option.map_eq_some_iff.mp h
  rw [← Viewport.toFramebuffer_isSome hfb]
  rcases fb with _ | ⟨x, y⟩
  · exact ⟨rfl, rfl, by simp⟩
  · rcases ha : e.action <;> simp only [ha, TouchAction.ends] at hends
    case up => exact ⟨rfl, rfl, by simp⟩
    case cancel => exact ⟨rfl, rfl, by simp⟩
    all_goals simp at hends

/-! ### The steps -/

/-- One finger that ends a gesture finds nothing armed or held but what its handler takes
back: in MOUSE mode the long press and the grab, where something is laid out; in TOUCH mode
the press, inside the image; in the tail of a scroll nothing. -/
def EndsIdle (s : State F) : Action F → Prop
  | .touch e v _ _ => e.action.ends = true → e.pointerCount < 2 →
      s.twoFingerHold = false ∧
        if s.scrolling then s.longPress = none ∧ s.grabbing = false ∧ s.directPressed = false
        else if s.mouseMode then
          s.directPressed = false ∧ (v.laidOut = true ∨ s.longPress = none ∧ s.grabbing = false)
        else
          s.longPress = none ∧ s.grabbing = false ∧
            (v.inside e.x e.y = true ∨ s.directPressed = false)
  | _ => True

/-- A touch sample keeps the flag of the hold right. -/
theorem pending_onTouch {e : TouchEvent F} {v : Viewport} {cfg : TouchpadConfig F} {fuel : ℕ}
    {s t : State F} (hp : s.holdPending = s.twoFingerHold)
    (h : onTouch v cfg fuel e s = some t) : t.holdPending = t.twoFingerHold := by
  rw [onTouch] at h
  split at h
  · obtain ⟨es, hscrolled, -⟩ := scrolled_scrollHandle h
    refine hscrolled.hold ?_
    rw [dropPress_eq]
    exact hp
  split at h
  · rw [← Option.some_inj.mp h]
    split <;> exact hp
  split at h
  · exact pending_of_two (two_mouseHandle h) hp
  · exact pending_of_two (two_directHandle h) hp

/-- Where a gesture ends. -/
theorem idle_onTouch_iff {e : TouchEvent F} {v : Viewport} {cfg : TouchpadConfig F} {fuel : ℕ}
    {s t : State F} (hp : s.holdPending = s.twoFingerHold) (hends : e.action.ends = true)
    (h : onTouch v cfg fuel e s = some t) :
    Idle t ↔ EndsIdle s (.touch e v cfg fuel) := by
  rw [onTouch, hends] at h
  split at h
  next htwo =>
    -- two fingers leave nothing behind
    refine ⟨fun _ _ hone => absurd htwo (Nat.not_le_of_lt hone), fun _ => ?_⟩
    obtain ⟨es, hscrolled, -⟩ := scrolled_scrollHandle h
    have hdropped : (dropPress s).holdPending = (dropPress s).twoFingerHold := by
      rw [dropPress_eq]
      exact hp
    have hhold := twoFingerHold_of_ends hends hdropped h
    rw [dropPress_eq] at hscrolled
    exact ⟨hscrolled.longPress, hhold, hscrolled.grabbing, hscrolled.directPressed⟩
  next htwo =>
    have hone : e.pointerCount < 2 := Nat.lt_of_not_le htwo
    simp only [EndsIdle, hends, hone, true_imp_iff]
    split at h
    next hs =>
      obtain rfl := Option.some_inj.mp h
      rw [if_pos hs]
      refine ⟨fun hi => ⟨hi.twoFingerHold, hi.longPress, hi.grabbing, hi.directPressed⟩, ?_⟩
      rintro ⟨hh, hl, hg, hd⟩
      exact ⟨hl, hh, hg, hd⟩
    next hs =>
      rw [if_neg hs]
      split at h
      next hm =>
        obtain ⟨hd, hlaid, hnot⟩ := mouseHandle_ends hends h
        have hhold : t.twoFingerHold = s.twoFingerHold :=
          congrArg TwoFinger.hold (two_mouseHandle h)
        rw [if_pos hm]
        constructor
        · intro hi
          refine ⟨hhold ▸ hi.twoFingerHold, hd ▸ hi.directPressed, ?_⟩
          rcases hl : v.laidOut
          · obtain rfl := hnot hl
            exact .inr ⟨hi.longPress, hi.grabbing⟩
          · exact .inl rfl
        · rintro ⟨hh, hdp, hl | ⟨hl, hg⟩⟩
          · exact ⟨(hlaid hl).1, hhold.trans hh, (hlaid hl).2, hd.trans hdp⟩
          · rcases hl' : v.laidOut
            · obtain rfl := hnot hl'
              exact ⟨hl, hh, hg, hdp⟩
            · exact ⟨(hlaid hl').1, hhold.trans hh, (hlaid hl').2, hd.trans hdp⟩
      next hm =>
        obtain ⟨hl, hg, hd⟩ := directHandle_ends hends h
        have hhold : t.twoFingerHold = s.twoFingerHold :=
          congrArg TwoFinger.hold (two_directHandle h)
        rw [if_neg hm]
        constructor
        · intro hi
          exact ⟨hhold ▸ hi.twoFingerHold, hl ▸ hi.longPress, hg ▸ hi.grabbing,
            hd.mp hi.directPressed⟩
        · rintro ⟨hh, hlp, hgr, hdp⟩
          exact ⟨hl.trans hlp, hhold.trans hh, hg.trans hgr, hd.mpr hdp⟩

/-- What holds while the steps meet the condition: the scroll handler's flag says whether
its timer is armed. -/
structure Quiet (s : State F) : Prop where
  noGhost : NoGhost s
  pending : s.holdPending = s.twoFingerHold

omit [FloatOps F] in
theorem NoGhost.setCursor {s : State F} (h : NoGhost s) (x y : ℤ) : NoGhost (setCursor x y s) :=
  fun ht => ⟨(h ht).longPress, (h ht).twoFingerHold, (h ht).grabbing, (h ht).directPressed⟩

/-- The flag of the hold is right in every state. -/
theorem pending_step {s s' : State F} {a : Action F} (hp : s.holdPending = s.twoFingerHold)
    (hstep : step s a = some s') : s'.holdPending = s'.twoFingerHold := by
  cases a with
  | touch e v cfg fuel =>
    simp only [step] at hstep
    split at hstep <;> [skip; cases hstep]
    obtain ⟨t, ht, rfl⟩ := Option.map_eq_some_iff.mp hstep
    exact pending_onTouch (t := t) hp ht
  | longPress =>
    obtain ⟨hold, -, rfl⟩ := Option.map_eq_some_iff.mp hstep
    exact pending_of_two (two_fireLongPress hold { s with longPress := none }) hp
  | twoFingerHold =>
    simp only [step] at hstep
    split at hstep <;> [skip; cases hstep]
    rw [← Option.some_inj.mp hstep]
    rfl
  | setMode m =>
    rw [← Option.some_inj.mp hstep]
    exact hp
  | setCursor x y =>
    rw [← Option.some_inj.mp hstep]
    exact hp

theorem quiet_step {s s' : State F} {a : Action F} (h : Quiet s) (hstep : step s a = some s') :
    EndsIdle s a ↔ NoGhost s' := by
  cases a with
  | touch e v cfg fuel =>
    simp only [step] at hstep
    split at hstep
    · obtain ⟨t, ht, rfl⟩ := Option.map_eq_some_iff.mp hstep
      rcases hends : e.action.ends
      · refine ⟨fun _ htouch => by simp at htouch, fun _ => ?_⟩
        simp [EndsIdle, hends]
      · rw [← idle_onTouch_iff h.pending hends ht]
        exact ⟨fun hi _ => ⟨hi.longPress, hi.twoFingerHold, hi.grabbing, hi.directPressed⟩,
          fun hi => ⟨(hi rfl).longPress, (hi rfl).twoFingerHold, (hi rfl).grabbing,
            (hi rfl).directPressed⟩⟩
    · simp at hstep
  | longPress =>
    obtain ⟨hold, harmed, rfl⟩ := Option.map_eq_some_iff.mp hstep
    refine ⟨fun _ htouch => ?_, fun _ => trivial⟩
    -- the timer is armed, so the screen is touched
    have htouching : s.touching = false := by
      rw [← htouch, fireLongPress_eq]
      split
      · split <;> rfl
      · rfl
    rw [(h.noGhost htouching).longPress] at harmed
    simp at harmed
  | twoFingerHold =>
    simp only [step] at hstep
    split at hstep
    next hhold =>
      rw [← Option.some_inj.mp hstep]
      refine ⟨fun _ htouch => ?_, fun _ => trivial⟩
      rw [fireTwoFingerHold_eq] at htouch
      rw [(h.noGhost htouch).twoFingerHold] at hhold
      simp at hhold
    · simp at hstep
  | setMode m =>
    rw [← Option.some_inj.mp hstep]
    refine ⟨fun _ htouch => ?_, fun _ => trivial⟩
    have hi := h.noGhost htouch
    exact ⟨hi.longPress, hi.twoFingerHold, hi.grabbing, hi.directPressed⟩
  | setCursor x y =>
    rw [← Option.some_inj.mp hstep]
    exact ⟨fun _ => h.noGhost.setCursor x y, fun _ => trivial⟩

/-! ### When nothing is left armed -/

/-- Throughout a run nothing is armed or held with no finger down, and so no timer can fire
then, if and only if each gesture ends where its handler takes back all that is left. -/
theorem no_ghost_input_iff (mouseMode : Bool) (as : List (Action F)) (s : State F)
    (hrun : run step (initial mouseMode) as = some s) :
    (Always step NoGhost (initial mouseMode) as ↔ Meets step EndsIdle (initial mouseMode) as) ∧
      (Meets step EndsIdle (initial mouseMode) as → s.touching = false →
        step s .longPress = none ∧ step s .twoFingerHold = none) := by
  have hinit : Quiet (initial mouseMode : State F) := ⟨fun _ => ⟨rfl, rfl, rfl, rfl⟩, rfl⟩
  have hkeeps : ∀ (s : State F) (a : Action F) (s' : State F), Quiet s → EndsIdle s a →
      step s a = some s' → Quiet s' :=
    fun _ _ _ h hok hstep => ⟨(quiet_step h hstep).mp hok, pending_step h.pending hstep⟩
  constructor
  · exact always_iff_meets (fun _ h => h.noGhost) (fun _ _ _ h hstep => quiet_step h hstep)
      hkeeps hinit hrun
  · intro hok htouch
    have hidle := (run_invariant hkeeps hinit hok hrun).noGhost htouch
    simp [step, hidle.longPress, hidle.twoFingerHold]

/-! ### A mode switched under the finger -/

/-- One finger goes down in MOUSE mode, and up in TOUCH mode. -/
def switchUnderFinger : List (Action ℚ) :=
  [finger .down 200 200, .setMode false, finger .up 200 200]

/-- One finger goes down and up in MOUSE mode. -/
def tap : List (Action ℚ) := [finger .down 200 200, finger .up 200 200]

/-- After `switchUnderFinger` no finger is down and the long press is armed; it fires. -/
theorem switchUnderFinger_ghost :
    ∃ s, run step (initial true) switchUnderFinger = some s ∧ s.touching = false ∧
      ¬ NoGhost s ∧ (step s .longPress).isSome = true := by
  have heval : (run step (initial true) switchUnderFinger).map
      (fun s => (s.touching, s.longPress)) = some (false, some .tapTapHold) := by decide +kernel
  obtain ⟨s, hrun, hs⟩ := Option.map_eq_some_iff.mp heval
  obtain ⟨htouch, harmed⟩ := Prod.mk.inj hs
  refine ⟨s, hrun, htouch, fun h => ?_, ?_⟩
  · rw [(h htouch).longPress] at harmed
    simp at harmed
  · rw [step, harmed]
    rfl

/-- `tap` leaves nothing behind. -/
theorem tap_noGhost : Always step NoGhost (initial true) tap := by
  have heval : (run step (initial true) tap).isSome = true := by decide +kernel
  obtain ⟨s, hrun⟩ := Option.isSome_iff_exists.mp heval
  refine (no_ghost_input_iff true tap s hrun).1.mpr ?_
  refine ⟨fun h => by simp [TouchAction.ends] at h,
    fun s₁ h₁ => ⟨fun _ _ => ?_, fun _ _ => trivial⟩⟩
  have hdown : (run step (initial true) [finger .down 200 200]).map
      (fun s => (s.twoFingerHold, s.scrolling, s.mouseMode, s.directPressed)) =
        some (false, false, true, false) := by
    decide +kernel
  rw [run_singleton, show step (initial true) (finger .down 200 200) = some s₁ from h₁,
    Option.map_some, Option.some_inj, Prod.mk.injEq, Prod.mk.injEq, Prod.mk.injEq] at hdown
  obtain ⟨hhold, hscroll, hmode, hdirect⟩ := hdown
  refine ⟨hhold, ?_⟩
  rw [hscroll, hmode, if_neg (by simp), if_pos rfl]
  exact ⟨hdirect, .inl (by decide)⟩

end Touchpad
