/-
Two fingers either scroll or right-click.

Once two fingers are put down, a travel of a notch turns the wheel, and a time without a
travel of the slop right-clicks.  The travel is added up sample by sample for the wheel, and
taken from where the fingers were put down for the click.  As long as the two do not differ,
one excludes the other.

* `Phase` — what two fingers have come to, and what they sent;
* `TravelInside` — a sample that leaves the hold armed does not turn the wheel;
* `Phase.exclusive`, `landed_run` — then they have either scrolled or right-clicked;
* `scroll_xor_rightClick` — for exact numbers it is always so;
* `coarse_scrolls_and_clicks` — in single precision it is not.
-/
import KaliGui.Touchpad.Scroll
import KaliGui.Touchpad.Timers

namespace Touchpad

open Machine

variable {F : Type*}

/-! ### Either, not both -/

/-- The click of the hold, the newest first. -/
def rightClick : List SinkEvent := [.sendButton right false, .sendButton right true]

/-- One right click at most, and none beside turns of the wheel. -/
def Exclusive (es : List SinkEvent) : Prop :=
  es.count (.sendButton right true) ≤ 1 ∧
    (.sendButton right true ∈ es → ∀ e ∈ es, ¬ IsWheel e)

/-- What two fingers have come to since they were put down; `es` is what they sent. -/
inductive Phase (s : State F) : List SinkEvent → Prop
  /-- the hold may still fire -/
  | pending (hold : s.twoFingerHold = true) (fired : s.twoFingerRightClicked = false) : Phase s []
  | scrolls {es : List SinkEvent} (hold : s.twoFingerHold = false) (wheels : ∀ e ∈ es, IsWheel e) :
    Phase s es
  | clicked (hold : s.twoFingerHold = false) (fired : s.twoFingerRightClicked = true) :
    Phase s rightClick

theorem not_isWheel_right (pressed : Bool) : ¬ IsWheel (.sendButton right pressed) := by
  rintro ⟨up, pressed, h⟩
  cases up <;> cases h

/-- Whatever they have come to, they did not do both. -/
theorem Phase.exclusive {s : State F} {l : List SinkEvent} (h : Phase s (l.filter otherButton)) :
    Exclusive l := by
  have hright : otherButton (.sendButton right true) = true := rfl
  have hwheel : ∀ e, IsWheel e → otherButton e = true := by
    rintro e ⟨up, pressed, rfl⟩
    cases up <;> rfl
  suffices hexclusive : Exclusive (l.filter otherButton) by
    obtain ⟨hcount, hnone⟩ := hexclusive
    rw [List.count_filter hright] at hcount
    exact ⟨hcount, fun hmem e he hw =>
      hnone (List.mem_filter.mpr ⟨hmem, hright⟩) e (List.mem_filter.mpr ⟨he, hwheel e hw⟩) hw⟩
  revert h
  generalize l.filter otherButton = es
  rintro (_ | ⟨-, hwheels⟩ | _)
  · exact ⟨Nat.zero_le 1, fun hmem => absurd hmem List.not_mem_nil⟩
  · have hnone : .sendButton right true ∉ es := fun hmem =>
      not_isWheel_right true (hwheels _ hmem)
    rw [Exclusive, List.count_eq_zero.mpr hnone]
    exact ⟨Nat.zero_le 1, fun hmem => absurd hmem hnone⟩
  · refine ⟨le_rfl, fun _ e he => ?_⟩
    rcases List.mem_pair.mp he with rfl | rfl
    · exact not_isWheel_right false
    · exact not_isWheel_right true

/-! ### Until two fingers are put down again -/

/-- A step that puts no finger down. -/
def Within : Action F → Prop
  | .touch e _ _ _ => e.action ≠ .down ∧ e.action ≠ .pointerDown
  | _ => True

section

variable [FloatOps F]

/-- While it leaves the hold armed, a sample of two fingers does not turn the wheel. -/
def TravelInside (s : State F) : Action F → Prop
  | .touch e _ cfg _ => 2 ≤ e.pointerCount → s.twoFingerHold = true →
      keepsHold cfg e s = true → turnsWheel cfg e s = false
  | _ => True

/-- The slop is less than the notch. -/
def SlopBelowNotch : Action F → Prop
  | .touch e _ cfg _ => e.action = .move →
      FloatOps.lt (FloatOps.ofInt 0) cfg.tapSlopPx = true ∧
        FloatOps.lt cfg.tapSlopPx cfg.scrollNotchPx = true
  | _ => True

/-! ### What a step comes to -/

/-- Two fingers were put down, and have sent `es` since. -/
structure Landed (s : State F) (es : List SinkEvent) : Prop where
  clear : Clear s
  pending : s.holdPending = s.twoFingerHold
  phase : Phase s es

/-- A sample of two fingers, once they are down. -/
theorem Landed.two {v : Viewport} {cfg : TouchpadConfig F} {fuel : ℕ} {e : TouchEvent F}
    {s t : State F} {es : List SinkEvent} (h : Landed s es) (htwo : 2 ≤ e.pointerCount)
    (hdown : e.action ≠ .pointerDown)
    (hinside : s.twoFingerHold = true → keepsHold cfg e s = true → turnsWheel cfg e s = false)
    (ht : onTouch v cfg fuel e s = some t) :
    ∃ l, t.log = l ++ s.log ∧ Landed t (l.filter otherButton ++ es) := by
  have hclear := (onTouch_two htwo ht).1
  have hpending := pending_onTouch h.pending ht
  rw [onTouch, if_pos htwo] at ht
  obtain ⟨ws, hscrolled, hnil⟩ := scrolled_scrollHandle ht
  -- dropping the press changes nothing the scroll handler reads
  have hdropped : (dropPress s).holdPending = (dropPress s).twoFingerHold := by
    rw [dropPress_eq]
    exact h.pending
  have hturns : turnsWheel cfg e (dropPress s) = turnsWheel cfg e s := by
    rw [dropPress_eq]
    rfl
  have hold : t.twoFingerHold = (s.twoFingerHold && keepsHold cfg e s) := by
    rw [hold_scrollHandle hdropped hdown ht, dropPress_eq]
    rfl
  have hfired : t.twoFingerRightClicked = s.twoFingerRightClicked := by
    rw [rightClicked_scrollHandle hdown ht, dropPress_eq]
  have hlog : t.log = (ws ++ releases s) ++ s.log := by
    rw [hscrolled.log, dropPress_eq, List.append_assoc]
  have hfilter : (ws ++ releases s).filter otherButton = ws := by
    rw [List.filter_append, filter_wheels_other hscrolled.wheels, filter_releases_other,
      List.append_nil]
  rw [hturns] at hnil
  refine ⟨ws ++ releases s, hlog, hclear, hpending, ?_⟩
  rw [hfilter]
  obtain ⟨hs, hnot⟩ | ⟨hs, hwheels⟩ | ⟨hs, hclicked⟩ := h.phase
  · cases hkeeps : keepsHold cfg e s with
    | true =>
      rw [hnil.mpr (hinside hs hkeeps)]
      exact .pending (by rw [hold, hs, hkeeps]; rfl) (hfired.trans hnot)
    | false =>
      rw [List.append_nil]
      exact .scrolls (by rw [hold, hkeeps, Bool.and_false]) hscrolled.wheels
  · exact .scrolls (by rw [hold, hs, Bool.false_and])
      fun e he => (List.mem_append.mp he).elim (hscrolled.wheels e) (hwheels e)
  · have hquiet : turnsWheel cfg e s = false := by
      rw [turnsWheel, hclicked, Bool.not_true, Bool.and_false, Bool.false_and]
    rw [hnil.mpr hquiet]
    exact .clicked (by rw [hold, hs, Bool.false_and]) (hfired.trans hclicked)

omit [FloatOps F] in
theorem Phase.congr {s t : State F} {es : List SinkEvent} (h : Phase s es)
    (hold : t.twoFingerHold = s.twoFingerHold)
    (hfired : t.twoFingerRightClicked = s.twoFingerRightClicked) : Phase t es := by
  obtain ⟨hs, hnot⟩ | ⟨hs, hwheels⟩ | ⟨hs, hclicked⟩ := h
  · exact .pending (hold.trans hs) (hfired.trans hnot)
  · exact .scrolls (hold.trans hs) hwheels
  · exact .clicked (hold.trans hs) (hfired.trans hclicked)

omit [FloatOps F] in
/-- Steps that leave the hold alone, and send nothing for it. -/
theorem Phase.of_same {s t : State F} {es l : List SinkEvent} (h : Phase s es)
    (hold : t.twoFingerHold = s.twoFingerHold)
    (hfired : t.twoFingerRightClicked = s.twoFingerRightClicked)
    (hl : l.filter otherButton = []) : Phase t (l.filter otherButton ++ es) := by
  rw [hl, List.nil_append]
  exact h.congr hold hfired

/-- A sample of the finger that is left. -/
theorem Landed.one {v : Viewport} {cfg : TouchpadConfig F} {fuel : ℕ} {e : TouchEvent F}
    {s t : State F} {es : List SinkEvent} (h : Landed s es) (hone : e.pointerCount < 2)
    (hdown : e.action ≠ .down) (ht : onTouch v cfg fuel e s = some t) :
    ∃ l, t.log = l ++ s.log ∧ Landed t (l.filter otherButton ++ es) := by
  obtain ⟨hclear, l, hlog, -⟩ := onTouch_one h.clear hone hdown ht
  have hpending := pending_onTouch h.pending ht
  refine ⟨l, hlog, hclear, hpending, ?_⟩
  rcases apart_onTouch hone ht with hapart | rfl
  · have htwo : t.two = s.two := congrArg Prod.fst hapart
    have hother : t.log.filter otherButton = s.log.filter otherButton := congrArg Prod.snd hapart
    rw [hlog, List.filter_append, List.append_left_eq_self] at hother
    exact h.phase.of_same (congrArg TwoFinger.hold htwo) (congrArg TwoFinger.rightClicked htwo)
      hother
  · have hnone : l = [] := List.append_left_eq_self.mp hlog.symm
    exact h.phase.of_same rfl rfl (by rw [hnone]; rfl)

theorem landed_step {s s' : State F} {a : Action F} {es : List SinkEvent} (hwithin : Within a)
    (hinside : TravelInside s a) (h : Landed s es) (hstep : step s a = some s') :
    ∃ l, s'.log = l ++ s.log ∧ Landed s' (l.filter otherButton ++ es) := by
  cases a with
  | touch e v cfg fuel =>
    obtain ⟨hdown, hpointer⟩ := hwithin
    rw [step] at hstep
    split at hstep <;> [skip; cases hstep]
    obtain ⟨t, ht, rfl⟩ := Option.map_eq_some_iff.mp hstep
    have hlanded : ∃ l, t.log = l ++ s.log ∧ Landed t (l.filter otherButton ++ es) := by
      by_cases htwo : 2 ≤ e.pointerCount
      · exact h.two htwo hpointer (hinside htwo) ht
      · exact h.one (Nat.lt_of_not_le htwo) hdown ht
    obtain ⟨l, hlog, hclear, hpending, hphase⟩ := hlanded
    exact ⟨l, hlog, ⟨hclear.grabbing, hclear.directPressed, hclear.longPress⟩, hpending,
      hphase.congr rfl rfl⟩
  | longPress =>
    -- no long press is armed any more
    obtain ⟨hold, harmed, -⟩ := Option.map_eq_some_iff.mp hstep
    exact absurd (h.clear.longPress.symm.trans harmed) (by simp)
  | twoFingerHold =>
    rw [step] at hstep
    split at hstep <;> [skip; cases hstep]
    next harmed =>
      obtain rfl := Option.some_inj.mp hstep
      rw [fireTwoFingerHold_eq]
      refine ⟨rightClick ++ [.sendPointer s.cursorX s.cursorY left none], rfl,
        ⟨h.clear.grabbing, h.clear.directPressed, h.clear.longPress⟩, rfl, ?_⟩
      obtain ⟨-, -⟩ | ⟨hs, -⟩ | ⟨hs, -⟩ := h.phase
      · exact .clicked rfl rfl
      · exact absurd (hs.symm.trans harmed) (by simp)
      · exact absurd (hs.symm.trans harmed) (by simp)
  | setMode m =>
    obtain rfl := Option.some_inj.mp hstep
    exact ⟨[], rfl, ⟨h.clear.grabbing, h.clear.directPressed, h.clear.longPress⟩, h.pending,
      h.phase.of_same rfl rfl rfl⟩
  | setCursor x y =>
    obtain rfl := Option.some_inj.mp hstep
    exact ⟨[.updateCursor x y], rfl,
      ⟨h.clear.grabbing, h.clear.directPressed, h.clear.longPress⟩, h.pending,
      h.phase.of_same rfl rfl rfl⟩

theorem landed_run {as : List (Action F)} {s t : State F} {es : List SinkEvent}
    (hwithin : ∀ a ∈ as, Within a) (hinside : Meets step TravelInside s as) (h : Landed s es)
    (hrun : run step s as = some t) :
    ∃ l, t.log = l ++ s.log ∧ Landed t (l.filter otherButton ++ es) := by
  induction as generalizing s es with
  | nil =>
    obtain rfl := Option.some_inj.mp hrun
    exact ⟨[], rfl, h⟩
  | cons a as ih =>
    obtain ⟨s', hstep, hrun⟩ := run_cons_eq_some.mp hrun
    obtain ⟨l, hlog, h'⟩ := landed_step (hwithin a List.mem_cons_self) hinside.1 h hstep
    obtain ⟨l', hlog', ht⟩ := ih (fun b hb => hwithin b (List.mem_cons_of_mem a hb))
      (hinside.of_step hstep) h' hrun
    refine ⟨l' ++ l, by rw [hlog', hlog, List.append_assoc], ?_⟩
    rw [List.filter_append, List.append_assoc]
    exact ht

/-! ### Two fingers are put down -/

/-- What putting them down leaves. -/
theorem landed_down {v : Viewport} {cfg : TouchpadConfig F} {fuel : ℕ} {e : TouchEvent F}
    {s s₀ : State F} (hp : s.holdPending = s.twoFingerHold) (htwo : 2 ≤ e.pointerCount)
    (hdown : e.action = .pointerDown) (hstep : step s (.touch e v cfg fuel) = some s₀) :
    (∃ l, s₀.log = l ++ s.log ∧ Landed s₀ (l.filter otherButton)) ∧
      s₀.twoFingerRightClicked = false := by
  have hpending := pending_step hp hstep
  rw [step] at hstep
  split at hstep <;> [skip; cases hstep]
  obtain ⟨t, ht, rfl⟩ := Option.map_eq_some_iff.mp hstep
  have hclear := (onTouch_two htwo ht).1
  rw [onTouch, if_pos htwo] at ht
  obtain ⟨ws, hscrolled, hnil⟩ := scrolled_scrollHandle ht
  have hfired : t.twoFingerRightClicked = false := by
    simp only [scrollHandle, hdown] at ht
    obtain rfl := Option.some_inj.mp ht
    split
    · exact (rightClicked_cancelHold _).2
    · rfl
  have hnone : ws = [] := hnil.mpr (by rw [turnsWheel, hdown]; rfl)
  have hlog : t.log = releases s ++ s.log := by
    rw [hscrolled.log, hnone, dropPress_eq]
    rfl
  refine ⟨⟨releases s, hlog, ⟨hclear.grabbing, hclear.directPressed, hclear.longPress⟩,
    hpending, ?_⟩, hfired⟩
  rw [filter_releases_other]
  by_cases hold : t.twoFingerHold = true
  · exact .pending hold hfired
  · exact .scrolls (Bool.eq_false_of_not_eq_true hold) fun _ he => absurd he List.not_mem_nil

end

/-! ### Exact numbers -/

/-- While the hold is armed, the travel is the way from where the fingers were put down. -/
structure Measured (s : State ℚ) : Prop where
  settled : Settled s
  pending : s.holdPending = s.twoFingerHold
  fired : s.twoFingerHold = true → s.twoFingerRightClicked = false
  way : s.twoFingerHold = true → s.scrolling = true →
    s.scrollAccum = s.scrollLastY - s.scrollAnchorY

theorem floatAbs_eq (q : ℚ) : FloatOps.abs q = |q| := by
  show (if q < 0 then -q else q) = _
  split
  next hneg => exact (abs_of_neg hneg).symm
  next hpos => exact (abs_of_nonneg (not_lt.mp hpos)).symm

/-- A `MOVE` that leaves the hold armed stays within a notch. -/
theorem Measured.travel {s : State ℚ} (h : Measured s) {cfg : TouchpadConfig ℚ}
    {e : TouchEvent ℚ} (hslop : FloatOps.lt cfg.tapSlopPx cfg.scrollNotchPx = true)
    (hold : s.twoFingerHold = true) (hscroll : s.scrolling = true) (hmove : e.action = .move)
    (hkeeps : keepsHold cfg e s = true) :
    travel e.midY s = e.midY - s.scrollAnchorY ∧ |travel e.midY s| < cfg.scrollNotchPx := by
  have htravel : Touchpad.travel e.midY s = e.midY - s.scrollAnchorY := by
    rw [Touchpad.travel, h.way hold hscroll]
    ring
  rw [keepsHold, hmove] at hkeeps
  dsimp only at hkeeps
  rw [hscroll, Bool.not_true, Bool.false_or, floatAbs_eq] at hkeeps
  have hnear : |e.midY - s.scrollAnchorY| ≤ cfg.tapSlopPx := by simpa [FloatOps.lt] using hkeeps
  have hless : cfg.tapSlopPx < cfg.scrollNotchPx := by simpa [FloatOps.lt] using hslop
  refine ⟨htravel, ?_⟩
  rw [htravel]
  exact lt_of_le_of_lt hnear hless

/-- So it does not turn the wheel. -/
theorem Measured.inside {s : State ℚ} (h : Measured s) {a : Action ℚ} (ha : SlopBelowNotch a) :
    TravelInside s a := by
  cases a with
  | touch e v cfg fuel =>
    intro _ hold hkeeps
    rw [turnsWheel]
    by_cases hmove : e.action = .move
    · by_cases hscroll : s.scrolling = true
      · obtain ⟨-, hless⟩ := h.travel (ha hmove).2 hold hscroll hmove hkeeps
        obtain ⟨hlow, hhigh⟩ := abs_lt.mp hless
        have hdown : FloatOps.le (Touchpad.travel e.midY s) (-cfg.scrollNotchPx) = false :=
          decide_eq_false (not_le.mpr hlow)
        have hup : FloatOps.le cfg.scrollNotchPx (Touchpad.travel e.midY s) = false :=
          decide_eq_false (not_le.mpr hhigh)
        rw [hdown, hup, Bool.or_false, Bool.and_false]
      · rw [Bool.eq_false_of_not_eq_true hscroll, Bool.and_false, Bool.false_and, Bool.false_and]
    · have hbeq : (e.action == .move) = false := beq_eq_false_iff_ne.mpr hmove
      rw [hbeq, Bool.false_and, Bool.false_and, Bool.false_and]
  | longPress => trivial
  | twoFingerHold => trivial
  | setMode m => trivial
  | setCursor x y => trivial

/-- Steps that leave alone what belongs to two fingers. -/
theorem Measured.of_two {s t : State ℚ} (h : Measured s) (htwo : t.two = s.two) : Measured t := by
  have hscrolling : t.scrolling = s.scrolling := congrArg TwoFinger.scrolling htwo
  have hlast : t.scrollLastY = s.scrollLastY := congrArg TwoFinger.scrollLastY htwo
  have haccum : t.scrollAccum = s.scrollAccum := congrArg TwoFinger.scrollAccum htwo
  have hanchor : t.scrollAnchorY = s.scrollAnchorY := congrArg TwoFinger.scrollAnchorY htwo
  have hfired : t.twoFingerRightClicked = s.twoFingerRightClicked :=
    congrArg TwoFinger.rightClicked htwo
  have hold : t.twoFingerHold = s.twoFingerHold := congrArg TwoFinger.hold htwo
  refine ⟨settled_of_two h.settled htwo, pending_of_two htwo h.pending, ?_, ?_⟩
  · rw [hold, hfired]
    exact h.fired
  · rw [hold, hscrolling, haccum, hlast, hanchor]
    exact h.way

/-- The way after a sample of two fingers. -/
theorem Measured.way_two {v : Viewport} {cfg : TouchpadConfig ℚ} {fuel : ℕ} {e : TouchEvent ℚ}
    {s t : State ℚ} (h : Measured s) (ha : SlopBelowNotch (.touch e v cfg fuel))
    (htwo : 2 ≤ e.pointerCount) (ht : onTouch v cfg fuel e s = some t)
    (hold : s.twoFingerHold = true) (hkeeps : keepsHold cfg e s = true)
    (hdown : e.action ≠ .pointerDown) (hscroll : t.scrolling = true) :
    t.scrollAccum = t.scrollLastY - t.scrollAnchorY := by
  rw [onTouch, if_pos htwo] at ht
  have hsame : some (dropPress s) = some t →
      t.scrollAccum = t.scrollLastY - t.scrollAnchorY := by
    intro hsame
    obtain rfl := Option.some_inj.mp hsame
    rw [dropPress_eq] at hscroll ⊢
    exact h.way hold hscroll
  rcases haction : e.action <;> simp only [scrollHandle, haction] at ht
  case pointerDown => exact absurd haction hdown
  case move =>
    obtain ⟨hslop, hless⟩ := ha haction
    by_cases hs : s.scrolling = true
    · have hnotch : 0 < cfg.scrollNotchPx := by
        simp only [FloatOps.lt, FloatOps.ofInt, Int.cast_zero, decide_eq_true_eq] at hslop hless
        exact lt_trans hslop hless
      obtain ⟨m, n, hstep⟩ := scrollMove_step hnotch hs ht
      obtain ⟨hturned, hlast⟩ := hstep.turned (h.fired hold)
      obtain ⟨htravel, hinside⟩ := h.travel hless hold hs haction hkeeps
      obtain ⟨hm, hn⟩ := hturned.quiet hinside
      rw [hturned.left, hm, hn, Nat.cast_zero, zero_mul, sub_zero, add_zero, hlast, hstep.anchorY]
      exact htravel
    · -- the way begins anew
      rw [Bool.not_eq_true] at hs
      rw [dropPress_eq, scrollMove, if_pos (by simp [hs])] at ht
      obtain rfl := Option.some_inj.mp ht
      exact (h.settled hs).trans (sub_self _).symm
  case down => exact hsame ht
  case other => exact hsame ht
  all_goals
    obtain rfl := Option.some_inj.mp ht
    cases hscroll

theorem measured_step {s s' : State ℚ} {a : Action ℚ} (hwithin : Within a)
    (hslop : SlopBelowNotch a) (h : Measured s) (hstep : step s a = some s') : Measured s' := by
  have hsettled := (settled_step h.settled hstep).1
  have hpending := pending_step h.pending hstep
  cases a with
  | touch e v cfg fuel =>
    rw [step] at hstep
    split at hstep <;> [skip; cases hstep]
    obtain ⟨t, ht, rfl⟩ := Option.map_eq_some_iff.mp hstep
    by_cases htwo : 2 ≤ e.pointerCount
    · have htouch := ht
      rw [onTouch, if_pos htwo] at ht
      have hdropped : (dropPress s).holdPending = (dropPress s).twoFingerHold := by
        rw [dropPress_eq]
        exact h.pending
      have hold : t.twoFingerHold = (s.twoFingerHold && keepsHold cfg e s) := by
        rw [hold_scrollHandle hdropped hwithin.2 ht, dropPress_eq]
        rfl
      have hfired : t.twoFingerRightClicked = s.twoFingerRightClicked := by
        rw [rightClicked_scrollHandle hwithin.2 ht, dropPress_eq]
      refine ⟨hsettled, hpending, fun harmed => ?_, fun harmed hscroll => ?_⟩
      · obtain ⟨hs, -⟩ := Bool.and_eq_true_iff.mp (hold.symm.trans harmed)
        exact hfired.trans (h.fired hs)
      · obtain ⟨hs, hkeeps⟩ := Bool.and_eq_true_iff.mp (hold.symm.trans harmed)
        exact h.way_two (t := t) hslop htwo htouch hs hkeeps hwithin.2 hscroll
    · rcases apart_onTouch (Nat.lt_of_not_le htwo) ht with hapart | rfl
      · exact h.of_two (congrArg Prod.fst hapart)
      · exact ⟨hsettled, hpending, h.fired, by rintro _ ⟨⟩⟩
  | longPress =>
    obtain ⟨hold, -, rfl⟩ := Option.map_eq_some_iff.mp hstep
    exact h.of_two (two_fireLongPress hold { s with longPress := none })
  | twoFingerHold =>
    rw [step] at hstep
    split at hstep <;> [skip; cases hstep]
    obtain rfl := Option.some_inj.mp hstep
    exact ⟨hsettled, hpending, by rintro ⟨⟩, by rintro ⟨⟩⟩
  | setMode m =>
    obtain rfl := Option.some_inj.mp hstep
    exact h.of_two rfl
  | setCursor x y =>
    obtain rfl := Option.some_inj.mp hstep
    exact h.of_two rfl

/-- From any reachable state, until the next fingers are put down, two fingers right-click
once at most, and if they do, they turn no wheel, neither before nor after. -/
theorem scroll_xor_rightClick {mouseMode : Bool} {pre as : List (Action ℚ)} {s t : State ℚ}
    {e : TouchEvent ℚ} {v : Viewport} {cfg : TouchpadConfig ℚ} {fuel : ℕ}
    (hpre : run step (initial mouseMode) pre = some s) (htwo : 2 ≤ e.pointerCount)
    (hdown : e.action = .pointerDown) (hwithin : ∀ a ∈ as, Within a)
    (hslop : ∀ a ∈ as, SlopBelowNotch a)
    (hrun : run step s (.touch e v cfg fuel :: as) = some t) : Exclusive (sent s t) := by
  have hsettled := (settled_run (fun _ => Int.cast_zero) hpre).1
  have hpending : s.holdPending = s.twoFingerHold :=
    run_invariant_of_step (fun _ _ _ h hstep => pending_step h hstep) rfl hpre
  obtain ⟨s₀, hstart, hrun⟩ := run_cons_eq_some.mp hrun
  have hopened := opens_step hsettled ⟨htwo, .inl hdown⟩ hstart
  obtain ⟨⟨l₀, hlog₀, hlanded⟩, hfired⟩ := landed_down hpending htwo hdown hstart
  have hmeasured : Measured s₀ := ⟨(settled_step hsettled hstart).1, hlanded.pending,
    fun _ => hfired, fun _ _ => by rw [hopened.accum, hopened.lastY, hopened.anchorY, sub_self]⟩
  have hmeets : Meets step (fun _ a => Within a ∧ SlopBelowNotch a) s₀ as :=
    meets_of_forall_mem (fun a ha => ⟨hwithin a ha, hslop a ha⟩) s₀
  have hinside : Meets step TravelInside s₀ as :=
    Meets.of_invariant (fun _ _ _ h hok hstep => measured_step hok.1 hok.2 h hstep)
      (fun _ _ h hok => h.inside hok.2) hmeasured hmeets
  obtain ⟨l, hlog, hend⟩ := landed_run hwithin hinside hlanded hrun
  have hsent : t.log = (l ++ l₀) ++ s.log := by rw [hlog, hlog₀, List.append_assoc]
  rw [sent_eq hsent]
  refine Phase.exclusive (s := t) ?_
  rw [List.filter_append]
  exact hend.phase

/-! ### Held, then moved -/

/-- The hold fires, and then the fingers go down by four notches. -/
def holdThenDrag : List (Action ℚ) := .twoFingerHold :: dragDown

/-- It is a right click only. -/
theorem holdThenDrag_exclusive :
    ∃ s t, run step (initial true) [finger .down 200 200] = some s ∧
      run step s (fingers .pointerDown 200 200 :: holdThenDrag) = some t ∧
      Exclusive (sent s t) := by
  have heval : ((run step (initial true) [finger .down 200 200]).bind fun s =>
      run step s (fingers .pointerDown 200 200 :: holdThenDrag)).isSome = true := by
    decide +kernel
  obtain ⟨t, heval⟩ := Option.isSome_iff_exists.mp heval
  obtain ⟨s, hs, ht⟩ := Option.bind_eq_some_iff.mp heval
  refine ⟨s, t, hs, ht, scroll_xor_rightClick hs le_rfl rfl ?_ ?_ ht⟩
  · simp [holdThenDrag, dragDown, fingers, Within]
  · have hslop : (12 : ℚ) < 24 := by norm_num
    simp [holdThenDrag, dragDown, fingers, SlopBelowNotch, defaults, FloatOps.lt, FloatOps.ofInt,
      hslop]

/-! ### Single precision -/

/-- A slop of 9, and the next number as the notch. -/
def close : TouchpadConfig Float32 := ⟨.tapTapHold, 9, Float32.ofBits 0x41100001, 300, 20⟩

def closeFingers (action : TouchAction) (y : Float32) : Action Float32 :=
  .touch ⟨action, 2, 200, y, 300, y, 0⟩ square close 1

/-- Two fingers go up by the slop, down by 6 / 2 ^ 23 in two samples, each of them too little
for the travel of -9 to change, and up by as much at once, and are held. -/
def coarse : List (Action Float32) :=
  [closeFingers .move 0, closeFingers .move (3 / 8388608), closeFingers .move (6 / 8388608),
   closeFingers .move 0, .twoFingerHold]

/-- They turn the wheel and right-click. -/
theorem coarse_scrolls_and_clicks :
    ∃ s t, run step (initial true) [.touch ⟨.down, 1, 200, 9, 0, 0, 0⟩ square close 0] = some s ∧
      (∀ a ∈ coarse, Within a) ∧ (∀ a ∈ coarse, SlopBelowNotch a) ∧
      run step s (closeFingers .pointerDown 9 :: coarse) = some t ∧ ¬ Exclusive (sent s t) := by
  have heval : ((run step (initial true)
      [.touch ⟨.down, 1, 200, 9, 0, 0, 0⟩ square close 0]).bind fun s =>
      (run step s (closeFingers .pointerDown 9 :: coarse)).map fun t =>
        (sent s t).filter otherButton) =
      some (rightClick ++ [.sendButton wheelDown false, .sendButton wheelDown true]) := by
    decide +kernel
  obtain ⟨s, hs, heval⟩ := Option.bind_eq_some_iff.mp heval
  obtain ⟨t, ht, hsent⟩ := Option.map_eq_some_iff.mp heval
  have hslop : FloatOps.lt (FloatOps.ofInt 0) close.tapSlopPx = true ∧
      FloatOps.lt close.tapSlopPx close.scrollNotchPx = true := by decide +kernel
  refine ⟨s, t, hs, ?_, ?_, ht, fun h => ?_⟩
  · simp [coarse, closeFingers, Within]
  · simp [coarse, closeFingers, SlopBelowNotch, hslop]
  · have hmem : ∀ e ∈ rightClick ++ [.sendButton wheelDown false, .sendButton wheelDown true],
        e ∈ sent s t := fun e he => List.mem_of_mem_filter (hsent ▸ he)
    exact h.2 (hmem _ (by decide)) _ (hmem (.sendButton wheelDown true) (by decide))
      ⟨false, true, rfl⟩

end Touchpad
