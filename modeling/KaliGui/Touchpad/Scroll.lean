/-
Scrolling with two fingers (`ScrollGestureHandler.kt`).

The travel of two fingers is added up, and each whole notch of it is turned into a turn of
the wheel.  What the turns amount to, together with what is left over, is the way from
where the fingers were put down, however many samples it took.  Numbers are exact here.

* `turns` — the turns of the wheel among what was sent;
* `Turned`, `scrollLoops_turned`, `scrollLoops_total` — the two loops of a sample;
* `ScrollStep`, `scrollMove_step` — a sample of two fingers that scroll;
* `Opens`, `InSegment` — the sample a segment starts with, and the steps up to the next that
  puts a finger down or lifts one;
* `Conserved` — turns and leftover make up the way;
* `scroll_conserved` — it is so after every step of a segment, and a movement in one direction
  turns the wheel once for every whole notch, unless the hold has fired.
-/
import KaliGui.Lib.Rounding
import KaliGui.Touchpad.Tail
import Mathlib.Algebra.Order.Archimedean.Basic
import Mathlib.Tactic.Linarith

namespace Touchpad

open Machine Rounding

/-! ### Turns of the wheel -/

/-- The turns up, or down, among some events. -/
def turns (up : Bool) (es : List SinkEvent) : ℕ :=
  es.count (.sendButton (if up then wheelUp else wheelDown) true)

theorem turns_append (up : Bool) (es fs : List SinkEvent) :
    turns up (es ++ fs) = turns up es + turns up fs := List.count_append

theorem turns_wheelTurns (up : Bool) (n : ℕ) : turns up (wheelTurns up n) = n := by
  induction n with
  | zero => rfl
  | succ n ih =>
    rw [wheelTurns, turns_append, ih]
    cases up <;> rfl

theorem turns_wheelTurns_other {up up' : Bool} (h : up ≠ up') (n : ℕ) :
    turns up (wheelTurns up' n) = 0 := by
  induction n with
  | zero => rfl
  | succ n ih =>
    rw [wheelTurns, turns_append, ih]
    cases up <;> cases up' <;> first | exact absurd rfl h | rfl

theorem turns_releases {F : Type*} (up : Bool) (s : State F) : turns up (releases s) = 0 := by
  refine List.count_eq_zero.mpr fun hmem => ?_
  have hleft := eq_of_mem_releases hmem
  cases up <;> cases hleft

/-! ### The loops -/

/-- The loops make `a'` of the travel `a`, with `m` turns down and `n` turns up. -/
structure Turned (notch a : ℚ) (m n : ℕ) (a' : ℚ) : Prop where
  left : a' = a + m * notch - n * notch
  bound : |a'| < notch
  quiet : |a| < notch → m = 0 ∧ n = 0
  up : 0 ≤ a → m = 0 ∧ 0 ≤ a'
  down : a ≤ 0 → n = 0 ∧ a' ≤ 0

theorem scrollDown_spec {notch : ℚ} {fuel : ℕ} {s s' : State ℚ}
    (h : scrollDown notch fuel s = some s') :
    ∃ n : ℕ, s' = { s with
        scrollAccum := s.scrollAccum + n * notch, log := wheelTurns false n ++ s.log } ∧
      -notch < s'.scrollAccum ∧ (-notch < s.scrollAccum → n = 0) ∧
        (n ≠ 0 → s'.scrollAccum ≤ 0) := by
  refine (scrollDown_isWhile notch).induction (R := fun s s' => ∃ n : ℕ, s' = { s with
      scrollAccum := s.scrollAccum + n * notch, log := wheelTurns false n ++ s.log } ∧
    -notch < s'.scrollAccum ∧ (-notch < s.scrollAccum → n = 0) ∧ (n ≠ 0 → s'.scrollAccum ≤ 0))
    (fun s hstop => ?_) (fun s s' hturn => ?_) h
  · have hgt : -notch < s.scrollAccum := by simpa [FloatOps.le] using hstop
    exact ⟨0, by simp [wheelTurns], hgt, fun _ => rfl, fun h0 => absurd rfl h0⟩
  · rintro ⟨n, rfl, hbound, hquiet, hneg⟩
    have hle : s.scrollAccum ≤ -notch := by simpa [FloatOps.le] using hturn
    refine ⟨n + 1, ?_, hbound, fun hgt => absurd hle (not_le.mpr hgt), fun _ => ?_⟩
    · simp only [wheel, State.emit, wheelTurns, List.append_assoc, List.cons_append,
        List.nil_append, Nat.cast_succ]
      congr 1
      ring
    · -- the last turn was taken below zero
      by_cases hn : n = 0
      · subst hn
        show s.scrollAccum + notch + ((0 : ℕ) : ℚ) * notch ≤ 0
        rw [Nat.cast_zero, zero_mul]
        linarith
      · exact hneg hn

theorem scrollUp_spec {notch : ℚ} {fuel : ℕ} {s s' : State ℚ}
    (h : scrollUp notch fuel s = some s') :
    ∃ n : ℕ, s' = { s with
        scrollAccum := s.scrollAccum - n * notch, log := wheelTurns true n ++ s.log } ∧
      s'.scrollAccum < notch ∧ (s.scrollAccum < notch → n = 0) ∧
        (n ≠ 0 → 0 ≤ s'.scrollAccum) := by
  refine (scrollUp_isWhile notch).induction (R := fun s s' => ∃ n : ℕ, s' = { s with
      scrollAccum := s.scrollAccum - n * notch, log := wheelTurns true n ++ s.log } ∧
    s'.scrollAccum < notch ∧ (s.scrollAccum < notch → n = 0) ∧ (n ≠ 0 → 0 ≤ s'.scrollAccum))
    (fun s hstop => ?_) (fun s s' hturn => ?_) h
  · have hlt : s.scrollAccum < notch := by simpa [FloatOps.le] using hstop
    exact ⟨0, by simp [wheelTurns], hlt, fun _ => rfl, fun h0 => absurd rfl h0⟩
  · rintro ⟨n, rfl, hbound, hquiet, hpos⟩
    have hle : notch ≤ s.scrollAccum := by simpa [FloatOps.le] using hturn
    refine ⟨n + 1, ?_, hbound, fun hlt => absurd hle (not_le.mpr hlt), fun _ => ?_⟩
    · simp only [wheel, State.emit, wheelTurns, List.append_assoc, List.cons_append,
        List.nil_append, Nat.cast_succ]
      congr 1
      ring
    · by_cases hn : n = 0
      · subst hn
        show 0 ≤ s.scrollAccum - notch - ((0 : ℕ) : ℚ) * notch
        rw [Nat.cast_zero, zero_mul]
        linarith
      · exact hpos hn

/-- Both loops: what is left is less than a notch, and the travel is turned in one
direction only. -/
theorem scrollLoops_turned {notch : ℚ} (hnotch : 0 < notch) {fuel : ℕ} {s s' : State ℚ}
    (h : (scrollDown notch fuel s).bind (scrollUp notch fuel) = some s') :
    ∃ (m n : ℕ) (a : ℚ), Turned notch s.scrollAccum m n a ∧ s' = { s with
      scrollAccum := a, log := wheelTurns true n ++ (wheelTurns false m ++ s.log) } := by
  obtain ⟨t, hdown, hup⟩ := Option.bind_eq_some_iff.mp h
  obtain ⟨m, rfl, hlow, hquietDown, hneg⟩ := scrollDown_spec hdown
  obtain ⟨n, rfl, hhigh, hquietUp, hpos⟩ := scrollUp_spec hup
  dsimp only at hlow hneg hhigh hquietUp hpos
  refine ⟨m, n, _, ⟨rfl, ?_, fun hquiet => ?_, fun hup => ?_, fun hdown => ?_⟩, rfl⟩
  · rw [abs_lt]
    refine ⟨?_, hhigh⟩
    by_cases hn : n = 0
    · rw [hn, Nat.cast_zero, zero_mul, sub_zero]
      exact hlow
    · linarith [hpos hn]
  · obtain ⟨hgt, hlt⟩ := abs_lt.mp hquiet
    have hm := hquietDown hgt
    refine ⟨hm, hquietUp ?_⟩
    rw [hm, Nat.cast_zero, zero_mul, add_zero]
    exact hlt
  · have hm := hquietDown (by linarith)
    refine ⟨hm, ?_⟩
    by_cases hn : n = 0
    · rw [hm, hn, Nat.cast_zero, zero_mul, add_zero, sub_zero]
      exact hup
    · exact hpos hn
  · -- below zero, the turns down end at zero at the latest
    have hle : s.scrollAccum + m * notch ≤ 0 := by
      by_cases hm : m = 0
      · rw [hm, Nat.cast_zero, zero_mul, add_zero]
        exact hdown
      · exact hneg hm
    have hn := hquietUp (by linarith)
    refine ⟨hn, ?_⟩
    rw [hn, Nat.cast_zero, zero_mul, sub_zero]
    exact hle

/-- Every turn takes a notch off what is to be scrolled. -/
theorem scrollDown_total {notch : ℚ} (hnotch : 0 < notch) (s : State ℚ) :
    ∃ (N : ℕ) (s' : State ℚ), ∀ n, N ≤ n → scrollDown notch n s = some s' := by
  refine (scrollDown_isWhile notch).total (fun s => -s.scrollAccum) hnotch
    (fun s hturn => ?_) (fun s _ => ?_) s
  · have hle : s.scrollAccum ≤ -notch := by simpa [FloatOps.le] using hturn
    linarith
  · show -(s.scrollAccum + notch) = -s.scrollAccum - notch
    ring

theorem scrollUp_total {notch : ℚ} (hnotch : 0 < notch) (s : State ℚ) :
    ∃ (N : ℕ) (s' : State ℚ), ∀ n, N ≤ n → scrollUp notch n s = some s' := by
  refine (scrollUp_isWhile notch).total (fun s => s.scrollAccum) hnotch
    (fun s hturn => ?_) (fun s _ => rfl) s
  simpa [FloatOps.le] using hturn

theorem scrollLoops_total {notch : ℚ} (hnotch : 0 < notch) (s : State ℚ) :
    ∃ (N : ℕ) (s' : State ℚ), ∀ n, N ≤ n →
      (scrollDown notch n s).bind (scrollUp notch n) = some s' := by
  obtain ⟨N, t, hdown⟩ := scrollDown_total hnotch s
  obtain ⟨M, s', hup⟩ := scrollUp_total hnotch t
  refine ⟨max N M, s', fun n hn => ?_⟩
  rw [hdown n (le_of_max_le_left hn), Option.bind_some, hup n (le_of_max_le_right hn)]

/-! ### A sample of two fingers -/

/-- A `MOVE` to the height `y` by two fingers that scroll, with `m` turns down and `n`
turns up.  After a right click it does nothing. -/
structure ScrollStep (cfg : TouchpadConfig ℚ) (y : ℚ) (m n : ℕ) (s s' : State ℚ) : Prop where
  log : s'.log = wheelTurns true n ++ (wheelTurns false m ++ (releases s ++ s.log))
  scrolling : s'.scrolling = true
  anchorY : s'.scrollAnchorY = s.scrollAnchorY
  rightClicked : s'.twoFingerRightClicked = s.twoFingerRightClicked
  ignored : s.twoFingerRightClicked = true →
    m = 0 ∧ n = 0 ∧ s'.scrollAccum = s.scrollAccum ∧ s'.scrollLastY = s.scrollLastY
  turned : s.twoFingerRightClicked = false →
    Turned cfg.scrollNotchPx (travel y s) m n s'.scrollAccum ∧ s'.scrollLastY = y

theorem scrollMove_step {cfg : TouchpadConfig ℚ} (hnotch : 0 < cfg.scrollNotchPx) {fuel : ℕ}
    {y : ℚ} {s s' : State ℚ} (hscroll : s.scrolling = true)
    (h : scrollMove cfg fuel y (dropPress s) = some s') : ∃ m n, ScrollStep cfg y m n s s' := by
  have hdrop : (dropPress s).scrolling = true := by
    rw [dropPress_eq]
    exact hscroll
  rw [scrollMove, hdrop, if_neg (by simp)] at h
  -- calling the hold off changes nothing the loops read
  obtain ⟨w, hw, hlog, hwscroll, hwlast, hwaccum, hwanchor, hwright⟩ : ∃ w : State ℚ,
      (if (dropPress s).holdPending &&
          FloatOps.lt cfg.tapSlopPx (FloatOps.abs (y - (dropPress s).scrollAnchorY)) then
        cancelHold (dropPress s) else dropPress s) = w ∧ w.log = releases s ++ s.log ∧
      w.scrolling = true ∧ w.scrollLastY = s.scrollLastY ∧ w.scrollAccum = s.scrollAccum ∧
      w.scrollAnchorY = s.scrollAnchorY ∧ w.twoFingerRightClicked = s.twoFingerRightClicked := by
    refine ⟨_, rfl, ?_⟩
    rw [dropPress_eq]
    dsimp only
    split
    · rw [cancelHold]
      split <;> exact ⟨rfl, hscroll, rfl, rfl, rfl, rfl⟩
    · exact ⟨rfl, hscroll, rfl, rfl, rfl, rfl⟩
  rw [hw] at h
  rw [scrollBy] at h
  split at h
  next hright =>
    obtain rfl := Option.some_inj.mp h
    rw [hwright] at hright
    exact ⟨0, 0, {
      log := hlog, scrolling := hwscroll, anchorY := hwanchor, rightClicked := hwright
      ignored := fun _ => ⟨rfl, rfl, hwaccum, hwlast⟩
      turned := fun hnot => absurd (hright.symm.trans hnot) (by simp) }⟩
  next hright =>
    obtain ⟨m, n, a, hturned, rfl⟩ := scrollLoops_turned hnotch h
    rw [hwright] at hright
    dsimp only at hturned
    rw [hwaccum, hwlast] at hturned
    refine ⟨m, n, ?_⟩
    exact {
      log := by rw [← hlog]
      scrolling := hwscroll, anchorY := hwanchor, rightClicked := hwright
      ignored := fun hyes => absurd hyes hright
      turned := fun _ => ⟨hturned, rfl⟩ }

/-! ### Segments -/

/-- The sample puts two fingers down, or starts from where they are once one was lifted. -/
def Opens (s : State ℚ) (e : TouchEvent ℚ) : Prop :=
  2 ≤ e.pointerCount ∧ (e.action = .pointerDown ∨ e.action = .move ∧ s.scrolling = false)

/-- A step that neither puts a finger down nor lifts one, nor is the hold. -/
def InSegment (notch : ℚ) : Action ℚ → Prop
  | .touch e _ cfg _ =>
    2 ≤ e.pointerCount ∧ (e.action = .move ∧ cfg.scrollNotchPx = notch ∨ e.action = .other)
  | .setMode _ | .setCursor _ _ => True
  | _ => False

/-- The heights of the `MOVE`s. -/
def heights : List (Action ℚ) → List ℚ
  | [] => []
  | .touch e _ _ _ :: as => if e.action = .move then e.midY :: heights as else heights as
  | _ :: as => heights as

def withFuel (n : ℕ) : Action ℚ → Action ℚ
  | .touch e v cfg _ => .touch e v cfg n
  | a => a

/-- Whether the hold has fired since two fingers were put down last. -/
def holdStep (fired : Bool) : Action ℚ → Bool
  | .touch e _ _ _ => fired && !(decide (2 ≤ e.pointerCount) && e.action == .pointerDown)
  | .twoFingerHold => true
  | _ => fired

def holdFired (as : List (Action ℚ)) : Bool := as.foldl holdStep false

/-- The turns and what is left over make up the way of the fingers. -/
structure Conserved (notch : ℚ) (s t : State ℚ) : Prop where
  total : ((turns true (sent s t) : ℚ) - turns false (sent s t)) * notch + t.scrollAccum =
    t.scrollLastY - t.scrollAnchorY
  bound : |t.scrollAccum| < notch

/-- The fingers go in one direction. -/
def OneWay (ys : List ℚ) : Prop := ys.Pairwise (· ≤ ·) ∨ ys.Pairwise (· ≥ ·)

/-- What the steps `as` of a segment do; `es` is what they sent. -/
structure Scrolls (notch : ℚ) (as : List (Action ℚ)) (s t : State ℚ) (es : List SinkEvent) :
    Prop where
  log : t.log = es ++ s.log
  total : ((turns true es : ℚ) - turns false es) * notch + t.scrollAccum =
    s.scrollAccum + (t.scrollLastY - s.scrollLastY)
  bound : |t.scrollAccum| < notch
  scrolling : t.scrolling = true
  anchorY : t.scrollAnchorY = s.scrollAnchorY
  rightClicked : t.twoFingerRightClicked = s.twoFingerRightClicked
  ignored : s.twoFingerRightClicked = true → turns true es = 0 ∧ turns false es = 0
  last : s.twoFingerRightClicked = false → t.scrollLastY = (heights as).getLastD s.scrollLastY
  up : s.twoFingerRightClicked = false → (s.scrollLastY :: heights as).Pairwise (· ≤ ·) →
    0 ≤ s.scrollAccum → turns false es = 0 ∧ 0 ≤ t.scrollAccum
  down : s.twoFingerRightClicked = false → (s.scrollLastY :: heights as).Pairwise (· ≥ ·) →
    s.scrollAccum ≤ 0 → turns true es = 0 ∧ t.scrollAccum ≤ 0

/-- A step that leaves alone what belongs to two fingers, and turns no wheel. -/
theorem Scrolls.of_two {notch : ℚ} {a : Action ℚ} {s t : State ℚ} {es : List SinkEvent}
    (hscroll : s.scrolling = true) (hbound : |s.scrollAccum| < notch) (htwo : t.two = s.two)
    (hlog : t.log = es ++ s.log) (hturns : ∀ up, turns up es = 0) (hheights : heights [a] = []) :
    Scrolls notch [a] s t es := by
  have hscrolling : t.scrolling = s.scrolling := congrArg TwoFinger.scrolling htwo
  have hlast : t.scrollLastY = s.scrollLastY := congrArg TwoFinger.scrollLastY htwo
  have haccum : t.scrollAccum = s.scrollAccum := congrArg TwoFinger.scrollAccum htwo
  have hanchor : t.scrollAnchorY = s.scrollAnchorY := congrArg TwoFinger.scrollAnchorY htwo
  have hright : t.twoFingerRightClicked = s.twoFingerRightClicked :=
    congrArg TwoFinger.rightClicked htwo
  exact {
    log := hlog
    total := by
      rw [hturns, hturns, haccum, hlast]
      ring
    bound := by rwa [haccum]
    scrolling := hscrolling.trans hscroll
    anchorY := hanchor
    rightClicked := hright
    ignored := fun _ => ⟨hturns true, hturns false⟩
    last := fun _ => by rw [hheights, hlast]; rfl
    up := fun _ _ hup => ⟨hturns false, by rwa [haccum]⟩
    down := fun _ _ hdown => ⟨hturns true, by rwa [haccum]⟩ }

/-- A `MOVE` of two fingers. -/
theorem ScrollStep.scrolls {cfg : TouchpadConfig ℚ} {e : TouchEvent ℚ} {m n : ℕ} {s t : State ℚ}
    (h : ScrollStep cfg e.midY m n s t) (v : Viewport) (fuel : ℕ)
    (hbound : |s.scrollAccum| < cfg.scrollNotchPx) (hmove : e.action = .move) :
    Scrolls cfg.scrollNotchPx [.touch e v cfg fuel] s t
      (wheelTurns true n ++ (wheelTurns false m ++ releases s)) := by
  have hup : turns true (wheelTurns true n ++ (wheelTurns false m ++ releases s)) = n := by
    rw [turns_append, turns_append, turns_wheelTurns, turns_wheelTurns_other (by simp),
      turns_releases]
    rfl
  have hdown : turns false (wheelTurns true n ++ (wheelTurns false m ++ releases s)) = m := by
    rw [turns_append, turns_append, turns_wheelTurns, turns_wheelTurns_other (by simp),
      turns_releases, Nat.zero_add]
    rfl
  have hheights : heights [.touch e v cfg fuel] = [e.midY] := if_pos hmove
  have hlog : t.log = (wheelTurns true n ++ (wheelTurns false m ++ releases s)) ++ s.log := by
    rw [h.log]
    simp only [List.append_assoc]
  cases hright : s.twoFingerRightClicked with
  | true =>
    -- after a right click the wheel stays still
    obtain ⟨hm, hn, haccum, hlast⟩ := h.ignored hright
    exact {
      log := hlog
      total := by
        rw [hup, hdown, hm, hn, haccum, hlast]
        ring
      bound := by rwa [haccum]
      scrolling := h.scrolling
      anchorY := h.anchorY
      rightClicked := h.rightClicked
      ignored := fun _ => ⟨hup.trans hn, hdown.trans hm⟩
      last := fun hnot => absurd (hright.symm.trans hnot) (by simp)
      up := fun hnot => absurd (hright.symm.trans hnot) (by simp)
      down := fun hnot => absurd (hright.symm.trans hnot) (by simp) }
  | false =>
    obtain ⟨hturned, hlast⟩ := h.turned hright
    have htravel : travel e.midY s = s.scrollAccum + (e.midY - s.scrollLastY) := rfl
    exact {
      log := hlog
      total := by
        rw [hup, hdown, hturned.left, htravel, hlast]
        ring
      bound := hturned.bound
      scrolling := h.scrolling
      anchorY := h.anchorY
      rightClicked := h.rightClicked
      ignored := fun hyes => absurd (hright.symm.trans hyes) (by simp)
      last := fun _ => by rw [hheights, hlast]; rfl
      up := fun _ hway hpos => by
        rw [hheights, List.pairwise_pair] at hway
        obtain ⟨hm, ha⟩ := hturned.up (by rw [htravel]; linarith)
        exact ⟨hdown.trans hm, ha⟩
      down := fun _ hway hneg => by
        rw [hheights, List.pairwise_pair] at hway
        obtain ⟨hn, ha⟩ := hturned.down (by rw [htravel]; linarith)
        exact ⟨hup.trans hn, ha⟩ }

theorem Scrolls.refl {notch : ℚ} {s : State ℚ} (hscroll : s.scrolling = true)
    (hbound : |s.scrollAccum| < notch) : Scrolls notch [] s s [] where
  log := rfl
  total := by
    show ((0 : ℕ) - (0 : ℕ) : ℚ) * notch + s.scrollAccum = _
    rw [sub_self, zero_mul, zero_add, sub_self, add_zero]
  bound := hbound
  scrolling := hscroll
  anchorY := rfl
  rightClicked := rfl
  ignored _ := ⟨rfl, rfl⟩
  last _ := rfl
  up _ _ hup := ⟨rfl, hup⟩
  down _ _ hdown := ⟨rfl, hdown⟩

/-- One step goes to one height at most. -/
theorem heights_cons (a : Action ℚ) (as : List (Action ℚ)) :
    heights [a] = [] ∧ heights (a :: as) = heights as ∨
      ∃ y, heights [a] = [y] ∧ heights (a :: as) = y :: heights as := by
  cases a with
  | touch e v cfg fuel =>
    by_cases hmove : e.action = .move
    · exact Or.inr ⟨e.midY, if_pos hmove, if_pos hmove⟩
    · exact Or.inl ⟨if_neg hmove, if_neg hmove⟩
  | longPress => exact Or.inl ⟨rfl, rfl⟩
  | twoFingerHold => exact Or.inl ⟨rfl, rfl⟩
  | setMode m => exact Or.inl ⟨rfl, rfl⟩
  | setCursor x y => exact Or.inl ⟨rfl, rfl⟩

/-- A step and then the others. -/
theorem Scrolls.cons {notch : ℚ} {a : Action ℚ} {as : List (Action ℚ)} {s t u : State ℚ}
    {es fs : List SinkEvent} (h : Scrolls notch [a] s t es) (h' : Scrolls notch as t u fs) :
    Scrolls notch (a :: as) s u (fs ++ es) := by
  -- where the fingers are after the step parts their way in two
  have hsplit : ∀ R : ℚ → ℚ → Prop, s.twoFingerRightClicked = false →
      (s.scrollLastY :: heights (a :: as)).Pairwise R →
        (s.scrollLastY :: heights [a]).Pairwise R ∧ (t.scrollLastY :: heights as).Pairwise R := by
    intro R hright hway
    have hlast := h.last hright
    rcases heights_cons a as with ⟨hnone, hrest⟩ | ⟨y, hy, hrest⟩
    · rw [hrest] at hway
      rw [hnone] at hlast ⊢
      rw [hlast]
      exact ⟨List.pairwise_singleton _ _, hway⟩
    · rw [hrest] at hway
      rw [hy] at hlast ⊢
      rw [hlast]
      exact ⟨List.pairwise_pair.mpr (List.rel_of_pairwise_cons hway List.mem_cons_self),
        hway.of_cons⟩
  exact {
    log := by rw [h'.log, h.log, List.append_assoc]
    total := by
      have htotal := h.total
      have htotal' := h'.total
      rw [turns_append, turns_append]
      push_cast
      linarith
    bound := h'.bound
    scrolling := h'.scrolling
    anchorY := h'.anchorY.trans h.anchorY
    rightClicked := h'.rightClicked.trans h.rightClicked
    ignored := fun hright => by
      obtain ⟨hup, hdown⟩ := h.ignored hright
      obtain ⟨hup', hdown'⟩ := h'.ignored (h.rightClicked.trans hright)
      rw [turns_append, turns_append, hup, hdown, hup', hdown']
      exact ⟨rfl, rfl⟩
    last := fun hright => by
      rw [h'.last (h.rightClicked.trans hright), h.last hright]
      rcases heights_cons a as with ⟨hnone, hrest⟩ | ⟨y, hy, hrest⟩
      · rw [hnone, hrest, List.getLastD_nil]
      · rw [hy, hrest, List.getLastD_cons, List.getLastD_cons, List.getLastD_nil]
    up := fun hright hway hpos => by
      obtain ⟨hfirst, hrest⟩ := hsplit _ hright hway
      obtain ⟨hdown, hleft⟩ := h.up hright hfirst hpos
      obtain ⟨hdown', hleft'⟩ := h'.up (h.rightClicked.trans hright) hrest hleft
      rw [turns_append, hdown, hdown']
      exact ⟨rfl, hleft'⟩
    down := fun hright hway hneg => by
      obtain ⟨hfirst, hrest⟩ := hsplit _ hright hway
      obtain ⟨hup, hleft⟩ := h.down hright hfirst hneg
      obtain ⟨hup', hleft'⟩ := h'.down (h.rightClicked.trans hright) hrest hleft
      rw [turns_append, hup, hup']
      exact ⟨rfl, hleft'⟩ }

/-- A step of a segment. -/
theorem scrolls_step {notch : ℚ} (hnotch : 0 < notch) {a : Action ℚ} (ha : InSegment notch a)
    {s s' : State ℚ} (hscroll : s.scrolling = true) (hbound : |s.scrollAccum| < notch)
    (hstep : step s a = some s') : ∃ es, Scrolls notch [a] s s' es := by
  cases a with
  | touch e v cfg fuel =>
    obtain ⟨htwo, hkind⟩ := ha
    rw [step] at hstep
    split at hstep <;> [skip; cases hstep]
    obtain ⟨t, ht, rfl⟩ := Option.map_eq_some_iff.mp hstep
    rw [onTouch, if_pos htwo] at ht
    rcases hkind with ⟨hmove, hcfg⟩ | hother
    · subst hcfg
      simp only [scrollHandle, hmove] at ht
      obtain ⟨m, n, hscrolls⟩ := scrollMove_step hnotch hscroll ht
      have h := hscrolls.scrolls v fuel hbound hmove
      exact ⟨_, { h with }⟩
    · simp only [scrollHandle, hother] at ht
      obtain rfl := Option.some_inj.mp ht
      refine ⟨releases s, Scrolls.of_two hscroll hbound (two_dropPress s) ?_
        (fun up => turns_releases up s) ?_⟩
      · rw [dropPress_eq]
      · exact if_neg (by rw [hother]; simp)
  | longPress => exact absurd ha id
  | twoFingerHold => exact absurd ha id
  | setMode m =>
    obtain rfl := Option.some_inj.mp hstep
    exact ⟨[], Scrolls.of_two hscroll hbound rfl rfl (fun _ => rfl) rfl⟩
  | setCursor x y =>
    obtain rfl := Option.some_inj.mp hstep
    exact ⟨[.updateCursor x y],
      Scrolls.of_two hscroll hbound rfl rfl (fun up => by cases up <;> rfl) rfl⟩

theorem scrolls_run {notch : ℚ} (hnotch : 0 < notch) {as : List (Action ℚ)}
    (has : ∀ a ∈ as, InSegment notch a) {s t : State ℚ} (hscroll : s.scrolling = true)
    (hbound : |s.scrollAccum| < notch) (hrun : run step s as = some t) :
    ∃ es, Scrolls notch as s t es := by
  induction as generalizing s with
  | nil =>
    obtain rfl := Option.some_inj.mp hrun
    exact ⟨[], Scrolls.refl hscroll hbound⟩
  | cons a as ih =>
    obtain ⟨s', hstep, hrun⟩ := run_cons_eq_some.mp hrun
    obtain ⟨es, h⟩ := scrolls_step hnotch (has a List.mem_cons_self) hscroll hbound hstep
    obtain ⟨fs, h'⟩ := ih (fun b hb => has b (List.mem_cons_of_mem a hb)) h.scrolling h.bound hrun
    exact ⟨fs ++ es, h.cons h'⟩

/-! ### A segment goes through -/

theorem scrollMove_total (cfg : TouchpadConfig ℚ) (hnotch : 0 < cfg.scrollNotchPx) (y : ℚ)
    (s : State ℚ) :
    ∃ (N : ℕ) (s' : State ℚ), ∀ n, N ≤ n → scrollMove cfg n y s = some s' := by
  have hby : ∀ u : State ℚ, ∃ (N : ℕ) (u' : State ℚ), ∀ n, N ≤ n →
      scrollBy cfg n y u = some u' := by
    intro u
    by_cases hright : u.twoFingerRightClicked = true
    · exact ⟨0, u, fun n _ => by rw [scrollBy, if_pos hright]⟩
    · obtain ⟨N, u', hu'⟩ := scrollLoops_total hnotch
        { u with scrollLastY := y, scrollAccum := u.scrollAccum + (y - u.scrollLastY) }
      refine ⟨N, u', fun n hn => ?_⟩
      rw [scrollBy, if_neg hright]
      exact hu' n hn
  by_cases hscroll : s.scrolling = true
  · obtain ⟨N, s', hs'⟩ := hby (if s.holdPending &&
        FloatOps.lt cfg.tapSlopPx (FloatOps.abs (y - s.scrollAnchorY)) then cancelHold s else s)
    refine ⟨N, s', fun n hn => ?_⟩
    rw [scrollMove, hscroll, if_neg (by simp)]
    exact hs' n hn
  · refine ⟨0, { s with scrolling := true, scrollLastY := y, scrollAnchorY := y }, fun n _ => ?_⟩
    rw [scrollMove, if_pos (by simpa using hscroll)]

/-- With fuel enough, a step of a segment does not fail. -/
theorem segment_step_total {notch : ℚ} (hnotch : 0 < notch) {a : Action ℚ}
    (ha : InSegment notch a) {s : State ℚ} (htouching : s.touching = true) :
    ∃ (N : ℕ) (s' : State ℚ), s'.touching = true ∧
      ∀ n, N ≤ n → step s (withFuel n a) = some s' := by
  cases a with
  | touch e v cfg fuel =>
    obtain ⟨htwo, hkind⟩ := ha
    have hfrom : ∀ action : TouchAction, e.action = action → action.ends = false →
        action ≠ .down → (∃ (N : ℕ) (u : State ℚ), ∀ n, N ≤ n →
          scrollHandle cfg n e (dropPress s) = some u) →
        ∃ (N : ℕ) (s' : State ℚ), s'.touching = true ∧
          ∀ n, N ≤ n → step s (withFuel n (.touch e v cfg fuel)) = some s' := by
      rintro action haction hends hdown ⟨N, u, hu⟩
      refine ⟨N, { u with touching := true }, rfl, fun n hn => ?_⟩
      have hguard : s.touching = (e.action != .down) := by
        rw [htouching, haction]
        exact (bne_iff_ne.mpr hdown).symm
      rw [withFuel, step, if_pos hguard, onTouch, if_pos htwo, hu n hn, Option.map_some, haction,
        hends]
      rfl
    rcases hkind with ⟨hmove, hcfg⟩ | hother
    · obtain ⟨N, u, hu⟩ := scrollMove_total cfg (by rwa [hcfg]) e.midY (dropPress s)
      refine hfrom .move hmove rfl (by simp) ⟨N, u, fun n hn => ?_⟩
      simp only [scrollHandle, hmove]
      exact hu n hn
    · refine hfrom .other hother rfl (by simp) ⟨0, dropPress s, fun n _ => ?_⟩
      simp only [scrollHandle, hother]
  | longPress => exact absurd ha id
  | twoFingerHold => exact absurd ha id
  | setMode m => exact ⟨0, { s with mouseMode := m }, htouching, fun _ _ => rfl⟩
  | setCursor x y => exact ⟨0, setCursor x y s, htouching, fun _ _ => rfl⟩

theorem segment_total {notch : ℚ} (hnotch : 0 < notch) {as : List (Action ℚ)}
    (has : ∀ a ∈ as, InSegment notch a) {s : State ℚ} (htouching : s.touching = true) :
    ∃ (N : ℕ) (t : State ℚ), ∀ n, N ≤ n → run step s (as.map (withFuel n)) = some t := by
  induction as generalizing s with
  | nil => exact ⟨0, s, fun _ _ => rfl⟩
  | cons a as ih =>
    obtain ⟨N, s', htouching', hstep⟩ :=
      segment_step_total hnotch (has a List.mem_cons_self) htouching
    obtain ⟨M, t, hrun⟩ := ih (fun b hb => has b (List.mem_cons_of_mem a hb)) htouching'
    refine ⟨max N M, t, fun n hn => ?_⟩
    rw [List.map_cons, run_cons, hstep n (le_of_max_le_left hn), Option.bind_some]
    exact hrun n (le_of_max_le_right hn)

/-! ### Where a segment starts -/

/-- Fingers that do not scroll have left nothing over. -/
def Settled (s : State ℚ) : Prop := s.scrolling = false → s.scrollAccum = 0

theorem settled_of_two {s t : State ℚ} (h : Settled s) (htwo : t.two = s.two) : Settled t := by
  intro hscroll
  have haccum : t.scrollAccum = s.scrollAccum := congrArg TwoFinger.scrollAccum htwo
  have hsame : t.scrolling = s.scrolling := congrArg TwoFinger.scrolling htwo
  rw [haccum]
  exact h (hsame.symm.trans hscroll)

/-- Two fingers that stop to scroll leave nothing over, and putting one down forgets the hold. -/
theorem settled_scrollHandle {cfg : TouchpadConfig ℚ} {fuel : ℕ} {e : TouchEvent ℚ}
    {s t : State ℚ} (h : Settled s) (ht : scrollHandle cfg fuel e s = some t) :
    Settled t ∧
      t.twoFingerRightClicked = (s.twoFingerRightClicked && !(e.action == .pointerDown)) := by
  by_cases hdown : e.action = .pointerDown
  · simp only [scrollHandle, hdown] at ht
    obtain rfl := Option.some_inj.mp ht
    rw [beq_iff_eq.mpr hdown, Bool.not_true, Bool.and_false]
    split
    · rw [scheduleHold, cancelHold]
      split <;> exact ⟨by rintro ⟨⟩, rfl⟩
    · exact ⟨by rintro ⟨⟩, rfl⟩
  · rw [rightClicked_scrollHandle hdown ht, beq_eq_false_iff_ne.mpr hdown, Bool.not_false,
      Bool.and_true]
    refine ⟨?_, rfl⟩
    rcases haction : e.action <;> simp only [scrollHandle, haction] at ht
    case pointerDown => exact absurd haction hdown
    case move =>
      exact fun hnot => absurd ((rightClicked_scrollMove ht).1.symm.trans hnot) (by simp)
    case down =>
      obtain rfl := Option.some_inj.mp ht
      exact h
    case other =>
      obtain rfl := Option.some_inj.mp ht
      exact h
    all_goals
      obtain rfl := Option.some_inj.mp ht
      exact fun _ => Int.cast_zero

theorem settled_onTouch {v : Viewport} {cfg : TouchpadConfig ℚ} {fuel : ℕ} {e : TouchEvent ℚ}
    {s t : State ℚ} (h : Settled s) (ht : onTouch v cfg fuel e s = some t) :
    Settled t ∧
      t.twoFingerRightClicked = holdStep s.twoFingerRightClicked (.touch e v cfg fuel) := by
  by_cases htwo : 2 ≤ e.pointerCount
  · have hflag : (dropPress s).twoFingerRightClicked = s.twoFingerRightClicked :=
      congrArg TwoFinger.rightClicked (two_dropPress s)
    rw [onTouch, if_pos htwo] at ht
    rw [holdStep, decide_eq_true htwo, Bool.true_and, ← hflag]
    exact settled_scrollHandle (settled_of_two h (two_dropPress s)) ht
  · rw [holdStep, decide_eq_false htwo, Bool.false_and, Bool.not_false, Bool.and_true]
    rcases apart_onTouch (Nat.lt_of_not_le htwo) ht with hapart | rfl
    · have hsame : t.two = s.two := congrArg Prod.fst hapart
      exact ⟨settled_of_two h hsame, congrArg TwoFinger.rightClicked hsame⟩
    · exact ⟨fun _ => Int.cast_zero, rfl⟩

/-- What every step keeps of the leftover and of the flag of the hold. -/
theorem settled_step {s s' : State ℚ} {a : Action ℚ} (h : Settled s) (hstep : step s a = some s') :
    Settled s' ∧ s'.twoFingerRightClicked = holdStep s.twoFingerRightClicked a := by
  cases a with
  | touch e v cfg fuel =>
    rw [step] at hstep
    split at hstep <;> [skip; cases hstep]
    obtain ⟨t, ht, rfl⟩ := Option.map_eq_some_iff.mp hstep
    obtain ⟨hsettled, hflag⟩ := settled_onTouch h ht
    exact ⟨hsettled, hflag⟩
  | longPress =>
    obtain ⟨hold, -, rfl⟩ := Option.map_eq_some_iff.mp hstep
    have htwo := two_fireLongPress hold { s with longPress := none }
    have hsettled : Settled { s with longPress := none } := h
    exact ⟨settled_of_two hsettled htwo, congrArg TwoFinger.rightClicked htwo⟩
  | twoFingerHold =>
    rw [step] at hstep
    split at hstep <;> [skip; cases hstep]
    obtain rfl := Option.some_inj.mp hstep
    rw [fireTwoFingerHold_eq]
    exact ⟨h, rfl⟩
  | setMode m =>
    obtain rfl := Option.some_inj.mp hstep
    exact ⟨h, rfl⟩
  | setCursor x y =>
    obtain rfl := Option.some_inj.mp hstep
    exact ⟨h, rfl⟩

theorem settled_run {as : List (Action ℚ)} {s t : State ℚ} (h : Settled s)
    (hrun : run step s as = some t) :
    Settled t ∧ t.twoFingerRightClicked = as.foldl holdStep s.twoFingerRightClicked := by
  induction as generalizing s with
  | nil =>
    obtain rfl := Option.some_inj.mp hrun
    exact ⟨h, rfl⟩
  | cons a as ih =>
    obtain ⟨s', hstep, hrun⟩ := run_cons_eq_some.mp hrun
    obtain ⟨hnext, hflag⟩ := settled_step h hstep
    rw [List.foldl_cons, ← hflag]
    exact ih hnext hrun

/-- What the sample that opens a segment leaves. -/
structure Opened (y : ℚ) (s₀ : State ℚ) : Prop where
  touching : s₀.touching = true
  scrolling : s₀.scrolling = true
  accum : s₀.scrollAccum = 0
  lastY : s₀.scrollLastY = y
  anchorY : s₀.scrollAnchorY = y

theorem opens_step {s s₀ : State ℚ} {e : TouchEvent ℚ} {v : Viewport} {cfg : TouchpadConfig ℚ}
    {fuel : ℕ} (h : Settled s) (hopen : Opens s e)
    (hstep : step s (.touch e v cfg fuel) = some s₀) : Opened e.midY s₀ := by
  obtain ⟨htwo, haction⟩ := hopen
  rw [step] at hstep
  split at hstep <;> [skip; cases hstep]
  obtain ⟨t, ht, rfl⟩ := Option.map_eq_some_iff.mp hstep
  rw [onTouch, if_pos htwo] at ht
  rcases haction with hdown | ⟨hmove, hscroll⟩
  · have htouching : (!e.action.ends) = true := by
      rw [hdown]
      rfl
    simp only [scrollHandle, hdown] at ht
    obtain rfl := Option.some_inj.mp ht
    split
    · rw [scheduleHold, cancelHold]
      split <;> exact ⟨htouching, rfl, Int.cast_zero, rfl, rfl⟩
    · exact ⟨htouching, rfl, Int.cast_zero, rfl, rfl⟩
  · have htouching : (!e.action.ends) = true := by
      rw [hmove]
      rfl
    have hdrop : (dropPress s).scrolling = false := by
      rw [dropPress_eq]
      exact hscroll
    have haccum : (dropPress s).scrollAccum = 0 := by
      rw [dropPress_eq]
      exact h hscroll
    simp only [scrollHandle, hmove] at ht
    rw [scrollMove, hdrop, if_pos (by simp)] at ht
    obtain rfl := Option.some_inj.mp ht
    exact ⟨htouching, rfl, haccum, rfl, rfl⟩

/-! ### The wheel counts the whole notches -/

/-- The turns of a movement in one direction from where it started. -/
theorem Scrolls.count {notch y : ℚ} (hnotch : 0 < notch) {as : List (Action ℚ)} {s₀ t : State ℚ}
    {es : List SinkEvent} (h : Scrolls notch as s₀ t es) (hopened : Opened y s₀)
    (hright : s₀.twoFingerRightClicked = false) (hway : OneWay (y :: heights as)) :
    turns true es + turns false es = ⌊|(heights as).getLastD y - y| / notch⌋₊ := by
  have hlast := h.last hright
  have htotal := h.total
  have hbound := h.bound
  rw [hlast, hopened.accum, zero_add, hopened.lastY] at htotal
  rw [← hopened.lastY] at hway
  symm
  rcases hway with hway | hway
  · obtain ⟨hdown, hleft⟩ := h.up hright hway hopened.accum.ge
    rw [abs_of_nonneg hleft] at hbound
    rw [hdown, Nat.cast_zero, sub_zero] at htotal
    rw [hdown, Nat.add_zero]
    have hfar := floor_div_of_eq hnotch htotal.symm hleft hbound
    rwa [abs_of_nonneg (by rw [← htotal]; positivity)]
  · obtain ⟨hup, hleft⟩ := h.down hright hway hopened.accum.le
    rw [abs_of_nonpos hleft] at hbound
    rw [hup, Nat.cast_zero, zero_sub] at htotal
    rw [hup, Nat.zero_add]
    have hway : -((heights as).getLastD y - y) = turns false es * notch + -t.scrollAccum := by
      rw [← htotal]
      ring
    have hfar := floor_div_of_eq hnotch hway (neg_nonneg.mpr hleft) hbound
    have hneg : 0 ≤ -((heights as).getLastD y - y) := by
      rw [hway]
      exact add_nonneg (by positivity) (neg_nonneg.mpr hleft)
    rwa [abs_of_nonpos (neg_nonneg.mp hneg)]

/-! ### What a segment does -/

/-- From any reachable state, the samples after two fingers were put down, or after they
started from where one was lifted, go through, and after each of them the turns and what is
left over make up the way.  A movement in one direction turns the wheel once for every whole
notch, if the hold has not fired since two fingers were put down, and otherwise not at all. -/
theorem scroll_conserved {mouseMode : Bool} {pre as : List (Action ℚ)} {s s₀ : State ℚ}
    {e : TouchEvent ℚ} {v : Viewport} {cfg : TouchpadConfig ℚ} {fuel : ℕ} {notch : ℚ}
    (hpre : run step (initial mouseMode) pre = some s) (hopen : Opens s e)
    (hstart : step s (.touch e v cfg fuel) = some s₀) (hnotch : 0 < notch)
    (has : ∀ a ∈ as, InSegment notch a) :
    (∃ (N : ℕ) (t : State ℚ), ∀ n, N ≤ n → run step s₀ (as.map (withFuel n)) = some t) ∧
      ∀ t, run step s₀ as = some t → Conserved notch s₀ t ∧
        (OneWay (e.midY :: heights as) →
          turns true (sent s₀ t) + turns false (sent s₀ t) =
            if holdFired (pre ++ [.touch e v cfg fuel]) then 0
            else ⌊|(heights as).getLastD e.midY - e.midY| / notch⌋₊) := by
  have hinit : Settled (initial mouseMode) := fun _ => Int.cast_zero
  obtain ⟨hsettled, hfired⟩ := settled_run hinit hpre
  have hopened := opens_step hsettled hopen hstart
  have hflag : s₀.twoFingerRightClicked = holdFired (pre ++ [.touch e v cfg fuel]) := by
    rw [(settled_step hsettled hstart).2, hfired, holdFired, List.foldl_append]
    rfl
  have hbound : |s₀.scrollAccum| < notch := by rwa [hopened.accum, abs_zero]
  refine ⟨segment_total hnotch has hopened.touching, fun t hrun => ?_⟩
  obtain ⟨es, h⟩ := scrolls_run hnotch has hopened.scrolling hbound hrun
  rw [sent_eq h.log]
  refine ⟨⟨?_, h.bound⟩, fun hway => ?_⟩
  · rw [sent_eq h.log, h.total, hopened.accum, h.anchorY, hopened.lastY, hopened.anchorY, zero_add]
  · rw [← hflag]
    split
    next hright =>
      obtain ⟨hup, hdown⟩ := h.ignored hright
      rw [hup, hdown]
    next hright =>
      exact h.count hnotch hopened (Bool.eq_false_of_not_eq_true hright) hway

/-! ### Two fingers of three -/

/-- Two fingers that are at the height 200. -/
def twoDown : List (Action ℚ) := [finger .down 200 200, fingers .pointerDown 200 200]

/-- Three fingers are held until the hold fires, and one is lifted. -/
def holdAndLift : List (Action ℚ) :=
  twoDown ++ [.touch ⟨.pointerDown, 3, 200, 200, 300, 200, 0⟩ square defaults 0, .twoFingerHold,
    .touch ⟨.pointerUp, 3, 200, 200, 300, 200, 0⟩ square defaults 0]

/-- They go down by 100, in two samples. -/
def dragDown : List (Action ℚ) := [fingers .move 200 250, fingers .move 200 300]

theorem inSegment_dragDown : ∀ a ∈ dragDown, InSegment 24 a := by
  simp [dragDown, fingers, InSegment, defaults]

theorem oneWay_dragDown : OneWay (200 :: heights dragDown) := by
  left
  decide +kernel

/-- The two fingers that are left start anew, and go down by four notches; the wheel does not
turn. -/
theorem holdAndLift_no_turns :
    ∃ s s₀ t, run step (initial true) holdAndLift = some s ∧
      Opens s ⟨.move, 2, 200, 200, 300, 200, 0⟩ ∧ step s (fingers .move 200 200) = some s₀ ∧
      run step s₀ dragDown = some t ∧ OneWay (200 :: heights dragDown) ∧
      turns true (sent s₀ t) + turns false (sent s₀ t) = 0 ∧
      ⌊|(heights dragDown).getLastD 200 - 200| / (24 : ℚ)⌋₊ = 4 := by
  have heval : ((run step (initial true) holdAndLift).bind fun s =>
      (step s (fingers .move 200 200)).bind fun s₀ => (run step s₀ dragDown).map fun t =>
        (s.scrolling, turns true (sent s₀ t) + turns false (sent s₀ t))) = some (false, 0) := by
    decide +kernel
  obtain ⟨s, hs, heval⟩ := Option.bind_eq_some_iff.mp heval
  obtain ⟨s₀, hs₀, heval⟩ := Option.bind_eq_some_iff.mp heval
  obtain ⟨t, ht, heval⟩ := Option.map_eq_some_iff.mp heval
  obtain ⟨hscroll, hturns⟩ := Prod.mk.inj heval
  exact ⟨s, s₀, t, hs, ⟨le_rfl, .inr ⟨rfl, hscroll⟩⟩, hs₀, ht, oneWay_dragDown, hturns,
    by decide +kernel⟩

/-- Had they not been held, the wheel would turn four times. -/
theorem dragDown_turns :
    ∃ s₀ t, run step (initial true) twoDown = some s₀ ∧ run step s₀ dragDown = some t ∧
      Conserved 24 s₀ t ∧ turns true (sent s₀ t) + turns false (sent s₀ t) = 4 := by
  have heval : (run step (initial true) (twoDown ++ dragDown)).isSome = true := by decide +kernel
  obtain ⟨t, hrun⟩ := Option.isSome_iff_exists.mp heval
  rw [twoDown, List.cons_append, List.cons_append, List.nil_append] at hrun
  obtain ⟨s, hs, hrun⟩ := run_cons_eq_some.mp hrun
  obtain ⟨s₀, hs₀, hrun⟩ := run_cons_eq_some.mp hrun
  have hpre : run step (initial true) [finger .down 200 200] = some s := by
    rw [run_singleton]
    exact hs
  obtain ⟨hconserved, hcount⟩ := (scroll_conserved hpre ⟨le_rfl, .inl rfl⟩ hs₀ (by norm_num)
    inSegment_dragDown).2 t hrun
  refine ⟨s₀, t, ?_, hrun, hconserved, ?_⟩
  · rw [twoDown, run_cons, hs, Option.bind_some, run_singleton]
    exact hs₀
  · exact (hcount (Or.inl (by decide +kernel))).trans (by decide +kernel)

end Touchpad
