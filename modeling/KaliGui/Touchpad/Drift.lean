/-
A drag of one finger in MOUSE mode, away from the edges (`MouseGestureHandler.kt`).

Each `MOVE` adds its own displacement, scaled to the framebuffer, to the cursor, rounds
the sum down to a pixel, and starts anew from where the finger is: the part of a pixel
that was rounded off is lost.  Numbers are exact here.

* `Drag` — a `DOWN` and any samples after it, the cursor clear of the edges throughout;
* `lost` — the parts of a pixel the samples of a drag lose on one axis;
* `NoDrift` — the cursor goes where the finger goes, to within a pixel;
* `drag_cursor` — the cursor goes where the finger goes, less what is lost;
* `noDrift_iff` — the drags in which the cursor does not drift.
-/
import KaliGui.Lib.Rounding
import KaliGui.Touchpad.Gesture
import Mathlib.Tactic.Linarith

namespace Touchpad

open Machine Rounding

/-! ### What should hold -/

/-- The touch samples among the steps. -/
def samples : List (Action ℚ) → List (TouchEvent ℚ)
  | [] => []
  | .touch e _ _ _ :: as => e :: samples as
  | _ :: as => samples as

/-- A step of a drag: a `MOVE` of one finger, or the long press. -/
def DragStep (v : Viewport) : Action ℚ → Prop
  | .touch e v' _ _ => e.action = .move ∧ e.pointerCount < 2 ∧ v' = v
  | .longPress => True
  | _ => False

/-- The cursor is not at an edge of the framebuffer. -/
structure ClearOfEdges (v : Viewport) (s : State ℚ) : Prop where
  left : 0 < s.cursorX
  right : s.cursorX < v.framebufferWidth - 1
  top : 0 < s.cursorY
  bottom : s.cursorY < v.framebufferHeight - 1

/-- From `s`, a `DOWN` at `d` and the steps `as` lead to `t`. -/
structure Drag (v : Viewport) (cfg : TouchpadConfig ℚ) (fuel : ℕ) (d : TouchEvent ℚ)
    (as : List (Action ℚ)) (s t : State ℚ) : Prop where
  viewportWidth : 0 < v.viewportWidth
  viewportHeight : 0 < v.viewportHeight
  mouseMode : s.mouseMode = true
  scrolling : s.scrolling = false
  down : d.action = .down
  one : d.pointerCount < 2
  steps : ∀ a ∈ as, DragStep v a
  run : run step s (.touch d v cfg fuel :: as) = some t
  clear : Always step (ClearOfEdges v) s (.touch d v cfg fuel :: as)

/-- Where the finger is in the end. -/
def lastSample (d : TouchEvent ℚ) (as : List (Action ℚ)) : TouchEvent ℚ := (samples as).getLastD d

/-- The cursor went as far as the finger, to within a pixel, and where the finger is back
at its start, so is the cursor. -/
structure NoDrift (v : Viewport) (d : TouchEvent ℚ) (as : List (Action ℚ)) (s t : State ℚ) :
    Prop where
  x : |((t.cursorX - s.cursorX : ℤ) : ℚ) -
    ((lastSample d as).x - d.x) / v.viewportWidth * v.framebufferWidth| < 1
  y : |((t.cursorY - s.cursorY : ℤ) : ℚ) -
    ((lastSample d as).y - d.y) / v.viewportHeight * v.framebufferHeight| < 1
  back : (lastSample d as).x = d.x → (lastSample d as).y = d.y →
    |t.cursorX - s.cursorX| ≤ 1 ∧ |t.cursorY - s.cursorY| ≤ 1

/-- The parts of a pixel that the samples lose on the two axes. -/
def lost (view frame : ℤ) (p : ℚ) (qs : List ℚ) : ℚ :=
  ((strides (view : ℚ) frame p qs).map Int.fract).sum

def lostX (v : Viewport) (d : TouchEvent ℚ) (as : List (Action ℚ)) : ℚ :=
  lost v.viewportWidth v.framebufferWidth d.x ((samples as).map TouchEvent.x)

def lostY (v : Viewport) (d : TouchEvent ℚ) (as : List (Action ℚ)) : ℚ :=
  lost v.viewportHeight v.framebufferHeight d.y ((samples as).map TouchEvent.y)

/-! ### One step -/

/-- The finger was last at `x`, `y`, and the cursor is at `cx`, `cy`. -/
structure Anchored (x y : ℚ) (cx cy : ℤ) (s : State ℚ) : Prop where
  gesture : InGesture s
  downX : s.downX = x
  downY : s.downY = y
  cursorX : s.cursorX = cx
  cursorY : s.cursorY = cy

/-- `coerceIn` changes nothing that does not end up at an edge. -/
theorem eq_of_coerceIn {n lo hi m : ℤ} (h : coerceIn n lo hi = some m) (hlo : lo < m)
    (hhi : m < hi) : n = m := by
  rw [coerceIn] at h
  split at h <;> [cases h; skip]
  obtain rfl := Option.some_inj.mp h
  split_ifs at hlo hhi ⊢
  · omega
  · omega
  · rfl

/-- Away from the edges the cursor moves by the displacement rounded down. -/
theorem eq_add_floor {c m hi : ℤ} {x : ℚ}
    (h : coerceIn (FloatOps.toInt (FloatOps.ofInt c + x : ℚ)) 0 hi = some m) (hlo : 0 < m)
    (hhi : m < hi) : m = c + ⌊x⌋ := by
  have htrunc : ((c : ℚ) + x).num.tdiv ((c : ℚ) + x).den = m := eq_of_coerceIn h hlo hhi
  have hnonneg : 0 ≤ (c : ℚ) + x := nonneg_of_trunc_pos (by rw [htrunc]; exact hlo)
  rw [← htrunc, trunc_of_nonneg hnonneg, Int.floor_intCast_add]

theorem movePointer_clear {v : Viewport} {e : TouchEvent ℚ} {x y : ℚ} {cx cy : ℤ}
    {s t : State ℚ} (hs : Anchored x y cx cy s) (h : movePointer v e s = some t)
    (hclear : ClearOfEdges v t) :
    InGesture t ∧ t.cursorX = cx + ⌊(e.x - x) / (v.viewportWidth : ℚ) * v.framebufferWidth⌋ ∧
      t.cursorY = cy + ⌊(e.y - y) / (v.viewportHeight : ℚ) * v.framebufferHeight⌋ := by
  rw [movePointer_eq] at h
  obtain ⟨⟨nx, ny⟩, htarget, hmoved⟩ := Option.map_eq_some_iff.mp h
  have hend : InGesture t ∧ t.cursorX = nx ∧ t.cursorY = ny := by
    split at hmoved
    · subst hmoved
      exact ⟨⟨hs.gesture.mouseMode, hs.gesture.scrolling, hs.gesture.touching⟩, rfl, rfl⟩
    next hstay =>
      obtain ⟨hx, hy⟩ := not_or.mp hstay
      subst hmoved
      exact ⟨hs.gesture, (not_ne_iff.mp hx).symm, (not_ne_iff.mp hy).symm⟩
  obtain ⟨hgesture, rfl, rfl⟩ := hend
  obtain ⟨nx, hnx, htarget⟩ := Option.bind_eq_some_iff.mp htarget
  obtain ⟨ny, hny, htarget⟩ := Option.map_eq_some_iff.mp htarget
  obtain ⟨rfl, rfl⟩ := Prod.mk.inj htarget
  rw [hs.cursorX, hs.downX] at hnx
  rw [hs.cursorY, hs.downY] at hny
  exact ⟨hgesture, eq_add_floor hnx hclear.left hclear.right,
    eq_add_floor hny hclear.top hclear.bottom⟩

theorem Anchored.move {v : Viewport} {e : TouchEvent ℚ} (h : OneFinger e v)
    (hmove : e.action = .move) {cfg : TouchpadConfig ℚ} {fuel : ℕ} {x y : ℚ} {cx cy : ℤ}
    {s s' : State ℚ} (hs : Anchored x y cx cy s) (hstep : step s (.touch e v cfg fuel) = some s')
    (hclear : ClearOfEdges v s') :
    Anchored e.x e.y (cx + ⌊(e.x - x) / (v.viewportWidth : ℚ) * v.framebufferWidth⌋)
      (cy + ⌊(e.y - y) / (v.viewportHeight : ℚ) * v.framebufferHeight⌋) s' := by
  have htouch : onTouch v cfg fuel e s = mouseMove v cfg e s := by
    rw [onTouch_oneFinger h hs.gesture.mouseMode hs.gesture.scrolling, mouseHandle, h.laidOut,
      if_neg (by simp), hmove]
  have hguard : s.touching = (e.action != .down) := by
    rw [hmove, hs.gesture.touching]
    rfl
  have hends : (!e.action.ends) = true := by
    rw [hmove]
    rfl
  rw [step, if_pos hguard, htouch] at hstep
  obtain ⟨t, ht, rfl⟩ := Option.map_eq_some_iff.mp hstep
  obtain ⟨w, hw, rfl⟩ := Option.map_eq_some_iff.mp ht
  -- what leaving the slop changes is nothing that moves the pointer
  have hanchored : Anchored x y cx cy
      (if !s.dragged && FloatOps.lt (cfg.tapSlopPx * cfg.tapSlopPx)
          ((e.x - s.slopAnchorX) * (e.x - s.slopAnchorX) +
            (e.y - s.slopAnchorY) * (e.y - s.slopAnchorY)) then
        { cancelLongPress { s with dragged := true } with recentTapCount := 0 }
      else s) := by
    split
    · exact ⟨⟨hs.gesture.mouseMode, hs.gesture.scrolling, hs.gesture.touching⟩, hs.downX, hs.downY,
        hs.cursorX, hs.cursorY⟩
    · exact hs
  obtain ⟨hgesture, hx, hy⟩ := movePointer_clear hanchored hw
    ⟨hclear.left, hclear.right, hclear.top, hclear.bottom⟩
  exact ⟨⟨hgesture.mouseMode, hgesture.scrolling, hends⟩, rfl, rfl, hx, hy⟩

/-- The long press presses buttons only. -/
theorem Anchored.longPress {x y : ℚ} {cx cy : ℤ} {s s' : State ℚ} (hs : Anchored x y cx cy s)
    (hstep : step s .longPress = some s') : Anchored x y cx cy s' := by
  obtain ⟨holdAction, -, rfl⟩ := Option.map_eq_some_iff.mp hstep
  rw [fireLongPress_eq]
  split
  · split
    · exact ⟨⟨hs.gesture.mouseMode, hs.gesture.scrolling, hs.gesture.touching⟩, hs.downX, hs.downY,
        hs.cursorX, hs.cursorY⟩
    · exact ⟨⟨hs.gesture.mouseMode, hs.gesture.scrolling, hs.gesture.touching⟩, hs.downX, hs.downY,
        hs.cursorX, hs.cursorY⟩
  · exact ⟨⟨hs.gesture.mouseMode, hs.gesture.scrolling, hs.gesture.touching⟩, hs.downX, hs.downY,
      hs.cursorX, hs.cursorY⟩

theorem grabOrSchedule_keeps (cfg : TouchpadConfig ℚ) (s : State ℚ) :
    (grabOrSchedule cfg s).mouseMode = s.mouseMode ∧
      (grabOrSchedule cfg s).scrolling = s.scrolling ∧ (grabOrSchedule cfg s).downX = s.downX ∧
      (grabOrSchedule cfg s).downY = s.downY ∧ (grabOrSchedule cfg s).cursorX = s.cursorX ∧
      (grabOrSchedule cfg s).cursorY = s.cursorY := by
  rw [grabOrSchedule]
  split
  · split
    · exact ⟨rfl, rfl, rfl, rfl, rfl, rfl⟩
    · exact ⟨rfl, rfl, rfl, rfl, rfl, rfl⟩
  · exact ⟨rfl, rfl, rfl, rfl, rfl, rfl⟩
  · exact ⟨rfl, rfl, rfl, rfl, rfl, rfl⟩

/-- The `DOWN` moves nothing. -/
theorem anchored_down {v : Viewport} {d : TouchEvent ℚ} (h : OneFinger d v)
    (hdown : d.action = .down) {cfg : TouchpadConfig ℚ} {fuel : ℕ} {s s' : State ℚ}
    (hmode : s.mouseMode = true) (hscroll : s.scrolling = false)
    (hstep : step s (.touch d v cfg fuel) = some s') :
    Anchored d.x d.y s.cursorX s.cursorY s' := by
  have hhandle : onTouch v cfg fuel d s = some (mouseDown cfg d s) := by
    rw [onTouch_oneFinger h hmode hscroll, mouseHandle, h.laidOut, if_neg (by simp), hdown]
  have hends : (!d.action.ends) = true := by
    rw [hdown]
    rfl
  rw [step] at hstep
  split at hstep <;> [skip; cases hstep]
  rw [hhandle, Option.map_some, mouseDown_eq] at hstep
  obtain rfl := Option.some_inj.mp hstep
  obtain ⟨hm, hs, hx, hy, hcx, hcy⟩ := grabOrSchedule_keeps cfg
    (started d (if closeToLastTap cfg d s then s.recentTapCount else 0) s)
  exact ⟨⟨hm.trans hmode, hs.trans hscroll, hends⟩, hx, hy, hcx, hcy⟩

/-! ### A whole drag -/

/-- The displacements of the cursor on one axis, one for each place. -/
def pixels (view frame : ℤ) (p : ℚ) (qs : List ℚ) : ℤ :=
  ((strides (view : ℚ) frame p qs).map Int.floor).sum

/-- From a `MOVE` on, the cursor adds up the displacements of the samples. -/
theorem anchored_run {v : Viewport} (hview : 0 < v.viewportWidth) {as : List (Action ℚ)}
    {x y : ℚ} {cx cy : ℤ} {s t : State ℚ} (hs : Anchored x y cx cy s)
    (has : ∀ a ∈ as, DragStep v a) (hclear : Always step (ClearOfEdges v) s as)
    (hrun : run step s as = some t) :
    t.cursorX = cx + pixels v.viewportWidth v.framebufferWidth x ((samples as).map TouchEvent.x) ∧
      t.cursorY =
        cy + pixels v.viewportHeight v.framebufferHeight y ((samples as).map TouchEvent.y) := by
  induction as generalizing x y cx cy s with
  | nil =>
    obtain rfl := Option.some_inj.mp hrun
    rw [hs.cursorX, hs.cursorY]
    exact ⟨(Int.add_zero cx).symm, (Int.add_zero cy).symm⟩
  | cons a as ih =>
    have hrest : ∀ b ∈ as, DragStep v b := fun b hb => has b (List.mem_cons_of_mem a hb)
    have ha := has a List.mem_cons_self
    have hinside := hclear.head
    obtain ⟨s', hstep, hrun'⟩ := run_cons_eq_some.mp hrun
    have hnext := hclear.of_step hstep
    match a, ha with
    | .touch e v' cfg fuel, ⟨hmove, hcount, hsame⟩ =>
      subst hsame
      have hone : OneFinger e v' := by
        have hleft := hinside.left
        have hright := hinside.right
        have htop := hinside.top
        have hbottom := hinside.bottom
        exact ⟨hcount, hview, by omega, by omega⟩
      obtain ⟨hx, hy⟩ := ih (hs.move hone hmove hstep hnext.head) hrest hnext hrun'
      rw [hx, hy]
      exact ⟨Int.add_assoc .., Int.add_assoc ..⟩
    | .longPress, _ => exact ih (hs.longPress hstep) hrest hnext hrun'

/-- The cursor goes where the finger goes, less what is lost. -/
theorem drag_cursor {v : Viewport} {cfg : TouchpadConfig ℚ} {fuel : ℕ} {d : TouchEvent ℚ}
    {as : List (Action ℚ)} {s t : State ℚ} (h : Drag v cfg fuel d as s t) :
    ((t.cursorX - s.cursorX : ℤ) : ℚ) =
        ((lastSample d as).x - d.x) / v.viewportWidth * v.framebufferWidth - lostX v d as ∧
      ((t.cursorY - s.cursorY : ℤ) : ℚ) =
        ((lastSample d as).y - d.y) / v.viewportHeight * v.framebufferHeight - lostY v d as := by
  have hone : OneFinger d v := by
    have hleft := h.clear.head.left
    have hright := h.clear.head.right
    have htop := h.clear.head.top
    have hbottom := h.clear.head.bottom
    exact ⟨h.one, h.viewportWidth, by omega, by omega⟩
  obtain ⟨s', hstep, hrun⟩ := run_cons_eq_some.mp h.run
  have hdown := anchored_down hone h.down h.mouseMode h.scrolling hstep
  obtain ⟨hx, hy⟩ := anchored_run h.viewportWidth hdown h.steps (h.clear.of_step hstep) hrun
  -- on either axis, what the samples sum up to is the way of the finger
  have haxis : ∀ (view frame c c' : ℤ) (coord : TouchEvent ℚ → ℚ),
      c' = c + pixels view frame (coord d) ((samples as).map coord) →
      ((c' - c : ℤ) : ℚ) = (coord (lastSample d as) - coord d) / view * frame -
        lost view frame (coord d) ((samples as).map coord) := by
    intro view frame c c' coord hc
    have hsum := sum_floor_add_sum_fract
      (strides (view : ℚ) frame (coord d) ((samples as).map coord))
    have hlast : ((samples as).map coord).getLastD (coord d) = coord (lastSample d as) :=
      List.getLastD_map ..
    rw [strides_sum, hlast] at hsum
    rw [hc, add_sub_cancel_left, ← hsum]
    exact (add_sub_cancel_right _ _).symm
  exact ⟨haxis _ _ _ _ TouchEvent.x hx, haxis _ _ _ _ TouchEvent.y hy⟩

theorem lost_nonneg (view frame : ℤ) (p : ℚ) (qs : List ℚ) : 0 ≤ lost view frame p qs :=
  sum_fract_nonneg _

/-- The cursor does not drift exactly if on either axis the samples lose less than a pixel
together. -/
theorem noDrift_iff {v : Viewport} {cfg : TouchpadConfig ℚ} {fuel : ℕ} {d : TouchEvent ℚ}
    {as : List (Action ℚ)} {s t : State ℚ} (h : Drag v cfg fuel d as s t) :
    NoDrift v d as s t ↔ lostX v d as < 1 ∧ lostY v d as < 1 := by
  obtain ⟨hx, hy⟩ := drag_cursor h
  have hlostX : 0 ≤ lostX v d as := lost_nonneg ..
  have hlostY : 0 ≤ lostY v d as := lost_nonneg ..
  -- the error on an axis is what was lost there
  have herror : ∀ way loss : ℚ, 0 ≤ loss → |way - loss - way| = loss := by
    intro way loss hloss
    rw [sub_sub_cancel_left, abs_neg, abs_of_nonneg hloss]
  constructor
  · intro hno
    have hnoX := hno.x
    have hnoY := hno.y
    rw [hx, herror _ _ hlostX] at hnoX
    rw [hy, herror _ _ hlostY] at hnoY
    exact ⟨hnoX, hnoY⟩
  · rintro ⟨hltX, hltY⟩
    refine ⟨?_, ?_, fun hbackX hbackY => ?_⟩
    · rw [hx, herror _ _ hlostX]
      exact hltX
    · rw [hy, herror _ _ hlostY]
      exact hltY
    · rw [hbackX, sub_self, zero_div, zero_mul, zero_sub] at hx
      rw [hbackY, sub_self, zero_div, zero_mul, zero_sub] at hy
      have hwhole : ∀ (n : ℤ) (loss : ℚ), 0 ≤ loss → loss < 1 → (n : ℚ) = -loss → |n| ≤ 1 := by
        intro n loss hloss hlt heq
        have habs : |(n : ℚ)| ≤ 1 := by
          rw [heq, abs_neg, abs_of_nonneg hloss]
          exact hlt.le
        exact_mod_cast habs
      exact ⟨hwhole _ _ hlostX hltX hx, hwhole _ _ hlostY hltY hy⟩

/-! ### A slow finger -/

/-- A picture drawn at twice its size, and the cursor in its middle. -/
def doubled : Viewport := ⟨0, 0, 1000, 1000, 500, 500⟩

def centred : State ℚ := setCursor 250 250 (initial true)

def sampleAt (action : TouchAction) (x : ℚ) : TouchEvent ℚ := ⟨action, 1, x, 100, 0, 0, 0⟩

/-- Four samples, each half a pixel of the framebuffer to the right of the one before. -/
def creep : List (Action ℚ) :=
  [101, 102, 103, 104].map fun x => .touch (sampleAt .move x) doubled defaults 0

/-- Two samples, each three pixels of the framebuffer to the right of the one before. -/
def stride : List (Action ℚ) :=
  [106, 112].map fun x => .touch (sampleAt .move x) doubled defaults 0

instance (v : Viewport) (s : State ℚ) : Decidable (ClearOfEdges v s) :=
  decidable_of_iff (0 < s.cursorX ∧ s.cursorX < v.framebufferWidth - 1 ∧ 0 < s.cursorY ∧
    s.cursorY < v.framebufferHeight - 1)
    ⟨fun h => ⟨h.1, h.2.1, h.2.2.1, h.2.2.2⟩, fun h => ⟨h.left, h.right, h.top, h.bottom⟩⟩

/-- A drag of samples in the doubled picture. -/
theorem drag_doubled {xs : List ℚ} {t : State ℚ}
    (hrun : run step centred (.touch (sampleAt .down 100) doubled defaults 0 ::
      xs.map fun x => .touch (sampleAt .move x) doubled defaults 0) = some t)
    (hclear : Always step (ClearOfEdges doubled) centred
      (.touch (sampleAt .down 100) doubled defaults 0 ::
        xs.map fun x => .touch (sampleAt .move x) doubled defaults 0)) :
    Drag doubled defaults 0 (sampleAt .down 100)
      (xs.map fun x => .touch (sampleAt .move x) doubled defaults 0) centred t where
  viewportWidth := by decide
  viewportHeight := by decide
  mouseMode := rfl
  scrolling := rfl
  down := rfl
  one := by decide
  steps a ha := by
    obtain ⟨x, -, rfl⟩ := List.mem_map.mp ha
    exact ⟨rfl, Nat.one_lt_two, rfl⟩
  run := hrun
  clear := hclear

/-- The finger creeps two pixels to the right and the cursor stays where it is. -/
theorem creep_drifts : ∃ t, Drag doubled defaults 0 (sampleAt .down 100) creep centred t ∧
    ¬ NoDrift doubled (sampleAt .down 100) creep centred t := by
  have heval : (run step centred
      (.touch (sampleAt .down 100) doubled defaults 0 :: creep)).map State.cursorX = some 250 := by
    decide +kernel
  obtain ⟨t, hrun, ht⟩ := Option.map_eq_some_iff.mp heval
  refine ⟨t, drag_doubled hrun (by decide +kernel), fun hno => ?_⟩
  have hx := hno.x
  rw [ht] at hx
  exact absurd hx (by decide +kernel)

/-- Long strides lose nothing. -/
theorem stride_noDrift : ∃ t, Drag doubled defaults 0 (sampleAt .down 100) stride centred t ∧
    NoDrift doubled (sampleAt .down 100) stride centred t := by
  have heval : (run step centred
      (.touch (sampleAt .down 100) doubled defaults 0 :: stride)).isSome = true := by
    decide +kernel
  obtain ⟨t, hrun⟩ := Option.isSome_iff_exists.mp heval
  have hdrag : Drag doubled defaults 0 (sampleAt .down 100) stride centred t :=
    drag_doubled hrun (by decide +kernel)
  exact ⟨t, hdrag, (noDrift_iff hdrag).mpr (by decide +kernel)⟩

end Touchpad
