/-
The pan of the picture while the soft keyboard comes and goes (`renderer.cpp`, lines 958 to
996).

There are two vertical pans, one for the picture with its bottom hidden and one without.  The
one that is not in use is kept aside, and they are swapped when the bottom is hidden or comes
back; after that the cursor rule moves the pan again.  The rule moves nothing the second time,
so what is kept aside comes back as it was.

* `framePan` — what a frame makes of the pan;
* `moveTop_idem` — the cursor rule is idempotent;
* `Pan.kept` — the pan with the bottom hidden, and the one without, in use or kept aside;
* `keyboard_keeps_view` — both come back after any number of frames.
-/
import KaliGui.Lib.Run
import KaliGui.Lorie.Redraw

namespace Lorie.Redraw

open Clamp Machine

/-- The pan after a frame. -/
def framePan (lround : ℚ → ℚ) (s : Scene) (anchor : Anchor) (p : Pan) (hiddenBottom : ℤ) :
    Option Pan :=
  (redrawLocked lround s hiddenBottom anchor p).map Frame.pan

/-- The cursor rule for the vertical pan. -/
def moveTop (s : Scene) (shown top : ℚ) : ℚ :=
  if shown < s.expectedH then panToCursor top s.cursorY shown s.expectedH else 0

/-- The cursor rule for the horizontal pan. -/
def moveLeft (s : Scene) (shown left : ℚ) : ℚ :=
  if 100 < s.zoom.percent then panToCursor left s.cursorX shown s.expectedW else 0

variable {s : Scene} {lround : ℚ → ℚ} {anchor : Anchor} {p p' : Pan} {hiddenBottom : ℤ}

/-! ### The cursor rule -/

theorem panToCursor_idem {offset cursor shown total : ℚ} (hshown : 0 ≤ shown) :
    panToCursor (panToCursor offset cursor shown total) cursor shown total =
      panToCursor offset cursor shown total := by
  rw [panToCursor_eq hshown, panToCursor_eq hshown]
  exact clamp_clamp_idem

theorem moveTop_idem {shown : ℚ} (hshown : 0 ≤ shown) (top : ℚ) :
    moveTop s shown (moveTop s shown top) = moveTop s shown top := by
  unfold moveTop
  split
  · exact panToCursor_idem hshown
  · rfl

theorem moveLeft_idem {shown : ℚ} (hshown : 0 ≤ shown) (left : ℚ) :
    moveLeft s shown (moveLeft s shown left) = moveLeft s shown left := by
  unfold moveLeft
  split
  · exact panToCursor_idem hshown
  · rfl

theorem moveTop_nonneg (s : Scene) (shown top : ℚ) : 0 ≤ moveTop s shown top := by
  rw [moveTop]
  split
  · exact le_max_left _ _
  · exact le_rfl

/-! ### Frames -/

/-- Without a pinch, the pans are swapped if the bottom is hidden or comes back, and then
moved. -/
theorem framePan_eq_some (hno : anchor.sourceX < 0)
    (h : framePan lround s anchor p hiddenBottom = some p') :
    s.Fits ∧
      p' = { switchKeyboard s.zoom (s.BottomHidden hiddenBottom (s.whole lround)) p with
        panSourceLeft := moveLeft s (s.layout lround hiddenBottom).sourceWidth p.panSourceLeft
        panSourceTop := moveTop s (s.layout lround hiddenBottom).sourceHeight
          (switchKeyboard s.zoom (s.BottomHidden hiddenBottom (s.whole lround)) p).panSourceTop }
      := by
  obtain ⟨f, hframe, rfl⟩ := Option.map_eq_some_iff.mp h
  obtain ⟨hfits, -, hpan⟩ := redrawLocked_eq_some hframe
  refine ⟨hfits, ?_⟩
  rw [hpan, movePan, if_neg (not_le.mpr hno), switchKeyboard_left]
  rfl

/-- The width that is shown does not depend on the keyboard. -/
theorem sourceWidth_eq (s : Scene) (lround : ℚ → ℚ) (hiddenBottom : ℤ) :
    (s.layout lround hiddenBottom).sourceWidth = (s.whole lround).sourceWidth :=
  layout_sourceWidth s lround hiddenBottom

theorem layout_of_not_hidden (h : ¬ s.BottomHidden hiddenBottom (s.whole lround)) :
    s.layout lround hiddenBottom = s.whole lround := if_neg h

theorem not_bottomHidden (h : hiddenBottom ≤ 0) (l : Layout) :
    ¬ s.BottomHidden hiddenBottom l := fun hhidden => absurd hhidden.1 (not_lt.mpr h)

/-! ### The pans of the two sides -/

/-- The pan for the bottom hidden or not, in use or kept aside. -/
def Pan.kept (p : Pan) (bottomHidden : Bool) : ℚ :=
  if p.bottomWasHidden = bottomHidden then p.panSourceTop else p.hiddenPanSourceTop

theorem switchKeyboard_bottomWasHidden (zoom : Zoom) (bottomHidden : Bool) (p : Pan) :
    (switchKeyboard zoom bottomHidden p).bottomWasHidden = bottomHidden := by
  rw [switchKeyboard]
  split
  next hsame => exact hsame.symm
  next => rfl

/-- A pan is kept by a switch to its side, if it is put back there, and by one to the other. -/
theorem switchKeyboard_kept {zoom : Zoom} {side : Bool} (bottomHidden : Bool)
    (hpan : 0 ≤ p.kept side) (hback : side = false ∨ zoom.percent = 100) :
    (switchKeyboard zoom bottomHidden p).kept side = p.kept side := by
  rw [switchKeyboard]
  split
  next => rfl
  next hswitch =>
    rw [Pan.kept, Pan.kept]
    by_cases hside : bottomHidden = side
    · -- the pan comes back
      have hother : ¬ p.bottomWasHidden = side := fun h => hswitch (hside.trans h.symm)
      rw [Pan.kept, if_neg hother] at hpan
      rw [← hside] at hback
      rw [if_pos hside, if_pos ⟨hpan, hback⟩, if_neg hother]
    · -- the pan is put aside
      have hother : p.bottomWasHidden = side :=
        Bool.not_inj ((Bool.eq_not.mpr hswitch).symm.trans (Bool.eq_not.mpr hside))
      rw [if_neg hside, if_pos hother]

/-- A frame keeps the pan of a side that the cursor rule does not move. -/
theorem framePan_kept {side : Bool} (hno : anchor.sourceX < 0)
    (hback : side = false ∨ s.zoom.percent = 100) (hpan : 0 ≤ p.kept side)
    (hfixed : decide (s.BottomHidden hiddenBottom (s.whole lround)) = side →
      moveTop s (s.layout lround hiddenBottom).sourceHeight (p.kept side) = p.kept side)
    (h : framePan lround s anchor p hiddenBottom = some p') : p'.kept side = p.kept side := by
  obtain ⟨-, rfl⟩ := framePan_eq_some hno h
  have hswitch := switchKeyboard_kept (decide (s.BottomHidden hiddenBottom (s.whole lround))) hpan
    hback
  rw [Pan.kept, switchKeyboard_bottomWasHidden] at hswitch ⊢
  by_cases hside : decide (s.BottomHidden hiddenBottom (s.whole lround)) = side
  · rw [if_pos hside] at hswitch
    rw [if_pos hside, hswitch]
    exact hfixed hside
  · rw [if_neg hside] at hswitch
    rw [if_neg hside]
    exact hswitch

/-! ### Runs of frames -/

theorem framePan_left (hno : anchor.sourceX < 0)
    (h : framePan lround s anchor p hiddenBottom = some p') :
    p'.panSourceLeft = moveLeft s (s.whole lround).sourceWidth p.panSourceLeft := by
  obtain ⟨-, rfl⟩ := framePan_eq_some hno h
  rw [sourceWidth_eq]

/-- After a frame, the pan in use is one that the cursor rule does not move. -/
theorem framePan_settled (hno : anchor.sourceX < 0)
    (h : framePan lround s anchor p hiddenBottom = some p') :
    p'.kept (decide (s.BottomHidden hiddenBottom (s.whole lround))) = p'.panSourceTop ∧
      0 ≤ p'.panSourceTop ∧
      moveTop s (s.layout lround hiddenBottom).sourceHeight p'.panSourceTop = p'.panSourceTop := by
  obtain ⟨hfits, rfl⟩ := framePan_eq_some hno h
  refine ⟨if_pos (switchKeyboard_bottomWasHidden ..), moveTop_nonneg .., ?_⟩
  exact moveTop_idem (layout_shown hfits lround hiddenBottom).2.1.le _

/-- Frames keep the pan of the last one, on its side, if it is not moved by those that are on
the side too. -/
theorem run_framePan_kept {side : Bool} {ks : List ℤ} (hno : anchor.sourceX < 0)
    (hback : side = false ∨ s.zoom.percent = 100) (hpan : 0 ≤ p.kept side)
    (hfixed : ∀ k ∈ ks, decide (s.BottomHidden k (s.whole lround)) = side →
      moveTop s (s.layout lround k).sourceHeight (p.kept side) = p.kept side)
    (hrun : run (framePan lround s anchor) p ks = some p') : p'.kept side = p.kept side := by
  refine run_invariant (I := fun q => q.kept side = p.kept side) (fun q k q' hq hk hstep => ?_) rfl
    (meets_of_forall_mem hfixed p) hrun
  rw [← hq] at hpan hk
  exact (framePan_kept hno hback hpan hk hstep).trans hq

theorem run_framePan_left {ks : List ℤ} (hno : anchor.sourceX < 0)
    (hfixed : moveLeft s (s.whole lround).sourceWidth p.panSourceLeft = p.panSourceLeft)
    (hrun : run (framePan lround s anchor) p ks = some p') :
    p'.panSourceLeft = p.panSourceLeft := by
  refine run_invariant_of_step (I := fun q => q.panSourceLeft = p.panSourceLeft)
    (fun q k q' hq hstep => ?_) rfl hrun
  rw [framePan_left hno hstep, hq, hfixed]

/-- With the keyboard away nothing is hidden. -/
theorem framePan_away (hno : anchor.sourceX < 0) (haway : hiddenBottom ≤ 0)
    (h : framePan lround s anchor p hiddenBottom = some p') :
    p'.kept false = p'.panSourceTop ∧ 0 ≤ p'.panSourceTop ∧
      moveTop s (s.whole lround).sourceHeight p'.panSourceTop = p'.panSourceTop := by
  have hnot := not_bottomHidden (s := s) haway (s.whole lround)
  have hsettled := framePan_settled hno h
  rwa [decide_eq_false hnot, layout_of_not_hidden hnot] at hsettled

/-- With nothing else changing and no pinch, the pan is after the keyboard, whatever it hid,
what it was before; and without zoom the vertical pan is, each time the keyboard is shown
again, what it was when the keyboard was shown, however often it is hidden in between. -/
theorem keyboard_keeps_view (hno : anchor.sourceX < 0) {p₀ p₁ p₂ : Pan} {ks : List ℤ} :
    (∀ away ≤ 0, ∀ away' ≤ 0, framePan lround s anchor p₀ away = some p₁ →
      run (framePan lround s anchor) p₁ (ks ++ [away']) = some p₂ →
        p₂.panSourceLeft = p₁.panSourceLeft ∧ p₂.panSourceTop = p₁.panSourceTop) ∧
      (s.zoom.percent = 100 → ∀ shown, (∀ k ∈ ks, k ≤ 0 ∨ k = shown) →
        framePan lround s anchor p₀ shown = some p₁ →
        run (framePan lround s anchor) p₁ (ks ++ [shown]) = some p₂ →
          p₂.panSourceTop = p₁.panSourceTop) := by
  constructor
  · intro away haway away' haway' hfirst hrun
    obtain ⟨hkept, hnonneg, hmoved⟩ := framePan_away hno haway hfirst
    have hsettled : moveLeft s (s.whole lround).sourceWidth p₁.panSourceLeft =
        p₁.panSourceLeft := by
      obtain ⟨hfits, -⟩ := framePan_eq_some hno hfirst
      have hshown := (layout_shown hfits lround away).1.1.le
      rw [sourceWidth_eq] at hshown
      rw [framePan_left hno hfirst]
      exact moveLeft_idem hshown _
    refine ⟨run_framePan_left hno hsettled hrun, ?_⟩
    obtain ⟨q, -, hlast⟩ := run_concat_eq_some.mp hrun
    rw [← (framePan_away hno haway' hlast).1, ← hkept]
    rw [← hkept] at hnonneg hmoved
    refine run_framePan_kept hno (.inl rfl) hnonneg (fun k _ hk => ?_) hrun
    -- the frames where nothing is hidden show the whole height
    rw [layout_of_not_hidden (of_decide_eq_false hk)]
    exact hmoved
  · intro hzoom shown hks hfirst hrun
    obtain ⟨hkept, hnonneg, hmoved⟩ := framePan_settled hno hfirst
    obtain ⟨q, -, hlast⟩ := run_concat_eq_some.mp hrun
    rw [← (framePan_settled hno hlast).1, ← hkept]
    rw [← hkept] at hnonneg hmoved
    refine run_framePan_kept hno (.inr hzoom) hnonneg (fun k hk hside => ?_) hrun
    by_cases hsame : k = shown
    · rw [hsame]
      exact hmoved
    · -- the keyboard is away and the side is the same: the keyboard reaches no picture
      have haway : k ≤ 0 := by
        rcases List.mem_append.mp hk with hk | hk
        · exact (hks k hk).resolve_right hsame
        · exact absurd (List.mem_singleton.mp hk) hsame
      have hnot := not_bottomHidden (s := s) haway (s.whole lround)
      rw [decide_eq_false hnot] at hside
      rw [layout_of_not_hidden (of_decide_eq_false hside.symm)] at hmoved
      rw [layout_of_not_hidden hnot]
      exact hmoved

/-- `tallSurface` without zoom. -/
def unzoomed : Scene := { tallSurface with zoom := setZoom 100 }

/-- A keyboard comes up in two frames and goes, and without zoom it comes up twice. -/
theorem tallSurface_keeps_view :
    (∃ p₁ p₂, framePan lroundf tallSurface {} {} 0 = some p₁ ∧
      run (framePan lroundf tallSurface {}) p₁ ([300, 500] ++ [0]) = some p₂ ∧
        p₂.panSourceLeft = p₁.panSourceLeft ∧ p₂.panSourceTop = p₁.panSourceTop) ∧
      ∃ p₁ p₂, framePan lroundf unzoomed {} {} 300 = some p₁ ∧
        run (framePan lroundf unzoomed {}) p₁ ([300, 0] ++ [300]) = some p₂ ∧
          p₂.panSourceTop = p₁.panSourceTop := by
  have hno : ({} : Anchor).sourceX < 0 := by decide +kernel
  constructor
  · obtain ⟨p₁, h₁⟩ := Option.isSome_iff_exists.mp
      (show (framePan lroundf tallSurface {} {} 0).isSome by decide +kernel)
    obtain ⟨p₂, h₂⟩ := Option.isSome_iff_exists.mp
      (show ((framePan lroundf tallSurface {} {} 0).bind fun p₁ =>
        run (framePan lroundf tallSurface {}) p₁ ([300, 500] ++ [0])).isSome by decide +kernel)
    rw [h₁, Option.bind_some] at h₂
    exact ⟨p₁, p₂, h₁, h₂, (keyboard_keeps_view hno).1 0 le_rfl 0 le_rfl h₁ h₂⟩
  · obtain ⟨p₁, h₁⟩ := Option.isSome_iff_exists.mp
      (show (framePan lroundf unzoomed {} {} 300).isSome by decide +kernel)
    obtain ⟨p₂, h₂⟩ := Option.isSome_iff_exists.mp
      (show ((framePan lroundf unzoomed {} {} 300).bind fun p₁ =>
        run (framePan lroundf unzoomed {}) p₁ ([300, 0] ++ [300])).isSome by decide +kernel)
    rw [h₁, Option.bind_some] at h₂
    exact ⟨p₁, p₂, h₁, h₂, (keyboard_keeps_view hno).2 rfl 300 (by decide) h₁ h₂⟩

end Lorie.Redraw
