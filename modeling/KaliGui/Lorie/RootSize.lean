/-
The size of the root buffer (`InitOutput.c`, `libxcvt.c`, `renderer.cpp`).

The server makes a mode of the size it is asked for and gives the screen the mode's size.
The renderer was told the size that was asked for, and works out the width of the mode
by a rule of its own.

* `libxcvtGenModeInfo`, `lorieCvt`, `lorieConfigureNotify` — the server;
* `SizeAccepted` — the check of `redrawLocked`;
* `root_drawn_iff` — for which requests the renderer draws what the server made.
-/
import Mathlib.Data.Nat.Notation
import Mathlib.Tactic.Common

namespace Lorie.RootSize

/-! ### Modes -/

/-- The members of a mode that come of the floating-point part of `libxcvt.c`. -/
structure Timing where
  dotClock : UInt32
  hSyncStart : UInt16
  hSyncEnd : UInt16
  hTotal : UInt16
  vSyncStart : UInt16
  vSyncEnd : UInt16
  vTotal : UInt16
  modeFlags : UInt32
  deriving DecidableEq

/-- `struct libxcvt_mode_info`, and `xRRModeInfo` -/
structure ModeInfo where
  hdisplay : ℕ
  vdisplay : ℕ
  timing : Timing
  deriving DecidableEq

/-- `RRModeRec` -/
structure Mode where
  info : ModeInfo
  name : String
  deriving DecidableEq

/-- `CVT_H_GRANULARITY` -/
def cvtHGranularity : ℕ := 8

/-- The timing of a mode, by its size after rounding and its refresh rate. -/
abbrev TimingOf := ℕ → ℕ → ℕ → Timing

/-- `libxcvt_gen_mode_info`, neither reduced nor interlaced; there are no margins. -/
def libxcvtGenModeInfo (timing : TimingOf) (hdisplay vdisplay vrefresh : ℕ) : ModeInfo :=
  let hdisplayRnd := hdisplay - hdisplay % cvtHGranularity
  let t := timing hdisplayRnd vdisplay (if vrefresh = 0 then 60 else vrefresh)
  if hdisplayRnd = 1360 ∧ vdisplay = 768 then
    -- FWXGA, because you can't say 1366
    ⟨1366, vdisplay, { t with hSyncStart := t.hSyncStart - 1, hSyncEnd := t.hSyncEnd - 1 }⟩
  else ⟨hdisplayRnd, vdisplay, t⟩

/-- `RRModeGet`, with the modes there are then. -/
def rrModeGet (info : ModeInfo) (name : String) (modes : List Mode) : Mode × List Mode :=
  match modes.find? fun mode => mode.info = info ∧ mode.name = name with
  | some mode => (mode, modes)
  | none => (⟨info, name⟩, modes ++ [⟨info, name⟩])

def lorieCvt (timing : TimingOf) (width height framerate : ℕ) (modes : List Mode) :
    Mode × List Mode :=
  let info := libxcvtGenModeInfo timing width height framerate
  rrModeGet info (toString info.hdisplay ++ "x" ++ toString info.vdisplay) modes

/-! ### The server -/

/-- The screen; its root buffer was made with the screen's size. -/
structure Screen where
  width : ℕ
  height : ℕ
  /-- `pvfb->root.framerate` -/
  framerate : ℕ
  modes : List Mode

/-- The message `EVENT_SCREEN_SIZE`. -/
structure SizeRequest where
  width : UInt16
  height : UInt16
  framerate : UInt16

/-- `lorieRRScreenSetSize`; `exaCreatePixmap` makes no pixmap beyond 32767, and the server
uses it without a check. -/
def lorieRRScreenSetSize (width height : ℕ) (s : Screen) : Option Screen :=
  if width > 32767 ∨ height > 32767 then none else some { s with width, height }

def SizeRequest.rate (r : SizeRequest) : ℕ :=
  if r.framerate.toNat = 0 then 30 else r.framerate.toNat

/-- The screen has the size and the rate already. -/
def SizeRequest.Same (r : SizeRequest) (s : Screen) : Prop :=
  s.width = r.width.toNat ∧ s.height = r.height.toNat ∧ s.framerate = r.rate

instance (r : SizeRequest) (s : Screen) : Decidable (r.Same s) :=
  inferInstanceAs (Decidable (_ ∧ _ ∧ _))

/-- `lorieConfigureNotify`; `none` where the server does not survive it. -/
def lorieConfigureNotify (timing : TimingOf) (r : SizeRequest) (s : Screen) : Option Screen :=
  if r.width.toNat ≠ 0 ∧ r.height.toNat ≠ 0 ∧ ¬ r.Same s then
    let (mode, modes) := lorieCvt timing r.width.toNat r.height.toNat r.rate s.modes
    (lorieRRScreenSetSize mode.info.hdisplay mode.info.vdisplay { s with modes }).map
      fun s => { s with framerate := r.rate }
  else some s

/-! ### The renderer -/

/-- The check of `redrawLocked`, for a root buffer of the screen's size. -/
def SizeAccepted (expectedW expectedH : ℕ) (s : Screen) : Prop :=
  let alignedExpectedW := expectedW - expectedW % cvtHGranularity
  ¬ (expectedW = 0 ∨ expectedH = 0 ∨ s.height ≠ expectedH ∨
    (s.width ≠ alignedExpectedW ∧ s.width ≠ expectedW))

instance (expectedW expectedH : ℕ) (s : Screen) : Decidable (SizeAccepted expectedW expectedH s) :=
  inferInstanceAs (Decidable (¬ (_ ∨ _ ∨ _ ∨ (_ ∧ _))))

/-- The sizes that are rounded to 1360×768, but for 1366×768 itself. -/
def RoundsToFwxga (width height : ℕ) : Prop :=
  height = 768 ∧ 1360 ≤ width ∧ width < 1368 ∧ width ≠ 1366

instance (width height : ℕ) : Decidable (RoundsToFwxga width height) :=
  inferInstanceAs (Decidable (_ ∧ _ ∧ _ ∧ _))

/-- The server configures the screen, and the renderer accepts the root buffer. -/
def Drawn (timing : TimingOf) (r : SizeRequest) (s : Screen) : Prop :=
  ∃ s', lorieConfigureNotify timing r s = some s' ∧
    SizeAccepted r.width.toNat r.height.toNat s'

/-! ### Where they agree -/

variable (timing : TimingOf) {r : SizeRequest} {s : Screen}

/-- The mode that is found is the mode that was asked for. -/
theorem rrModeGet_info (info : ModeInfo) (name : String) (modes : List Mode) :
    (rrModeGet info name modes).1.info = info := by
  rw [rrModeGet]
  split
  · rename_i mode hfind
    have hfound := List.find?_some hfind
    exact (of_decide_eq_true hfound).1
  · rfl

theorem lorieCvt_info (width height framerate : ℕ) (modes : List Mode) :
    (lorieCvt timing width height framerate modes).1.info =
      libxcvtGenModeInfo timing width height framerate := rrModeGet_info ..

theorem libxcvtGenModeInfo_vdisplay (hdisplay vdisplay vrefresh : ℕ) :
    (libxcvtGenModeInfo timing hdisplay vdisplay vrefresh).vdisplay = vdisplay := by
  rw [libxcvtGenModeInfo]
  split
  · rfl
  · rfl

theorem libxcvtGenModeInfo_hdisplay (hdisplay vdisplay vrefresh : ℕ) :
    (libxcvtGenModeInfo timing hdisplay vdisplay vrefresh).hdisplay =
      if hdisplay - hdisplay % cvtHGranularity = 1360 ∧ vdisplay = 768 then 1366
      else hdisplay - hdisplay % cvtHGranularity := by
  rw [libxcvtGenModeInfo]
  split
  · rfl
  · rfl

/-- The width of the mode is one the renderer accepts, unless the mode is FWXGA. -/
theorem hdisplay_accepted_iff (width height vrefresh : ℕ) :
    ((libxcvtGenModeInfo timing width height vrefresh).hdisplay =
          width - width % cvtHGranularity ∨
        (libxcvtGenModeInfo timing width height vrefresh).hdisplay = width) ↔
      ¬ RoundsToFwxga width height := by
  rw [libxcvtGenModeInfo_hdisplay, RoundsToFwxga, cvtHGranularity]
  split
  · omega
  · omega

/-- A mode is not wider than what was asked for, but for FWXGA. -/
theorem hdisplay_le (width height vrefresh : ℕ) (hwidth : width ≤ 32767) :
    (libxcvtGenModeInfo timing width height vrefresh).hdisplay ≤ 32767 := by
  rw [libxcvtGenModeInfo_hdisplay, cvtHGranularity]
  split
  · omega
  · omega

/-- The screen after the request, where it changes. -/
theorem lorieConfigureNotify_of_not_same (hwidth : r.width.toNat ≠ 0) (hheight : r.height.toNat ≠ 0)
    (hsame : ¬ r.Same s) :
    lorieConfigureNotify timing r s =
      (lorieRRScreenSetSize
        (libxcvtGenModeInfo timing r.width.toNat r.height.toNat r.rate).hdisplay r.height.toNat
        { s with modes :=
          (lorieCvt timing r.width.toNat r.height.toNat r.rate s.modes).2 }).map
        fun s => { s with framerate := r.rate } := by
  rw [lorieConfigureNotify, if_pos ⟨hwidth, hheight, hsame⟩]
  dsimp only
  rw [lorieCvt_info, libxcvtGenModeInfo_vdisplay]

/-- A screen that has the size is accepted. -/
theorem sizeAccepted_of_same (hwidth : r.width.toNat ≠ 0) (hheight : r.height.toNat ≠ 0)
    (hsame : r.Same s) : SizeAccepted r.width.toNat r.height.toNat s := by
  rintro (hw | hh | hh | ⟨-, hw⟩)
  · exact hwidth hw
  · exact hheight hh
  · exact hh hsame.2.1
  · exact hw hsame.1

/-- A request of a width from 8 to 32767 gives a root buffer that the renderer draws
exactly if it has a height, and either the screen is as asked already, or the height is
one a pixmap can have and the size is not one that rounds to FWXGA. -/
theorem root_drawn_iff (r : SizeRequest) (s : Screen) (hmin : 8 ≤ r.width.toNat)
    (hmax : r.width.toNat ≤ 32767) :
    Drawn timing r s ↔ r.height.toNat ≠ 0 ∧
      (r.Same s ∨ r.height.toNat ≤ 32767 ∧ ¬ RoundsToFwxga r.width.toNat r.height.toNat) := by
  have hwidth : r.width.toNat ≠ 0 := by omega
  by_cases hheight : r.height.toNat = 0
  · -- the renderer refuses a buffer where it waits for no height, whatever the screen is
    constructor
    · rintro ⟨s', -, haccepted⟩
      exact absurd (.inr (.inl hheight)) haccepted
    · rintro ⟨hne, -⟩
      exact absurd hheight hne
  by_cases hsame : r.Same s
  · -- nothing is configured
    have hunchanged : lorieConfigureNotify timing r s = some s := by
      rw [lorieConfigureNotify, if_neg fun hchange => hchange.2.2 hsame]
    exact ⟨fun _ => ⟨hheight, .inl hsame⟩,
      fun _ => ⟨s, hunchanged, sizeAccepted_of_same hwidth hheight hsame⟩⟩
  -- The screen gets the size of the mode.
  have hnotify := lorieConfigureNotify_of_not_same timing hwidth hheight hsame
  have hle := hdisplay_le timing r.width.toNat r.height.toNat r.rate hmax
  rw [Drawn, hnotify, lorieRRScreenSetSize]
  by_cases htall : r.height.toNat ≤ 32767
  · rw [if_neg (by omega)]
    have haccepted := hdisplay_accepted_iff timing r.width.toNat r.height.toNat r.rate
    constructor
    · rintro ⟨s', hs', hcheck⟩
      obtain rfl := Option.some_inj.mp hs'
      refine ⟨hheight, .inr ⟨htall, haccepted.mp ?_⟩⟩
      by_contra hnot
      rw [not_or] at hnot
      exact hcheck (.inr (.inr (.inr hnot)))
    · rintro ⟨-, hrest⟩
      have hok := haccepted.mpr (hrest.resolve_left hsame).2
      refine ⟨_, rfl, ?_⟩
      rintro (hw | hh | hh | ⟨haligned, hexact⟩)
      · exact hwidth hw
      · exact hheight hh
      · exact hh rfl
      · exact hok.elim haligned hexact
  · -- no pixmap is that high, so the screen is not configured at all
    rw [if_pos (.inr (by omega))]
    constructor
    · rintro ⟨s', hs', -⟩
      exact absurd hs' (Option.some_ne_none s').symm
    · rintro ⟨-, hrest⟩
      exact absurd (hrest.resolve_left hsame).1 htall

/-- The screen of a server that starts. -/
def firstScreen (timing : TimingOf) : Screen :=
  ⟨1280, 1024, 30, (lorieCvt timing 1280 1024 30 []).2⟩

/-- The timings of 1360×768 and of 1912×1080, at 60 frames a second. -/
def timingsAt60 : TimingOf := fun width _ _ =>
  if width = 1360 then ⟨84750000, 1432, 1568, 1776, 771, 781, 798, 6⟩
  else ⟨171250000, 2032, 2232, 2552, 1083, 1093, 1120, 6⟩

theorem nearFullHd_drawn : Drawn timingsAt60 ⟨1919, 1080, 60⟩ (firstScreen timingsAt60) :=
  (root_drawn_iff timingsAt60 ⟨1919, 1080, 60⟩ (firstScreen timingsAt60) (by decide)
    (by decide)).mpr (by decide)

/-- Asked for 1360×768, the server makes 1366×768; the renderer waits for 1360×768. -/
theorem fwxga_not_drawn :
    ∃ s, lorieConfigureNotify timingsAt60 ⟨1360, 768, 60⟩ (firstScreen timingsAt60) = some s ∧
      s.width = 1366 ∧ ¬ SizeAccepted 1360 768 s := by
  refine ⟨_, rfl, rfl, ?_⟩
  decide

end Lorie.RootSize
