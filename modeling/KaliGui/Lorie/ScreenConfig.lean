/-
The same screen size asked for twice (`lorieConfigureNotify`, `lorieRRScreenSetSize` in
`InitOutput.c`).

The screen of `RootSize`, with its mode and its root pixmap: every size that is set makes a
new root pixmap, whether it is a new size or not.  A request is taken to be old news when
its own width is the screen's, which has the mode's.

* `lorieConfigureNotify` — the server; it refines `RootSize`'s;
* `lorieConfigureNotify_again_iff` — the requests that change nothing the second time.
-/
import KaliGui.Lorie.RootSize

namespace Lorie.ScreenConfig

open RootSize

/-- The screen, the mode of its output, its root pixmap and what the activity knows. -/
structure Server where
  screen : Screen
  mode : Option Mode
  /-- the root pixmap, by the number of pixmaps made before it -/
  rootPixmap : ℕ
  /-- the pixmaps made so far -/
  created : ℕ
  /-- the root buffers that the activity was told of, by their pixmaps -/
  registeredBuffers : List ℕ

/-- `lorieRRScreenSetSize`: the old pixmap takes its buffer with it.  `allocates` says which
pixmaps can be had; the server uses the pixmap without a check. -/
def lorieRRScreenSetSize (allocates : ℕ → ℕ → Bool) (width height : ℕ) (s : Server) :
    Option Server :=
  if allocates width height then
    (RootSize.lorieRRScreenSetSize width height s.screen).map fun screen =>
      { s with
        screen
        rootPixmap := s.created
        created := s.created + 1
        registeredBuffers :=
          -- a pixmap without pixels has no buffer
          (if width = 0 ∨ height = 0 then [] else [s.created]) ++
            s.registeredBuffers.filter (· ≠ s.rootPixmap) }
  else none

/-- `lorieConfigureNotify`; `none` where the server does not survive it. -/
def lorieConfigureNotify (timing : TimingOf) (allocates : ℕ → ℕ → Bool) (r : SizeRequest)
    (s : Server) : Option Server :=
  if r.width.toNat ≠ 0 ∧ r.height.toNat ≠ 0 ∧ ¬ r.Same s.screen then
    let (mode, modes) := lorieCvt timing r.width.toNat r.height.toNat r.rate s.screen.modes
    (lorieRRScreenSetSize allocates mode.info.hdisplay mode.info.vdisplay
      { s with mode := some mode, screen.modes := modes }).map fun s =>
        { s with screen.framerate := r.rate }
  else some s

variable {timing : TimingOf} {allocates : ℕ → ℕ → Bool} {r : SizeRequest} {s s' : Server}

/-- The screen changes as `RootSize` says. -/
theorem lorieConfigureNotify_refines (h : lorieConfigureNotify timing allocates r s = some s') :
    RootSize.lorieConfigureNotify timing r s.screen = some s'.screen := by
  rw [lorieConfigureNotify] at h
  rw [RootSize.lorieConfigureNotify]
  split at h
  · next hchange =>
    rw [if_pos hchange]
    dsimp only at h ⊢
    obtain ⟨t, ht, rfl⟩ := Option.map_eq_some_iff.mp h
    rw [lorieRRScreenSetSize] at ht
    split at ht
    · obtain ⟨screen, hscreen, rfl⟩ := Option.map_eq_some_iff.mp ht
      rw [hscreen]
      rfl
    · contradiction
  · next hsame =>
    rw [if_neg hsame]
    exact congrArg (Option.map Server.screen) h

/-- A request that configures the screen gives it a root pixmap of its own. -/
theorem rootPixmap_of_not_same (hwidth : r.width.toNat ≠ 0) (hheight : r.height.toNat ≠ 0)
    (hsame : ¬ r.Same s.screen) (h : lorieConfigureNotify timing allocates r s = some s') :
    s'.rootPixmap = s.created ∧ s'.created = s.created + 1 ∧
      s'.screen.width =
        (libxcvtGenModeInfo timing r.width.toNat r.height.toNat r.rate).hdisplay ∧
      s'.screen.height = r.height.toNat ∧ s'.screen.framerate = r.rate := by
  rw [lorieConfigureNotify, if_pos ⟨hwidth, hheight, hsame⟩] at h
  dsimp only at h
  obtain ⟨t, ht, rfl⟩ := Option.map_eq_some_iff.mp h
  rw [lorieRRScreenSetSize, lorieCvt_info, libxcvtGenModeInfo_vdisplay] at ht
  split at ht
  · obtain ⟨screen, hscreen, rfl⟩ := Option.map_eq_some_iff.mp ht
    rw [RootSize.lorieRRScreenSetSize] at hscreen
    split at hscreen
    · contradiction
    · obtain rfl := Option.some.inj hscreen
      exact ⟨rfl, rfl, rfl, rfl, rfl⟩
  · contradiction

/-- The width of the mode is the width asked for: a multiple of 8, but for FWXGA, which is
1366 wide. -/
def ExactWidth (width height : ℕ) : Prop :=
  width % 8 = 0 ∧ ¬ (width = 1360 ∧ height = 768) ∨ width = 1366 ∧ height = 768

theorem hdisplay_eq_iff (width height vrefresh : ℕ) :
    (libxcvtGenModeInfo timing width height vrefresh).hdisplay = width ↔
      ExactWidth width height := by
  rw [libxcvtGenModeInfo_hdisplay, ExactWidth, cvtHGranularity]
  split
  · omega
  · omega

/-- A request that was handled changes nothing when it comes again exactly if it changed
nothing the first time, or its width is one that a mode can have. -/
theorem lorieConfigureNotify_again_iff (allocates' : ℕ → ℕ → Bool)
    (h : lorieConfigureNotify timing allocates r s = some s') :
    lorieConfigureNotify timing allocates' r s' = some s' ↔
      (r.width.toNat = 0 ∨ r.height.toNat = 0 ∨ r.Same s.screen) ∨
        ExactWidth r.width.toNat r.height.toNat := by
  by_cases hidle : r.width.toNat = 0 ∨ r.height.toNat = 0 ∨ r.Same s.screen
  · -- nothing is configured, now or then
    have hskip (allocates : ℕ → ℕ → Bool) :
        lorieConfigureNotify timing allocates r s = some s :=
      if_neg fun hchange => hidle.elim hchange.1 fun h => h.elim hchange.2.1 hchange.2.2
    obtain rfl := Option.some.inj ((hskip allocates).symm.trans h)
    exact iff_of_true (hskip allocates') (Or.inl hidle)
  have hidle' := hidle
  simp only [not_or] at hidle'
  obtain ⟨hwidth, hheight, hsame⟩ := hidle'
  obtain ⟨hroot, hcreated, hw, hh, hrate⟩ := rootPixmap_of_not_same hwidth hheight hsame h
  have hexact := @hdisplay_eq_iff timing r.width.toNat r.height.toNat r.rate
  rw [or_iff_right hidle, ← hexact]
  constructor
  · intro hagain
    by_contra hother
    -- the screen is not as wide as the request, so that a new root pixmap is made
    have hsame' : ¬ r.Same s'.screen := fun hs => hother (hw.symm.trans hs.1)
    have := (rootPixmap_of_not_same hwidth hheight hsame' hagain).1
    omega
  · intro heq
    exact if_neg fun hchange => hchange.2.2 ⟨hw.trans heq, hh, hrate⟩

/-- A server that starts, with an activity that knows its root buffer. -/
def firstServer (timing : TimingOf) : Server where
  screen := firstScreen timing
  mode := some (lorieCvt timing 1280 1024 30 []).1
  rootPixmap := 0
  created := 1
  registeredBuffers := [0]

/-- Asked for 1919×1080 at 60 frames a second, where every pixmap can be had. -/
def nearFullHdServer : Server :=
  (lorieConfigureNotify timingsAt60 (fun _ _ => true) ⟨1919, 1080, 60⟩
    (firstServer timingsAt60)).get rfl

theorem nearFullHd_again_iff :
    lorieConfigureNotify timingsAt60 (fun _ _ => true) ⟨1919, 1080, 60⟩ nearFullHdServer =
        some nearFullHdServer ↔
      ((⟨1919, 1080, 60⟩ : SizeRequest).width.toNat = 0 ∨
          (⟨1919, 1080, 60⟩ : SizeRequest).height.toNat = 0 ∨
          (⟨1919, 1080, 60⟩ : SizeRequest).Same (firstServer timingsAt60).screen) ∨
        ExactWidth (⟨1919, 1080, 60⟩ : SizeRequest).width.toNat
          (⟨1919, 1080, 60⟩ : SizeRequest).height.toNat :=
  lorieConfigureNotify_again_iff (fun _ _ => true)
    (show lorieConfigureNotify timingsAt60 (fun _ _ => true) ⟨1919, 1080, 60⟩
      (firstServer timingsAt60) = some nearFullHdServer from rfl)

/-- 1919×1080 gives a screen of 1912×1080, and a new root pixmap each time. -/
theorem nearFullHd_not_idempotent :
    ¬ ∀ (timing : TimingOf) (allocates : ℕ → ℕ → Bool) (r : SizeRequest) (s s' : Server),
      lorieConfigureNotify timing allocates r s = some s' →
        lorieConfigureNotify timing allocates r s' = some s' := by
  intro hall
  have hagain := hall timingsAt60 (fun _ _ => true) ⟨1919, 1080, 60⟩ (firstServer timingsAt60)
    nearFullHdServer rfl
  have hroot : (lorieConfigureNotify timingsAt60 (fun _ _ => true) ⟨1919, 1080, 60⟩
      nearFullHdServer).map Server.rootPixmap = some 2 := rfl
  rw [hagain] at hroot
  exact absurd hroot (by decide)

end Lorie.ScreenConfig
