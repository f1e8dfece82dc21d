/-
The geometry the renderer exposes to the touch layer (`X11Renderer.kt`).

The network thread publishes the size of the framebuffer, the GL thread lays the picture
out in the surface, and the touch layer reads both.  Every field is volatile and written
by itself, so a touch sample may be handled between any two writes.  Until the first frame
has arrived the picture takes the whole surface although the framebuffer has no size.

* `letterbox` — where `applyViewport` lays the picture out;
* `Renderer`, `Renderer.step` — the two threads, one read or write after another;
* `Mapped` — a sample is handled without an exception and maps to a pixel or to null;
* `Published` — what holds of the sizes at every moment;
* `mapped_iff` — the states and samples for which the mapping does not fail.
-/
import KaliGui.Touchpad.Gesture

namespace Touchpad

open Machine

variable {F : Type*}

/-! ### Where the picture is drawn -/

/-- The arguments of `glViewport`. -/
structure Letterbox where
  x : ℤ
  y : ℤ
  width : ℤ
  height : ℤ
  deriving DecidableEq, Repr

/-- `minOf` -/
def minOf [FloatOps F] (a b : F) : F := if FloatOps.le a b then a else b

/-- The scale at which the picture fits into the surface. -/
def pictureScale (F : Type*) [FloatOps F] (surfaceW surfaceH fbW fbH : ℤ) : F :=
  minOf (FloatOps.ofInt surfaceW / FloatOps.ofInt fbW)
    (FloatOps.ofInt surfaceH / FloatOps.ofInt fbH)

/-- What `applyViewport` writes once surface and framebuffer are read. -/
def letterbox (F : Type*) [FloatOps F] (surfaceW surfaceH fbW fbH : ℤ) : Letterbox :=
  if fbW ≤ 0 ∨ fbH ≤ 0 then ⟨0, 0, surfaceW, surfaceH⟩
  else
    let scale := pictureScale F surfaceW surfaceH fbW fbH
    let drawW := FloatOps.toInt (FloatOps.ofInt fbW * scale)
    let drawH := FloatOps.toInt (FloatOps.ofInt fbH * scale)
    ⟨(surfaceW - drawW).tdiv 2, (surfaceH - drawH).tdiv 2, drawW, drawH⟩

/-! ### The two threads -/

/-- Where the network thread is in `updateFramebuffer`. -/
inductive Network
  | idle
  | writeWidth (width height : ℤ)
  | writeHeight (height : ℤ)
  deriving DecidableEq, Repr

/-- Where the GL thread is in `applyViewport`. -/
inductive GlThread
  | idle
  | readWidth
  | readHeight (fbW : ℤ)
  | writeX (box : Letterbox)
  | writeY (box : Letterbox)
  | writeWidth (box : Letterbox)
  | writeHeight (box : Letterbox)
  deriving DecidableEq, Repr

structure Renderer where
  surfaceWidth : ℤ := 0
  surfaceHeight : ℤ := 0
  viewportX : ℤ := 0
  viewportY : ℤ := 0
  viewportWidth : ℤ := 0
  viewportHeight : ℤ := 0
  framebufferWidth : ℤ := 0
  framebufferHeight : ℤ := 0
  network : Network := .idle
  gl : GlThread := .idle
  deriving DecidableEq, Repr

/-- `rendererViewport`, what the touch layer reads at the moment. -/
def Renderer.viewport (r : Renderer) : Viewport :=
  ⟨r.viewportX, r.viewportY, r.viewportWidth, r.viewportHeight, r.framebufferWidth,
    r.framebufferHeight⟩

inductive RendererAction
  /-- a frame arrives; the client refuses a screen without width or height -/
  | updateFramebuffer (width height : ℤ)
  | onSurfaceChanged (width height : ℤ)
  | onDrawFrame
  /-- the network thread goes on -/
  | network
  /-- the GL thread goes on -/
  | gl
  deriving DecidableEq, Repr

/-- The next read or write of the network thread. -/
def Renderer.networkStep (r : Renderer) : Option Renderer :=
  match r.network with
  | .idle => none
  | .writeWidth width height =>
    some { r with framebufferWidth := width, network := .writeHeight height }
  | .writeHeight height => some { r with framebufferHeight := height, network := .idle }

/-- The next read or write of the GL thread. -/
def Renderer.glStep (F : Type*) [FloatOps F] (r : Renderer) : Option Renderer :=
  match r.gl with
  | .idle => none
  | .readWidth => some { r with gl := .readHeight r.framebufferWidth }
  | .readHeight fbW =>
    if r.surfaceWidth ≤ 0 ∨ r.surfaceHeight ≤ 0 then some { r with gl := .idle }
    else
      some { r with
        gl := .writeX (letterbox F r.surfaceWidth r.surfaceHeight fbW r.framebufferHeight) }
  | .writeX box => some { r with viewportX := box.x, gl := .writeY box }
  | .writeY box => some { r with viewportY := box.y, gl := .writeWidth box }
  | .writeWidth box => some { r with viewportWidth := box.width, gl := .writeHeight box }
  | .writeHeight box => some { r with viewportHeight := box.height, gl := .idle }

def Renderer.step (F : Type*) [FloatOps F] (r : Renderer) : RendererAction → Option Renderer
  | .updateFramebuffer width height =>
    if r.network = .idle ∧ 0 < width ∧ 0 < height then
      some { r with network := .writeWidth width height }
    else none
  | .onSurfaceChanged width height =>
    if r.gl = .idle then
      some { r with surfaceWidth := width, surfaceHeight := height, gl := .readWidth }
    else none
  | .onDrawFrame => if r.gl = .idle then some { r with gl := .readWidth } else none
  | .network => r.networkStep
  | .gl => r.glStep F

/-! ### What should hold -/

/-- The wheel loop of two fingers takes more turns than the given number. -/
def OutOfTurns [FloatOps F] (cfg : TouchpadConfig F) (fuel : ℕ) (e : TouchEvent F) (s : State F) :
    Prop :=
  2 ≤ e.pointerCount ∧ e.action = .move ∧ scrollMove cfg fuel e.midY (dropPress s) = none

/-- A pixel of the framebuffer. -/
def Viewport.HasPixel (v : Viewport) (p : ℤ × ℤ) : Prop :=
  0 ≤ p.1 ∧ p.1 < v.framebufferWidth ∧ 0 ≤ p.2 ∧ p.2 < v.framebufferHeight

/-- The sample is handled without an exception, whatever the state of the handlers, and
its point maps to null or to a pixel of the framebuffer. -/
structure Mapped [FloatOps F] (v : Viewport) (e : TouchEvent F) : Prop where
  handled : ∀ (s : State F) (cfg : TouchpadConfig F) (fuel : ℕ),
    onTouch v cfg fuel e s = none → OutOfTurns cfg fuel e s
  pixel : ∃ fb, v.toFramebuffer e.x e.y = some fb ∧ ∀ p, fb = some p → v.HasPixel p

/-- A sample that has the cursor moved relative to where it is. -/
def Viewport.MovesCursor (v : Viewport) (e : TouchEvent F) : Prop :=
  e.pointerCount < 2 ∧ e.action = .move ∧ 0 < v.viewportWidth ∧ 0 < v.framebufferWidth

/-- The height of the framebuffer is published, or the sample needs no framebuffer: it is
outside of the picture and moves no cursor. -/
def Viewport.Mappable [FloatOps F] (v : Viewport) (e : TouchEvent F) : Prop :=
  v.framebufferHeight ≠ 0 ∨ v.inside e.x e.y = false ∧ ¬ v.MovesCursor e

/-! ### The sizes at every moment -/

/-- The sizes still to be published are positive. -/
def Network.Positive : Network → Prop
  | .idle => True
  | .writeWidth width height => 0 < width ∧ 0 < height
  | .writeHeight height => 0 < height

/-- No size is negative, and the width is published before the height. -/
structure Published (r : Renderer) : Prop where
  width : 0 ≤ r.framebufferWidth
  height : 0 ≤ r.framebufferHeight
  order : r.framebufferHeight ≠ 0 ∨ (∃ height, r.network = .writeHeight height) →
    0 < r.framebufferWidth
  network : r.network.Positive

theorem published_initial : Published {} :=
  ⟨Int.le_refl 0, Int.le_refl 0, fun h => by simp at h, trivial⟩

/-- The GL thread does not touch the sizes of the framebuffer. -/
theorem Published.of_gl {r r' : Renderer} (h : Published r)
    (hwidth : r'.framebufferWidth = r.framebufferWidth)
    (hheight : r'.framebufferHeight = r.framebufferHeight) (hnetwork : r'.network = r.network) :
    Published r' := by
  refine ⟨?_, ?_, ?_, ?_⟩
  · rw [hwidth]
    exact h.width
  · rw [hheight]
    exact h.height
  · rw [hwidth, hheight, hnetwork]
    exact h.order
  · rw [hnetwork]
    exact h.network

theorem published_networkStep {r r' : Renderer} (h : Published r)
    (hstep : r.networkStep = some r') : Published r' := by
  have hpositive := h.network
  have hheight := h.height
  rw [Renderer.networkStep] at hstep
  cases hnetwork : r.network with
  | idle =>
    rw [hnetwork] at hstep
    cases hstep
  | writeWidth width height =>
    rw [hnetwork] at hstep hpositive
    obtain rfl := Option.some_inj.mp hstep
    exact ⟨hpositive.1.le, hheight, fun _ => hpositive.1, hpositive.2⟩
  | writeHeight height =>
    have horder := h.order (Or.inr ⟨height, hnetwork⟩)
    rw [hnetwork] at hstep hpositive
    obtain rfl := Option.some_inj.mp hstep
    exact ⟨horder.le, Int.le_of_lt hpositive, fun _ => horder, trivial⟩

theorem published_glStep [FloatOps F] {r r' : Renderer} (h : Published r)
    (hstep : r.glStep F = some r') : Published r' := by
  rw [Renderer.glStep] at hstep
  split at hstep
  · cases hstep
  · obtain rfl := Option.some_inj.mp hstep
    exact h.of_gl rfl rfl rfl
  · split at hstep
    · obtain rfl := Option.some_inj.mp hstep
      exact h.of_gl rfl rfl rfl
    · obtain rfl := Option.some_inj.mp hstep
      exact h.of_gl rfl rfl rfl
  all_goals
    obtain rfl := Option.some_inj.mp hstep
    exact h.of_gl rfl rfl rfl

theorem published_step [FloatOps F] {r r' : Renderer} {a : RendererAction} (h : Published r)
    (hstep : r.step F a = some r') : Published r' := by
  cases a with
  | updateFramebuffer width height =>
    rw [Renderer.step] at hstep
    split at hstep <;> [skip; cases hstep]
    next hidle =>
      obtain rfl := Option.some_inj.mp hstep
      refine ⟨h.width, h.height, fun hor => h.order (hor.imp_right ?_), hidle.2⟩
      rintro ⟨_, hcontra⟩
      cases hcontra
  | onSurfaceChanged width height =>
    rw [Renderer.step] at hstep
    split at hstep <;> [skip; cases hstep]
    obtain rfl := Option.some_inj.mp hstep
    exact h.of_gl rfl rfl rfl
  | onDrawFrame =>
    rw [Renderer.step] at hstep
    split at hstep <;> [skip; cases hstep]
    obtain rfl := Option.some_inj.mp hstep
    exact h.of_gl rfl rfl rfl
  | network => exact published_networkStep h hstep
  | gl => exact published_glStep h hstep

/-! ### When the handlers fail -/

theorem coerceIn_eq_none {n lo hi : ℤ} : coerceIn n lo hi = none ↔ hi < lo := by
  rw [coerceIn]
  split
  next hempty => exact iff_of_true rfl hempty
  next hempty => exact iff_of_false (by simp) hempty

theorem coerceIn_mem {n lo hi m : ℤ} (h : coerceIn n lo hi = some m) : lo ≤ m ∧ m ≤ hi := by
  rw [coerceIn] at h
  split at h <;> [cases h; skip]
  obtain rfl := Option.some_inj.mp h
  split_ifs
  · omega
  · omega
  · omega

/-- `coerceIn` on both axes fails exactly if one of the sizes is not positive. -/
theorem coerceIn_both_isSome {α : Type*} {x y w h : ℤ} (f : ℤ → ℤ → α) :
    ((coerceIn x 0 (w - 1)).bind fun x => (coerceIn y 0 (h - 1)).map (f x)).isSome ↔
      0 < w ∧ 0 < h := by
  rcases hx : coerceIn x 0 (w - 1) with _ | nx
  · have hw := coerceIn_eq_none.mp hx
    exact iff_of_false (by simp) (by omega)
  have hw := coerceIn_mem hx
  rcases hy : coerceIn y 0 (h - 1) with _ | ny
  · have hh := coerceIn_eq_none.mp hy
    exact iff_of_false (by simp) (by omega)
  · have hh := coerceIn_mem hy
    exact iff_of_true rfl (by omega)

variable [FloatOps F]

theorem toFramebuffer_isSome_iff {v : Viewport} {x y : F} :
    (v.toFramebuffer x y).isSome ↔
      (v.inside x y = true → 0 < v.framebufferWidth ∧ 0 < v.framebufferHeight) := by
  rw [Viewport.toFramebuffer, Viewport.inside]
  rcases v.fraction x y with _ | ⟨fx, fy⟩
  · exact iff_of_true rfl fun h => by simp at h
  · exact (coerceIn_both_isSome fun x y => some (x, y)).trans ⟨fun h _ => h, fun h => h rfl⟩

theorem hasPixel_of_toFramebuffer {v : Viewport} {x y : F} {p : ℤ × ℤ}
    (h : v.toFramebuffer x y = some (some p)) : v.HasPixel p := by
  rw [Viewport.toFramebuffer] at h
  rcases hf : v.fraction x y with _ | ⟨fx, fy⟩
  · simp only [hf] at h
    cases h
  · simp only [hf] at h
    obtain ⟨nx, hx, h⟩ := Option.bind_eq_some_iff.mp h
    obtain ⟨ny, hy, h⟩ := Option.map_eq_some_iff.mp h
    obtain rfl := Option.some_inj.mp h
    have hx := coerceIn_mem hx
    have hy := coerceIn_mem hy
    exact ⟨hx.1, by omega, hy.1, by omega⟩

theorem mouseMove_isSome_iff {v : Viewport} {cfg : TouchpadConfig F} {e : TouchEvent F}
    {s : State F} :
    (mouseMove v cfg e s).isSome ↔ 0 < v.framebufferWidth ∧ 0 < v.framebufferHeight := by
  rw [mouseMove]
  dsimp only
  rw [Option.isSome_map, movePointer_eq, Option.isSome_map, pointerTarget]
  exact coerceIn_both_isSome Prod.mk

/-- In MOUSE mode only a sample that moves the cursor can fail. -/
theorem mouseHandle_isSome_iff {v : Viewport} {cfg : TouchpadConfig F} {e : TouchEvent F}
    {s : State F} :
    (mouseHandle v cfg e s).isSome ↔
      (e.action = .move → 0 < v.viewportWidth → 0 < v.framebufferWidth →
        0 < v.framebufferHeight) := by
  have hlaidOut : v.laidOut = true ↔ 0 < v.viewportWidth ∧ 0 < v.framebufferWidth := by
    rw [Viewport.laidOut, Bool.not_eq_true', Bool.or_eq_false_iff, decide_eq_false_iff_not,
      decide_eq_false_iff_not, not_le, not_le]
  rw [mouseHandle]
  by_cases hout : v.laidOut = true
  · obtain ⟨hview, hframe⟩ := hlaidOut.mp hout
    rw [hout, if_neg (by simp)]
    split
    next hdown => exact iff_of_true rfl fun hmove => absurd (hdown.symm.trans hmove) (by simp)
    next hmove =>
      rw [mouseMove_isSome_iff]
      exact ⟨fun h _ _ _ => h.2, fun h => ⟨hframe, h hmove hview hframe⟩⟩
    next hup => exact iff_of_true rfl fun hmove => absurd (hup.symm.trans hmove) (by simp)
    next hcancel => exact iff_of_true rfl fun hmove => absurd (hcancel.symm.trans hmove) (by simp)
    next hmove _ _ => exact iff_of_true rfl fun h => absurd h hmove
  · rw [if_pos (by simpa using hout)]
    exact iff_of_true rfl fun _ hview hframe => absurd (hlaidOut.mpr ⟨hview, hframe⟩) hout

/-- Two fingers fail in no other way than by turns of the wheel. -/
theorem outOfTurns_of_scrollHandle {cfg : TouchpadConfig F} {fuel : ℕ} {e : TouchEvent F}
    {s : State F} (htwo : 2 ≤ e.pointerCount)
    (h : scrollHandle cfg fuel e (dropPress s) = none) : OutOfTurns cfg fuel e s := by
  refine ⟨htwo, ?_⟩
  cases haction : e.action with
  | move =>
    simp only [scrollHandle, haction] at h
    exact ⟨rfl, h⟩
  | down => simp [scrollHandle, haction] at h
  | up => simp [scrollHandle, haction] at h
  | cancel => simp [scrollHandle, haction] at h
  | pointerDown => simp [scrollHandle, haction] at h
  | pointerUp => simp [scrollHandle, haction] at h
  | other => simp [scrollHandle, haction] at h

/-! ### The samples that are mapped -/

/-- Where the handlers get past what the sample asks of the sizes, and null or a pixel
comes out. -/
theorem mapped_of {v : Viewport} {e : TouchEvent F}
    (hpixel : v.inside e.x e.y = true → 0 < v.framebufferWidth ∧ 0 < v.framebufferHeight)
    (hmoves : v.MovesCursor e → 0 < v.framebufferHeight) : Mapped v e where
  handled s cfg fuel h := by
    rw [onTouch] at h
    split at h
    next htwo => exact outOfTurns_of_scrollHandle htwo h
    next hone =>
      split at h
      · cases h
      split at h
      · have hsome : (mouseHandle v cfg e s).isSome :=
          mouseHandle_isSome_iff.mpr fun hmove hview hframe =>
            hmoves ⟨Nat.lt_of_not_le hone, hmove, hview, hframe⟩
        rw [h] at hsome
        cases hsome
      · have hsome : (v.toFramebuffer e.x e.y).isSome := toFramebuffer_isSome_iff.mpr hpixel
        rw [Option.map_eq_none_iff.mp h] at hsome
        cases hsome
  pixel := by
    obtain ⟨fb, hfb⟩ := Option.isSome_iff_exists.mp (toFramebuffer_isSome_iff.mpr hpixel)
    exact ⟨fb, hfb, fun p hp => hasPixel_of_toFramebuffer (hp ▸ hfb)⟩

theorem Mapped.inside {v : Viewport} {e : TouchEvent F} (h : Mapped v e)
    (hinside : v.inside e.x e.y = true) : 0 < v.framebufferHeight := by
  obtain ⟨fb, hfb, -⟩ := h.pixel
  have hsome : (v.toFramebuffer e.x e.y).isSome := by
    rw [hfb]
    rfl
  exact (toFramebuffer_isSome_iff.mp hsome hinside).2

theorem Mapped.movesCursor {v : Viewport} {e : TouchEvent F} (h : Mapped v e)
    (hmoves : v.MovesCursor e) : 0 < v.framebufferHeight := by
  obtain ⟨hone, hmove, hview, hframe⟩ := hmoves
  -- any settings will do, and the handlers as they are created in MOUSE mode
  let cfg : TouchpadConfig F := ⟨.rightClick, FloatOps.ofInt 0, FloatOps.ofInt 0, 0, 0⟩
  have htouch : onTouch v cfg 0 e (initial true) = mouseHandle v cfg e (initial true) := by
    rw [onTouch, if_neg (Nat.not_le_of_lt hone)]
    rfl
  by_contra hheight
  have hnone : onTouch v cfg 0 e (initial true) = none := by
    rw [htouch, ← Option.not_isSome_iff_eq_none, mouseHandle_isSome_iff]
    exact fun hsome => hheight (hsome hmove hview hframe)
  have htwo := (h.handled _ _ _ hnone).1
  omega

theorem published_of_run {r : Renderer} {as : List RendererAction}
    (hrun : run (Renderer.step F) {} as = some r) : Published r :=
  run_invariant_of_step (fun _ _ _ h hstep => published_step h hstep) published_initial hrun

/-- In every state of the renderer, a sample is mapped exactly if the height of the
framebuffer is published or the sample does not need it. -/
theorem mapped_iff {r : Renderer} {as : List RendererAction}
    (hrun : run (Renderer.step F) {} as = some r) (e : TouchEvent F) :
    Mapped r.viewport e ↔ r.viewport.Mappable e := by
  have hpublished := published_of_run hrun
  have hnonneg : 0 ≤ r.viewport.framebufferHeight := hpublished.height
  constructor
  · intro h
    by_cases hheight : r.viewport.framebufferHeight = 0
    · refine Or.inr ⟨?_, fun hmoves => ?_⟩
      · rw [← Bool.not_eq_true]
        exact fun hinside => absurd (h.inside hinside) (by omega)
      · exact absurd (h.movesCursor hmoves) (by omega)
    · exact Or.inl hheight
  · rintro (hheight | ⟨houtside, hstays⟩)
    · have hwidth : 0 < r.viewport.framebufferWidth := hpublished.order (Or.inl hheight)
      exact mapped_of (fun _ => ⟨hwidth, by omega⟩) fun _ => by omega
    · refine mapped_of (fun hinside => ?_) fun hmoves => absurd hmoves hstays
      rw [houtside] at hinside
      cases hinside

/-! ### Before the first frame -/

/-- The surface is laid out and no frame has arrived. -/
def waiting : List RendererAction := .onSurfaceChanged 100 100 :: List.replicate 6 .gl

/-- The first frame has arrived and is drawn. -/
def shown : List RendererAction :=
  waiting ++ RendererAction.updateFramebuffer 50 50 :: .network :: .network :: .onDrawFrame ::
    List.replicate 6 RendererAction.gl

def press : TouchEvent ℚ := ⟨.down, 1, 50, 50, 0, 0, 0⟩

/-- A finger on the empty surface. -/
theorem waiting_not_mapped :
    ∃ r, run (Renderer.step ℚ) {} waiting = some r ∧ ¬ Mapped r.viewport press ∧
      onTouch r.viewport defaults 0 press (initial false) = none := by
  have heval : run (Renderer.step ℚ) {} waiting =
      some { surfaceWidth := 100, surfaceHeight := 100, viewportWidth := 100,
             viewportHeight := 100 } := by decide +kernel
  refine ⟨_, heval, fun h => ?_, ?_⟩
  · have hinside : Viewport.inside ⟨0, 0, 100, 100, 0, 0⟩ press.x press.y = true := by
      decide +kernel
    exact absurd (h.inside hinside) (by decide)
  · rw [← Option.not_isSome_iff_eq_none]
    decide +kernel

/-- The same finger on the first frame. -/
theorem shown_mapped :
    ∃ r, run (Renderer.step ℚ) {} shown = some r ∧ Mapped r.viewport press := by
  have heval : (run (Renderer.step ℚ) {} shown).map Renderer.framebufferHeight = some 50 := by
    decide +kernel
  obtain ⟨r, hrun, hheight⟩ := Option.map_eq_some_iff.mp heval
  refine ⟨r, hrun, (mapped_iff hrun press).mpr (Or.inl ?_)⟩
  have hfield : r.viewport.framebufferHeight = 50 := hheight
  rw [hfield]
  decide

end Touchpad
