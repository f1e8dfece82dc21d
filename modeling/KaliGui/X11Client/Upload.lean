/-
A frame on its way to the screen (`X11Client.kt`, lines 366 to 412, `X11Renderer.kt`, lines 93
to 108 and 180 to 217, `LauncherActivity.kt`, lines 469 to 483).

The network thread writes a frame into the array whose turn it is, pixel by pixel, and hands
the array to the renderer; GL's thread copies it from there into its own buffer, pixel by
pixel, and gives that to the texture.  No lock is held.

`GLSurfaceView` draws when it was asked to since it began to draw last.

* `netStep`, `glStep` — the two threads; `step` — both, in any order;
* `Paced` — no frame is begun while an upload is under way that was overtaken by another;
* `apart_iff_paced` — the array that is copied is left alone exactly then;
* `texture_whole` — then the texture is always a whole frame;
* `settled_last` — and the last one, once nothing is to be done any more.
-/
import KaliGui.Lib.DoubleBuffer
import Mathlib.Data.Nat.Notation

namespace X11Client.Upload

open Machine

/-! ### State -/

/-- The statements of `updateFramebuffer`. -/
inductive Line
  | pendingWidth
  | pendingHeight
  | pendingPixels
  | framebufferWidth
  | framebufferHeight
  | requestRender
  deriving DecidableEq, Repr

/-- Where the network thread is. -/
inductive NetPc
  | frameLoop
  /-- in the loop over the pixels -/
  | publishFrame
  | updateFramebuffer (line : Line)
  deriving DecidableEq, Repr

/-- Where GL's thread is. -/
inductive GlPc
  | idle
  | onDrawFrame
  /-- before `pendingWidth` and `pendingHeight` are read -/
  | pixelsRead
  | uploadTexture (width height : ℕ)
  deriving DecidableEq, Repr

/-- The pixels of an array, or of a texture. -/
abbrev Frame (w h : ℕ) := Fin (w * h) → ℕ

structure State (w h : ℕ) where
  /-- `frameA` is the slot `true`, `publishA` the turn, `pendingPixels` what is shown, and
  `uploadBuffer` the copy -/
  frames : DoubleBuffer.State (w * h) ℕ
  pendingWidth : ℕ := 0
  pendingHeight : ℕ := 0
  framebufferWidth : ℕ := 0
  framebufferHeight : ℕ := 0
  net : NetPc := .frameLoop
  gl : GlPc := .idle
  /-- `requestRender` was called since GL's thread began to draw last -/
  requested : Bool := false
  /-- the texture, with its size -/
  texture : Option (ℕ × ℕ × Frame w h) := none

variable {w h : ℕ}

/-! ### The threads -/

/-- A step of `publishFrame`, of what it calls. -/
def netStep (s : State w h) : Option (State w h) :=
  match s.net with
  | .frameLoop => none
  | .publishFrame =>
    match DoubleBuffer.step s.frames .write with
    | some frames => some { s with frames }
    | none => some { s with net := .updateFramebuffer .pendingWidth }
  | .updateFramebuffer .pendingWidth =>
    some { s with pendingWidth := w, net := .updateFramebuffer .pendingHeight }
  | .updateFramebuffer .pendingHeight =>
    some { s with pendingHeight := h, net := .updateFramebuffer .pendingPixels }
  | .updateFramebuffer .pendingPixels =>
    (DoubleBuffer.step s.frames .publish).map fun frames =>
      { s with frames, net := .updateFramebuffer .framebufferWidth }
  | .updateFramebuffer .framebufferWidth =>
    some { s with framebufferWidth := w, net := .updateFramebuffer .framebufferHeight }
  | .updateFramebuffer .framebufferHeight =>
    some { s with framebufferHeight := h, net := .updateFramebuffer .requestRender }
  | .updateFramebuffer .requestRender => some { s with requested := true, net := .frameLoop }

/-- A step of `onDrawFrame`. -/
def glStep (s : State w h) : Option (State w h) :=
  match s.gl with
  | .idle => if s.requested then some { s with requested := false, gl := .onDrawFrame } else none
  | .onDrawFrame =>
    match DoubleBuffer.step s.frames .take with
    | some frames => some { s with frames, gl := .pixelsRead }
    | none => some { s with gl := .idle }
  | .pixelsRead =>
    if 0 < s.pendingWidth ∧ 0 < s.pendingHeight then
      some { s with gl := .uploadTexture s.pendingWidth s.pendingHeight }
    else some { s with frames := { s.frames with reading := none }, gl := .idle }
  | .uploadTexture width height =>
    match DoubleBuffer.step s.frames .copy with
    | some frames => some { s with frames }
    | none => (DoubleBuffer.step s.frames .finish).map fun frames =>
      { s with frames, texture := some (width, height, s.frames.copy), gl := .idle }

inductive Act (w h : ℕ)
  /-- the frame loop has a frame that is not the last one -/
  | frame (pixels : Frame w h)
  | net
  /-- `requestRender` of the UI thread, for the pointer or a new connection -/
  | requestRender
  | gl

def step (s : State w h) : Act w h → Option (State w h)
  | .frame pixels =>
    if s.net = .frameLoop then
      (DoubleBuffer.step s.frames (.start pixels)).map fun frames =>
        { s with frames, net := .publishFrame }
    else none
  | .net => netStep s
  | .requestRender => some { s with requested := true }
  | .gl => glStep s

/-- The arrays and the upload buffer are new. -/
def initial (publishA : Bool) : State w h where
  frames := { slots := fun _ _ => 0, turn := publishA, copy := fun _ => 0 }

/-- No frame is begun while an upload is under way since the begin of which another one was
handed over. -/
def Paced (s : State w h) : Act w h → Prop
  | .frame _ => ¬DoubleBuffer.Overtaken s.frames
  | _ => True

instance (s : State w h) : ∀ a : Act w h, Decidable (Paced s a)
  | .frame _ => inferInstanceAs (Decidable (¬_))
  | .net => .isTrue trivial
  | .requestRender => .isTrue trivial
  | .gl => .isTrue trivial

/-! ### What holds in every state -/

/-- Before the array is handed over. -/
def NetPc.writes : NetPc → Bool
  | .publishFrame => true
  | .updateFramebuffer .pendingWidth => true
  | .updateFramebuffer .pendingHeight => true
  | .updateFramebuffer .pendingPixels => true
  | _ => false

/-- Between the array and the request. -/
def NetPc.asks : NetPc → Bool
  | .updateFramebuffer .framebufferWidth => true
  | .updateFramebuffer .framebufferHeight => true
  | .updateFramebuffer .requestRender => true
  | _ => false

/-- After `pendingWidth`, and before the array is handed over. -/
def NetPc.wroteWidth : NetPc → Bool
  | .updateFramebuffer .pendingHeight => true
  | .updateFramebuffer .pendingPixels => true
  | _ => false

def NetPc.wroteHeight : NetPc → Bool
  | .updateFramebuffer .pendingPixels => true
  | _ => false

def GlPc.reads : GlPc → Bool
  | .pixelsRead => true
  | .uploadTexture _ _ => true
  | _ => false

/-- What holds in every state of a run that is paced. -/
structure Inv (s : State w h) : Prop where
  frames : DoubleBuffer.Inv s.frames
  writes : s.frames.writing.isSome = s.net.writes
  reads : s.frames.reading.isSome = s.gl.reads
  width : s.frames.shown.isSome = true ∨ s.net.wroteWidth = true → s.pendingWidth = w
  height : s.frames.shown.isSome = true ∨ s.net.wroteHeight = true → s.pendingHeight = h
  upload : ∀ width height, s.gl = .uploadTexture width height → width = w ∧ height = h
  /-- a frame that was not taken will be asked for -/
  late : s.frames.late = true → s.requested = true ∨ s.gl = .onDrawFrame ∨ s.net.asks = true
  whole : ∀ t ∈ s.texture, ∃ pixels ∈ s.frames.pictures, t = (w, h, pixels)
  last : s.frames.reading = none → s.frames.late = false →
    ∀ pixels ∈ s.frames.pictures.head?, s.texture = some (w, h, pixels)

variable {s s' : State w h}

theorem inv_initial (publishA : Bool) : Inv (initial publishA : State w h) where
  frames := DoubleBuffer.inv_start ..
  writes := rfl
  reads := rfl
  width hor := hor.elim (absurd · Bool.false_ne_true) (absurd · Bool.false_ne_true)
  height hor := hor.elim (absurd · Bool.false_ne_true) (absurd · Bool.false_ne_true)
  upload _ _ hgl := GlPc.noConfusion hgl
  late hlate := absurd hlate Bool.false_ne_true
  whole _ ht := absurd ht.symm (Option.some_ne_none _)
  last _ _ _ ht := absurd ht.symm (Option.some_ne_none _)

/-- The network thread goes from one statement to the next, and the arrays stay. -/
theorem Inv.goto (hI : Inv s) {net : NetPc} {pendingWidth pendingHeight fbWidth fbHeight : ℕ}
    {requested : Bool} (hwrites : net.writes = s.net.writes)
    (hwidth : s.frames.shown.isSome = true ∨ net.wroteWidth = true → pendingWidth = w)
    (hheight : s.frames.shown.isSome = true ∨ net.wroteHeight = true → pendingHeight = h)
    (hrequested : s.requested = true → requested = true)
    (hasks : s.net.asks = true → requested = true ∨ net.asks = true) :
    Inv { s with
      net, pendingWidth, pendingHeight, framebufferWidth := fbWidth
      framebufferHeight := fbHeight, requested } where
  frames := hI.frames
  writes := hI.writes.trans hwrites.symm
  reads := hI.reads
  width := hwidth
  height := hheight
  upload := hI.upload
  late hlate := by
    rcases hI.late hlate with hreq | hgl | hnet
    · exact .inl (hrequested hreq)
    · exact .inr (.inl hgl)
    · exact (hasks hnet).imp_right .inr
  whole := hI.whole
  last := hI.last

theorem Inv.frame (hI : Inv s) (hnet : s.net = .frameLoop) {pixels : Frame w h}
    (hpaced : ¬DoubleBuffer.Overtaken s.frames) (hidle : s.frames.writing = none) :
    Inv { s with
      frames := { s.frames with
        writing := some ⟨s.frames.turn, pixels, 0⟩, turn := !s.frames.turn }
      net := .publishFrame } where
  frames := hI.frames.start hidle hpaced pixels
  writes := rfl
  reads := hI.reads
  width hor := hor.elim (fun hshown => hI.width (.inl hshown)) (absurd · Bool.false_ne_true)
  height hor := hor.elim (fun hshown => hI.height (.inl hshown)) (absurd · Bool.false_ne_true)
  upload := hI.upload
  late hlate := by
    have hasks : s.net.asks = true → (NetPc.publishFrame).asks = true := by
      rw [hnet]
      exact id
    exact (hI.late hlate).imp_right (Or.imp_right hasks)
  whole := hI.whole
  last := hI.last

theorem Inv.pixel (hI : Inv s) (hnet : s.net = .publishFrame)
    {frames : DoubleBuffer.State (w * h) ℕ}
    (hs : DoubleBuffer.step s.frames .write = some frames) : Inv { s with frames } := by
  have hframes := DoubleBuffer.inv_step (a := .write) hI.frames trivial hs
  obtain ⟨_, _, _, rfl⟩ := DoubleBuffer.step_write hs
  refine ⟨hframes, ?_, hI.reads, hI.width, hI.height, hI.upload, hI.late, hI.whole, hI.last⟩
  rw [hnet]
  rfl

theorem Inv.handOver (hI : Inv s) (hnet : s.net = .updateFramebuffer .pendingPixels)
    {frames : DoubleBuffer.State (w * h) ℕ}
    (hs : DoubleBuffer.step s.frames .publish = some frames) :
    Inv { s with frames, net := .updateFramebuffer .framebufferWidth } := by
  have hframes := DoubleBuffer.inv_step (a := .publish) hI.frames trivial hs
  obtain ⟨_, _, _, rfl⟩ := DoubleBuffer.step_publish hs
  refine ⟨hframes, rfl, hI.reads, fun _ => hI.width (.inr (by rw [hnet]; rfl)),
    fun _ => hI.height (.inr (by rw [hnet]; rfl)), hI.upload, fun _ => .inr (.inr rfl), ?_, ?_⟩
  · intro t ht
    obtain ⟨pixels, hmem, heq⟩ := hI.whole t ht
    exact ⟨pixels, List.mem_cons_of_mem _ hmem, heq⟩
  · intro _ hlate
    exact absurd hlate.symm Bool.false_ne_true

theorem Inv.width_of_shown (hI : Inv s) {b : Bool} (hb : b = false)
    (hor : s.frames.shown.isSome = true ∨ b = true) : s.pendingWidth = w := by
  rw [hb] at hor
  exact hor.elim (fun hshown => hI.width (.inl hshown)) (absurd · Bool.false_ne_true)

theorem Inv.height_of_shown (hI : Inv s) {b : Bool} (hb : b = false)
    (hor : s.frames.shown.isSome = true ∨ b = true) : s.pendingHeight = h := by
  rw [hb] at hor
  exact hor.elim (fun hshown => hI.height (.inl hshown)) (absurd · Bool.false_ne_true)

theorem Inv.net (hI : Inv s) (hs : netStep s = some s') : Inv s' := by
  have hnot : s.net.asks = false → ∀ {b : Prop}, s.net.asks = true → b := by
    intro hfalse b htrue
    rw [hfalse] at htrue
    exact absurd htrue Bool.false_ne_true
  rw [netStep] at hs
  split at hs
  · exact absurd hs.symm (Option.some_ne_none _)
  · rename_i hnet
    split at hs
    · rename_i frames hwrite
      rw [← Option.some_inj.mp hs]
      exact hI.pixel hnet hwrite
    · rw [← Option.some_inj.mp hs]
      exact hI.goto (by rw [hnet]; rfl) (hI.width_of_shown rfl) (hI.height_of_shown rfl) id
        (hnot (by rw [hnet]; rfl))
  · rename_i hnet
    rw [← Option.some_inj.mp hs]
    exact hI.goto (by rw [hnet]; rfl) (fun _ => rfl) (hI.height_of_shown rfl) id
      (hnot (by rw [hnet]; rfl))
  · rename_i hnet
    rw [← Option.some_inj.mp hs]
    exact hI.goto (by rw [hnet]; rfl) (fun _ => hI.width (.inr (by rw [hnet]; rfl)))
      (fun _ => rfl) id (hnot (by rw [hnet]; rfl))
  · rename_i hnet
    obtain ⟨frames, hpublish, rfl⟩ := Option.map_eq_some_iff.mp hs
    exact hI.handOver hnet hpublish
  · rename_i hnet
    rw [← Option.some_inj.mp hs]
    exact hI.goto (by rw [hnet]; rfl) (hI.width_of_shown rfl) (hI.height_of_shown rfl) id
      fun _ => .inr rfl
  · rename_i hnet
    rw [← Option.some_inj.mp hs]
    exact hI.goto (by rw [hnet]; rfl) (hI.width_of_shown rfl) (hI.height_of_shown rfl) id
      fun _ => .inr rfl
  · rename_i hnet
    rw [← Option.some_inj.mp hs]
    exact hI.goto (by rw [hnet]; rfl) (hI.width_of_shown rfl) (hI.height_of_shown rfl)
      (fun _ => rfl) fun _ => .inl rfl

/-- GL's thread takes the array, or finds that there is none. -/
theorem Inv.take (hI : Inv s) {frames : DoubleBuffer.State (w * h) ℕ}
    (hs : DoubleBuffer.step s.frames .take = some frames) :
    Inv { s with frames, gl := .pixelsRead } := by
  have hframes := DoubleBuffer.inv_step (a := .take) hI.frames trivial hs
  obtain ⟨_, _, rfl⟩ := DoubleBuffer.step_take hs
  refine ⟨hframes, hI.writes, rfl, hI.width, hI.height, fun _ _ hne => GlPc.noConfusion hne, ?_,
    hI.whole, fun hnone => absurd hnone (Option.some_ne_none _)⟩
  exact fun hlate => absurd hlate Bool.false_ne_true

/-- What is taken was handed over, with its size. -/
theorem Inv.shown (hI : Inv s) {r : DoubleBuffer.Reading (w * h) ℕ}
    (hr : s.frames.reading = some r) : s.frames.shown.isSome = true := by
  have hmem := (hI.frames.source r hr).2
  have hhead := hI.frames.picture
  cases hshown : s.frames.shown with
  | some slot => rfl
  | none =>
    rw [hshown, Option.map_none, List.head?_eq_none_iff] at hhead
    rw [hhead] at hmem
    exact absurd hmem List.not_mem_nil

theorem Inv.size (hI : Inv s) (hgl : s.gl.reads = true) :
    s.pendingWidth = w ∧ s.pendingHeight = h := by
  obtain ⟨r, hr⟩ := Option.isSome_iff_exists.mp (hI.reads.trans hgl)
  exact ⟨hI.width (.inl (hI.shown hr)), hI.height (.inl (hI.shown hr))⟩

theorem Inv.pixelCopied (hI : Inv s) {width height : ℕ} (hgl : s.gl = .uploadTexture width height)
    {frames : DoubleBuffer.State (w * h) ℕ}
    (hs : DoubleBuffer.step s.frames .copy = some frames) : Inv { s with frames } := by
  have hframes := DoubleBuffer.inv_step (a := .copy) hI.frames trivial hs
  obtain ⟨_, _, _, rfl⟩ := DoubleBuffer.step_copy hs
  refine ⟨hframes, hI.writes, ?_, hI.width, hI.height, hI.upload, hI.late, hI.whole,
    fun hnone => absurd hnone (Option.some_ne_none _)⟩
  rw [hgl]
  rfl

/-- The texture gets the frame that was handed over last when the upload began. -/
theorem Inv.uploaded (hI : Inv s) {width height : ℕ} (hgl : s.gl = .uploadTexture width height)
    {frames : DoubleBuffer.State (w * h) ℕ}
    (hs : DoubleBuffer.step s.frames .finish = some frames) :
    Inv { s with frames, texture := some (width, height, s.frames.copy), gl := .idle } := by
  have hframes := DoubleBuffer.inv_step (a := .finish) hI.frames trivial hs
  obtain ⟨r, hr, hdone, rfl⟩ := DoubleBuffer.step_finish hs
  obtain ⟨rfl, rfl⟩ := hI.upload width height hgl
  obtain ⟨hcopy, hmem⟩ := hI.frames.copy_eq hr hdone
  refine ⟨hframes, hI.writes, rfl, hI.width, hI.height, fun _ _ hne => GlPc.noConfusion hne, ?_,
    ?_, ?_⟩
  · intro hlate
    rcases hI.late hlate with hreq | hdraw | hasks
    · exact .inl hreq
    · exact GlPc.noConfusion (hgl.symm.trans hdraw)
    · exact .inr (.inr hasks)
  · intro t ht
    rw [← Option.some_inj.mp ht, hcopy]
    exact ⟨r.picture, hmem, rfl⟩
  · intro _ hlate pixels hpixels
    rw [← hframes.idle rfl hlate pixels hpixels]

theorem Inv.gl (hI : Inv s) (hw : 0 < w) (hh : 0 < h) (hs : glStep s = some s') : Inv s' := by
  rw [glStep] at hs
  split at hs
  · rename_i hgl
    obtain ⟨hrequested, rfl⟩ := enabled_eq_some.mp hs
    refine ⟨hI.frames, hI.writes, ?_, hI.width, hI.height, fun _ _ hne => GlPc.noConfusion hne,
      fun _ => .inr (.inl rfl), hI.whole, hI.last⟩
    rw [hI.reads, hgl]
    rfl
  · rename_i hgl
    split at hs
    · rename_i frames htake
      rw [← Option.some_inj.mp hs]
      exact hI.take htake
    · rename_i htake
      rw [← Option.some_inj.mp hs]
      -- there is nothing to take, so no frame is late
      have hreading : s.frames.reading = none := by
        rw [← Option.not_isSome_iff_eq_none, hI.reads, hgl]
        exact Bool.false_ne_true
      have hshown := DoubleBuffer.shown_of_take hreading htake
      refine ⟨hI.frames, hI.writes, ?_, hI.width, hI.height, fun _ _ hne => GlPc.noConfusion hne,
        fun hlate => ?_, hI.whole, hI.last⟩
      · rw [hI.reads, hgl]
        rfl
      · have hsome := hI.frames.late hlate
        rw [hshown] at hsome
        exact absurd hsome Bool.false_ne_true
  · rename_i hgl
    obtain ⟨hwidth, hheight⟩ := hI.size (by rw [hgl]; rfl)
    rw [if_pos (by rw [hwidth, hheight]; exact ⟨hw, hh⟩), Option.some_inj] at hs
    rw [← hs]
    refine ⟨hI.frames, hI.writes, ?_, hI.width, hI.height, ?_, fun hlate => ?_, hI.whole, hI.last⟩
    · rw [hI.reads, hgl]
      rfl
    · intro width height hupload
      obtain ⟨rfl, rfl⟩ := GlPc.uploadTexture.inj hupload
      exact ⟨hwidth, hheight⟩
    · rcases hI.late hlate with hreq | hdraw | hasks
      · exact .inl hreq
      · exact GlPc.noConfusion (hgl.symm.trans hdraw)
      · exact .inr (.inr hasks)
  · rename_i width height hgl
    split at hs
    · rename_i frames hcopy
      rw [← Option.some_inj.mp hs]
      exact hI.pixelCopied hgl hcopy
    · obtain ⟨frames, hfinish, rfl⟩ := Option.map_eq_some_iff.mp hs
      exact hI.uploaded hgl hfinish

theorem inv_step (hw : 0 < w) (hh : 0 < h) (s : State w h) (a : Act w h) (s' : State w h)
    (hI : Inv s) (hpaced : Paced s a) (hs : step s a = some s') : Inv s' := by
  cases a with
  | frame pixels =>
    rw [step] at hs
    split at hs
    · rename_i hnet
      obtain ⟨frames, hstart, rfl⟩ := Option.map_eq_some_iff.mp hs
      obtain ⟨hidle, rfl⟩ := DoubleBuffer.step_start hstart
      exact hI.frame hnet hpaced hidle
    · exact absurd hs.symm (Option.some_ne_none _)
  | net => exact hI.net hs
  | requestRender =>
    rw [← Option.some_inj.mp hs]
    exact hI.goto rfl hI.width hI.height (fun _ => rfl) fun _ => .inl rfl
  | gl => exact hI.gl hw hh hs

/-! ### Runs -/

variable {publishA : Bool} {acts : List (Act w h)}

theorem inv_run (hw : 0 < w) (hh : 0 < h) (hpaced : Meets step Paced (initial publishA) acts)
    (hrun : run step (initial publishA) acts = some s) : Inv s :=
  run_invariant (inv_step hw hh) (inv_initial publishA) hpaced hrun

/-- In a run that is paced, the texture always has the size of the screen and a frame that
was handed over, whole. -/
theorem texture_whole (hw : 0 < w) (hh : 0 < h)
    (hpaced : Meets step Paced (initial publishA) acts)
    (hrun : run step (initial publishA) acts = some s) :
    ∀ t ∈ s.texture, ∃ pixels ∈ s.frames.pictures, t = (w, h, pixels) :=
  (inv_run hw hh hpaced hrun).whole

/-- The array that is copied is never the one that is written, if and only if the run is
paced. -/
theorem apart_iff_paced (hw : 0 < w) (hh : 0 < h)
    (hrun : run step (initial publishA) acts = some s) :
    Always step (fun s => DoubleBuffer.Apart s.frames) (initial publishA) acts ↔
      Meets step Paced (initial publishA) acts := by
  refine always_iff_meets (fun _ hI => hI.frames.apart) ?_ (inv_step hw hh)
    (inv_initial publishA) hrun
  intro s a s' hI hs
  refine ⟨fun hpaced => (inv_step hw hh s a s' hI hpaced hs).frames.apart, fun hapart => ?_⟩
  cases a with
  | frame pixels =>
    rw [step] at hs
    split at hs
    · obtain ⟨frames, hstart, rfl⟩ := Option.map_eq_some_iff.mp hs
      exact (DoubleBuffer.paced_iff_apart hI.frames hstart).mpr hapart
    · exact absurd hs.symm (Option.some_ne_none _)
  | net => trivial
  | requestRender => trivial
  | gl => trivial

/-- A frame of two pixels. -/
def twoPixels (a b : ℕ) : Frame 2 1 := fun i => if i.val = 0 then a else b

/-- A frame is begun and handed over while the one before is uploaded. -/
def overlapped : List (Act 2 1) :=
  Act.frame (twoPixels 1 2) :: List.replicate 9 Act.net ++ List.replicate 4 Act.gl ++
    Act.frame (twoPixels 3 4) :: List.replicate 5 Act.net ++ List.replicate 2 Act.gl ++
    List.replicate 4 Act.net

theorem overlapped_paced : Meets step Paced (initial true) overlapped := by decide +kernel

theorem overlapped_whole : ∃ s, run step (initial true) overlapped = some s ∧
    s.texture.isSome = true ∧
      ∀ t ∈ s.texture, ∃ pixels ∈ s.frames.pictures, t = (2, 1, pixels) := by
  have heval : (run step (initial true) overlapped).map (fun s => s.texture.isSome) =
      some true := by
    decide +kernel
  obtain ⟨s, hrun, hsome⟩ := Option.map_eq_some_iff.mp heval
  exact ⟨s, hrun, hsome, texture_whole (by decide) (by decide) overlapped_paced hrun⟩

theorem overlapped_apart :
    Always step (fun s => DoubleBuffer.Apart s.frames) (initial true) overlapped := by
  have heval : (run step (initial true) overlapped).isSome = true := by decide +kernel
  obtain ⟨s, hrun⟩ := Option.isSome_iff_exists.mp heval
  exact (apart_iff_paced (by decide) (by decide) hrun).mpr overlapped_paced

/-- In a run that is paced, once the network thread waits for the next image, no drawing is
asked for and none is under way, the texture is the last frame that was handed over. -/
theorem settled_last (hw : 0 < w) (hh : 0 < h)
    (hpaced : Meets step Paced (initial publishA) acts)
    (hrun : run step (initial publishA) acts = some s) (hnet : s.net = .frameLoop)
    (hgl : s.gl = .idle) (hrequested : s.requested = false) :
    ∀ pixels ∈ s.frames.pictures.head?, s.texture = some (w, h, pixels) := by
  have hI := inv_run hw hh hpaced hrun
  refine hI.last ?_ ?_
  · rw [← Option.not_isSome_iff_eq_none, hI.reads, hgl]
    exact Bool.false_ne_true
  · rw [← Bool.not_eq_true]
    intro hlate
    rcases hI.late hlate with hreq | hdraw | hasks
    · rw [hrequested] at hreq
      exact Bool.false_ne_true hreq
    · rw [hgl] at hdraw
      exact GlPc.noConfusion hdraw
    · rw [hnet] at hasks
      exact Bool.false_ne_true hasks

/-- The second of two frames is on the screen in the end. -/
theorem overlapped_last : ∃ s pixels,
    run step (initial true) (overlapped ++ List.replicate 6 .gl) = some s ∧
      s.frames.pictures.head? = some pixels ∧ s.texture = some (2, 1, pixels) := by
  have heval : (run step (initial true) (overlapped ++ List.replicate 6 .gl)).map
      (fun s => (s.net, s.gl, s.requested, s.frames.pictures.head?.isSome)) =
        some (.frameLoop, .idle, false, true) := by
    decide +kernel
  have hpaced : Meets step Paced (initial true) (overlapped ++ List.replicate 6 .gl) := by
    decide +kernel
  obtain ⟨s, hrun, hs⟩ := Option.map_eq_some_iff.mp heval
  simp only [Prod.mk.injEq] at hs
  obtain ⟨hnet, hgl, hrequested, hsome⟩ := hs
  obtain ⟨pixels, hhead⟩ := Option.isSome_iff_exists.mp hsome
  exact ⟨s, pixels, hrun, hhead, settled_last (by decide) (by decide) hpaced hrun hnet hgl
    hrequested pixels hhead⟩

end X11Client.Upload
