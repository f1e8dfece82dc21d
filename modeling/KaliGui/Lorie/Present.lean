/-
When a presented pixmap is handed back (`present_scmd.c`, `present_execute.c` and
`present_vblank.c` as patched, `InitOutput.c`).

A request to present a pixmap is a vblank on the queue until it is executed.  Its copy
may be left to the renderer: the vblank then stays queued, and is executed again and
again, until the renderer reports the copy's serial.  A flip is over at once here:
`loriePresentAfterFlip` and `loriePresentUnflip` report it before they return, so no
flip is ever pending between two steps.

What the server does not decide is part of an action: when a vblank is executed (its
vblank event, its fence, `lorieRecheckGpuCopies`), what `queue_vblank`, `present_flip`
and `lorieTryScheduleGpuCopy` return (`Env`).

* `presentScmdPixmap`, `presentExecute`, `presentExecuteCopy` — the code;
* `step` — requests, executions, finished copies and destructions, in any order;
* `idle_waits_for_copies` — when no pixmap is handed back while the GPU may read it.
-/
import KaliGui.Lib.Run
import Mathlib.Data.List.Pairwise
import Mathlib.Tactic.Common

namespace Lorie.Present

open Machine

/-! ### State -/

/-- `present_vblank_rec`. -/
structure Vblank where
  eventId : ℕ
  window : ℕ
  pixmap : Option ℕ
  crtc : ℕ
  targetMsc : ℕ
  execMsc : ℕ
  flip : Bool
  gpuCopyPending : Bool
  gpuCopySerial : ℕ

/-- An entry queued for the renderer: its serial and the pixmap it reads. -/
structure Copy where
  serial : ℕ
  src : ℕ

/-- The pixmap on the screen by a flip, and the window it was presented to. -/
structure Flip where
  window : Option ℕ
  pixmap : ℕ

/-- A call of `present_pixmap_idle`; `busy` if a scheduled copy that reads the pixmap
had a serial greater than `completedSerial`. -/
structure Idle where
  pixmap : ℕ
  busy : Bool
  deriving DecidableEq

structure State where
  /-- `present_exec_queue`; each vblank is on its window's list too -/
  vblanks : List Vblank := []
  flip : Option Flip := none
  /-- all copies ever scheduled -/
  copies : List Copy := []
  gpuCopySerialCounter : ℕ := 0
  completedSerial : ℕ := 0
  /-- `present_scmd_event_id` -/
  eventId : ℕ := 0
  /-- the windows destroyed and the pixmaps freed by the client -/
  windowsGone : List ℕ := []
  pixmapsGone : List ℕ := []
  /-- the calls of `present_pixmap_idle` -/
  idles : List Idle := []

/-- A scheduled copy that reads the pixmap is not known to be complete. -/
def State.Reads (s : State) (pixmap : ℕ) : Prop :=
  ∃ c ∈ s.copies, c.src = pixmap ∧ s.completedSerial < c.serial

instance (s : State) (pixmap : ℕ) : Decidable (s.Reads pixmap) :=
  inferInstanceAs (Decidable (∃ c ∈ s.copies, _))

/-- What the code asks others about while it handles a request or executes a vblank. -/
structure Env where
  crtcMsc : ℕ
  /-- `present_vblank_create` succeeds -/
  allocates : Bool := true
  /-- `check_flip` -/
  flip : Bool := false
  /-- `queue_vblank` succeeds: for the request, for the next msc, and for the poll -/
  queues : Bool := true
  requeuesMsc : Bool := true
  requeues : Bool := true
  /-- `present_execute_wait` -/
  waits : Bool := false
  /-- `present_flip` succeeds -/
  flips : Bool := false
  /-- `gpuCopyStalled` -/
  stalled : Bool := false
  /-- `lorieTryScheduleGpuCopy` -/
  accepts : Bool := false

/-! ### Executing a vblank -/

def presentPixmapIdle (pixmap : ℕ) (s : State) : State :=
  { s with idles := s.idles ++ [⟨pixmap, s.Reads pixmap⟩] }

/-- `present_flip_idle` -/
def presentFlipIdle (s : State) : State :=
  match s.flip with
  | none => s
  | some f => { presentPixmapIdle f.pixmap s with flip := none }

/-- `present_unflip` if the window's pixmap is on the screen; the event comes at once. -/
def presentUnflip (window : ℕ) (s : State) : State :=
  if s.flip.bind Flip.window = some window then presentFlipIdle s else s

/-- A successful flip and its `present_flip_notify`. -/
def presentFlip (window pixmap : ℕ) (s : State) : State :=
  { presentFlipIdle s with flip := some ⟨some window, pixmap⟩ }

/-- `lorieGpuCopyIsDone` for the copy of a vblank. -/
def Vblank.copyDone (s : State) (v : Vblank) : Prop := v.gpuCopySerial ≤ s.completedSerial

instance (s : State) (v : Vblank) : Decidable (v.copyDone s) :=
  inferInstanceAs (Decidable (_ ≤ _))

/-- The part of `lorieTryScheduleGpuCopy` that queues the entry. -/
def scheduleGpuCopy (pixmap : ℕ) (s : State) : State :=
  { s with
    gpuCopySerialCounter := s.gpuCopySerialCounter + 1
    copies := s.copies ++ [⟨s.gpuCopySerialCounter + 1, pixmap⟩] }

/-- `present_execute_copy`, with the vblank if it is queued again. -/
def presentExecuteCopy (env : Env) (v : Vblank) (pixmap : ℕ) (s : State) :
    State × Option Vblank :=
  if v.execMsc = env.crtcMsc + 1 ∧ env.requeuesMsc then (s, some v)
  else if v.gpuCopyPending ∧ ¬ v.copyDone s ∧ ¬ env.stalled ∧ env.requeues then (s, some v)
  else if v.gpuCopyPending then
    -- the pixmap is idle whether the copy is done or, the renderer being gone, scrapped
    (presentPixmapIdle pixmap s, none)
  else if env.accepts then
    let s := scheduleGpuCopy pixmap s
    if env.requeues then
      (s, some { v with gpuCopyPending := true, gpuCopySerial := s.gpuCopySerialCounter })
    else (presentPixmapIdle pixmap s, none)
  else (presentPixmapIdle pixmap s, none)

/-- A vblank put back on the queue. -/
def push (v : Vblank) (s : State) : State := { s with vblanks := v :: s.vblanks }

/-- `present_execute` of a vblank that is off the queue, up to `present_vblank_destroy`. -/
def presentExecuteTaken (env : Env) (v : Vblank) (s : State) : State :=
  match v.pixmap with
  | none => s
  | some pixmap =>
    if v.flip ∧ env.flips then presentFlip v.window pixmap s
    else
      let v := { v with flip := false, execMsc := if v.flip then v.targetMsc else v.execMsc }
      match presentExecuteCopy env v pixmap (presentUnflip v.window s) with
      | (s, some v) => push v s
      | (s, none) => s

/-- `present_execute` of the vblank with the event, if there is one. -/
def presentExecute (env : Env) (eventId : ℕ) (s : State) : State :=
  match s.vblanks.find? (·.eventId = eventId) with
  | none => s
  | some v =>
    if env.waits then s
    else
      presentExecuteTaken env v { s with vblanks := s.vblanks.filter (·.eventId ≠ eventId) }

/-! ### Requests -/

/-- `proc_present_pixmap`, or `proc_present_notify_msc` if there is no pixmap. -/
structure Request where
  window : ℕ
  pixmap : Option ℕ
  /-- whether there is an update region -/
  update : Bool
  crtc : ℕ
  targetMsc : ℕ
  divisor : ℕ
  remainder : ℕ
  /-- `PresentOptionAsync` -/
  async : Bool

/-- `present_get_target_msc` -/
def presentGetTargetMsc (targetMscArg crtcMsc divisor remainder : ℕ) (async : Bool) : ℕ :=
  if crtcMsc < targetMscArg then targetMscArg
  else if divisor = 0 then if async then crtcMsc else crtcMsc + 1
  else
    let targetMsc := crtcMsc - crtcMsc % divisor + remainder
    if crtcMsc < targetMsc then targetMsc
    else if ¬ async ∨ targetMsc < crtcMsc then targetMsc + divisor
    else targetMsc

def Request.target (r : Request) (crtcMsc : ℕ) : ℕ :=
  presentGetTargetMsc r.targetMsc crtcMsc r.divisor r.remainder r.async

/-- The request overwrites a vblank of its window in the same frame. -/
def Request.Supersedes (r : Request) (crtcMsc : ℕ) (v : Vblank) : Prop :=
  (r.update = false ∧ r.pixmap.isSome) ∧ v.window = r.window ∧ v.pixmap.isSome ∧
    v.crtc = r.crtc ∧ v.targetMsc = r.target crtcMsc

instance (r : Request) (crtcMsc : ℕ) (v : Vblank) : Decidable (r.Supersedes crtcMsc v) :=
  inferInstanceAs (Decidable (_ ∧ _))

/-- What `present_vblank_scrap` leaves of a vblank. -/
def Vblank.scrapped (v : Vblank) : Vblank :=
  { v with pixmap := none, gpuCopyPending := false, flip := false }

/-- The loop of `present_scmd_pixmap`: each vblank that is overwritten is scrapped, and
its pixmap idle. -/
def scrapSuperseded (r : Request) (crtcMsc : ℕ) (s : State) : State :=
  { s with
    vblanks := s.vblanks.map fun v => if r.Supersedes crtcMsc v then v.scrapped else v
    idles := s.idles ++
      ((s.vblanks.filter (r.Supersedes crtcMsc ·)).filterMap Vblank.pixmap).map
        fun pixmap => ⟨pixmap, s.Reads pixmap⟩ }

/-- `present_vblank_create` -/
def presentVblankCreate (r : Request) (env : Env) (eventId : ℕ) : Vblank where
  eventId := eventId
  window := r.window
  pixmap := r.pixmap
  crtc := r.crtc
  targetMsc := r.target env.crtcMsc
  execMsc := if env.flip then r.target env.crtcMsc - 1 else r.target env.crtcMsc
  flip := env.flip
  gpuCopyPending := false
  gpuCopySerial := 0

/-- The new vblank at the end of the queue. -/
def enqueue (v : Vblank) (s : State) : State :=
  { s with vblanks := s.vblanks ++ [v], eventId := s.eventId + 1 }

/-- `present_scmd_pixmap` -/
def presentScmdPixmap (r : Request) (env : Env) (s : State) : State :=
  let s := scrapSuperseded r env.crtcMsc s
  if ¬ env.allocates then s
  else
    let v := presentVblankCreate r env (s.eventId + 1)
    let s := enqueue v s
    if env.crtcMsc < v.execMsc ∧ env.queues then s else presentExecute env v.eventId s

/-! ### Steps -/

inductive Act
  | request (r : Request) (env : Env)
  | execute (eventId : ℕ) (env : Env)
  /-- the renderer stores `completedSerial` -/
  | gpuCopyDone (serial : ℕ)
  /-- `present_check_flip_window`: whether the flip on the screen still fits the window,
  and which of the window's vblanks may still flip -/
  | checkFlipWindow (window : ℕ) (fits : Bool) (keeps : ℕ → Bool)
  /-- `present_destroy_window`, with `present_free_window_vblank` -/
  | destroyWindow (window : ℕ)
  | freePixmap (pixmap : ℕ)

/-- `present_scmd_clear_window_flip` -/
def clearWindowFlip (window : ℕ) (flip : Option Flip) : Option Flip :=
  flip.map fun f => if f.window = some window then { f with window := none } else f

def step (s : State) : Act → Option State
  | .request r env =>
    if r.window ∈ s.windowsGone ∨ ∃ p ∈ r.pixmap, p ∈ s.pixmapsGone then none
    else some (presentScmdPixmap r env s)
  | .execute eventId env => some (presentExecute env eventId s)
  | .gpuCopyDone serial =>
    if s.completedSerial ≤ serial ∧ serial ≤ s.gpuCopySerialCounter then
      some { s with completedSerial := serial }
    else none
  | .checkFlipWindow window fits keeps =>
    let s := if fits then s else presentUnflip window s
    some { s with
      vblanks := s.vblanks.map fun v =>
        if v.window = window ∧ v.flip ∧ ¬ keeps v.eventId then
          { v with flip := false, execMsc := v.targetMsc }
        else v }
  | .destroyWindow window =>
    some { s with
      vblanks := s.vblanks.filter (·.window ≠ window)
      flip := clearWindowFlip window s.flip
      windowsGone := window :: s.windowsGone }
  | .freePixmap pixmap => some { s with pixmapsGone := pixmap :: s.pixmapsGone }

/-! ### The condition -/

/-- The renderer stays connected, with a surface. -/
def RendererStays (_ : State) : Act → Prop
  | .request _ env => env.stalled = false
  | .execute _ env => env.stalled = false
  | _ => True

/-- `queue_vblank` does not fail where the vblank's copy is scheduled and not complete. -/
def RequeueKept (s : State) (v : Vblank) (env : Env) : Prop :=
  env.requeues = false →
    if v.gpuCopyPending then v.copyDone s else env.accepts = false

/-- Nothing else uses a pixmap that a request presents: it is not being read by a copy,
not on the screen, and not to be presented by a vblank the request leaves there. -/
def PixmapFree (s : State) (r : Request) (crtcMsc : ℕ) (pixmap : ℕ) : Prop :=
  ¬ s.Reads pixmap ∧ (∀ f ∈ s.flip, f.pixmap ≠ pixmap) ∧
    ∀ v ∈ s.vblanks, v.pixmap = some pixmap → r.Supersedes crtcMsc v

/-- A request supersedes no vblank whose copy is under way, and presents a pixmap that
is free; a vblank with a copy under way is queued again. -/
def CopiesUndisturbed (s : State) : Act → Prop
  | .request r env =>
    (∀ v ∈ s.vblanks, r.Supersedes env.crtcMsc v → v.gpuCopyPending = true → v.copyDone s) ∧
      (∀ p ∈ r.pixmap, PixmapFree s r env.crtcMsc p) ∧
      (env.requeues = false → env.accepts = false)
  | .execute eventId env => ∀ v ∈ s.vblanks, v.eventId = eventId → RequeueKept s v env
  | _ => True

/-! ### The invariant -/

/-- Two vblanks, with different events and pixmaps. -/
def Apart (v w : Vblank) : Prop :=
  v.eventId ≠ w.eventId ∧ ∀ p, v.pixmap = some p → w.pixmap ≠ some p

instance : Std.Symm Apart where
  symm _ _ h := ⟨h.1.symm, fun p hw hv => h.2 p hv hw⟩

/-- If a copy that is not complete reads the vblank's pixmap, it is the vblank's own. -/
def OwnCopy (s : State) (v : Vblank) : Prop :=
  ∀ c ∈ s.copies, s.completedSerial < c.serial → v.pixmap = some c.src →
    v.gpuCopyPending = true ∧ v.gpuCopySerial = c.serial

/-- What holds of a vblank on the queue, or of one that is to go there. -/
structure Fits (v : Vblank) (s : State) : Prop where
  fresh : v.eventId ≤ s.eventId
  flipApart : ∀ f ∈ s.flip, v.pixmap ≠ some f.pixmap
  ownCopy : OwnCopy s v
  pendingFlip : v.gpuCopyPending = true → v.flip = false

structure Inv (s : State) : Prop where
  apart : s.vblanks.Pairwise Apart
  fits : ∀ v ∈ s.vblanks, Fits v s
  flipRead : ∀ f ∈ s.flip, ¬ s.Reads f.pixmap
  completed : s.completedSerial ≤ s.gpuCopySerialCounter
  safe : ∀ i ∈ s.idles, i.busy = false

theorem Inv.initial : Inv {} where
  apart := List.Pairwise.nil
  fits v hv := absurd hv List.not_mem_nil
  flipRead f hf := by simp at hf
  completed := Nat.le_refl _
  safe i hi := absurd hi List.not_mem_nil

/-- No copy reads the pixmap of a vblank whose own copy is not under way. -/
theorem Fits.not_reads {v : Vblank} {s : State} {p : ℕ} (h : Fits v s) (hp : v.pixmap = some p)
    (hdone : v.gpuCopyPending = true → v.copyDone s) : ¬ s.Reads p := by
  rintro ⟨c, hc, rfl, hlt⟩
  obtain ⟨hpending, hserial⟩ := h.ownCopy c hc hlt hp
  have hle : v.gpuCopySerial ≤ s.completedSerial := hdone hpending
  omega

/-! ### What keeps the invariant -/

variable {s : State} {v : Vblank} {p : ℕ}

theorem Inv.idle (h : Inv s) (hp : ¬ s.Reads p) : Inv (presentPixmapIdle p s) where
  apart := h.apart
  fits v hv := ⟨(h.fits v hv).fresh, (h.fits v hv).flipApart, (h.fits v hv).ownCopy,
    (h.fits v hv).pendingFlip⟩
  flipRead := h.flipRead
  completed := h.completed
  safe i hi := by
    rcases List.mem_append.mp hi with hi | hi
    · exact h.safe i hi
    · rw [List.mem_singleton.mp hi]
      exact decide_eq_false hp

/-- Vblanks can leave the queue. -/
theorem Inv.sublist (h : Inv s) {vblanks : List Vblank} (hsub : vblanks.Sublist s.vblanks) :
    Inv { s with vblanks := vblanks } where
  apart := h.apart.sublist hsub
  fits v hv := by
    have hfits := h.fits v (hsub.subset hv)
    exact ⟨hfits.fresh, hfits.flipApart, hfits.ownCopy, hfits.pendingFlip⟩
  flipRead := h.flipRead
  completed := h.completed
  safe := h.safe

/-- A vblank that fits can join the queue. -/
theorem Inv.push (h : Inv s) (hv : Fits v s) (hapart : ∀ w ∈ s.vblanks, Apart v w) :
    Inv (push v s) where
  apart := List.pairwise_cons.mpr ⟨hapart, h.apart⟩
  fits w hw := by
    rcases List.mem_cons.mp hw with rfl | hw
    · exact ⟨hv.fresh, hv.flipApart, hv.ownCopy, hv.pendingFlip⟩
    · have hfits := h.fits w hw
      exact ⟨hfits.fresh, hfits.flipApart, hfits.ownCopy, hfits.pendingFlip⟩
  flipRead := h.flipRead
  completed := h.completed
  safe := h.safe

theorem Inv.flipIdle (h : Inv s) : Inv (presentFlipIdle s) := by
  rw [presentFlipIdle]
  split
  · exact h
  next f hf =>
    have hidle := h.idle (h.flipRead f hf)
    exact ⟨hidle.apart, fun v hv => ⟨(h.fits v hv).fresh, fun g hg => by simp at hg,
      (h.fits v hv).ownCopy, (h.fits v hv).pendingFlip⟩, fun g hg => by simp at hg,
      hidle.completed, hidle.safe⟩

theorem flipIdle_vblanks (s : State) : (presentFlipIdle s).vblanks = s.vblanks := by
  rw [presentFlipIdle]
  split <;> rfl

theorem Fits.flipIdle (h : Fits v s) : Fits v (presentFlipIdle s) := by
  rw [presentFlipIdle]
  split
  · exact h
  · exact ⟨h.fresh, fun g hg => by simp at hg, h.ownCopy, h.pendingFlip⟩

theorem Inv.unflip (h : Inv s) (window : ℕ) : Inv (presentUnflip window s) := by
  rw [presentUnflip]
  split
  · exact h.flipIdle
  · exact h

theorem unflip_vblanks (window : ℕ) (s : State) : (presentUnflip window s).vblanks = s.vblanks := by
  rw [presentUnflip]
  split
  · exact flipIdle_vblanks s
  · rfl

theorem Fits.unflip (h : Fits v s) (window : ℕ) : Fits v (presentUnflip window s) := by
  rw [presentUnflip]
  split
  · exact h.flipIdle
  · exact h

/-- A vblank that fits, off the queue: its pixmap is on the screen by a flip. -/
theorem Inv.flip (h : Inv s) (hv : Fits v s) (hapart : ∀ w ∈ s.vblanks, Apart v w)
    (hp : v.pixmap = some p) (hflip : v.flip = true) (window : ℕ) :
    Inv (presentFlip window p s) := by
  have hidle := h.flipIdle
  have hreads : ¬ (presentFlipIdle s).Reads p := hv.flipIdle.not_reads hp fun hpending => by
    rw [hv.pendingFlip hpending] at hflip
    exact absurd hflip (by decide)
  refine ⟨hidle.apart, fun w hw => ?_, fun f hf => ?_, hidle.completed, hidle.safe⟩
  · have hfits := hidle.fits w hw
    refine ⟨hfits.fresh, fun f hf => ?_, hfits.ownCopy, hfits.pendingFlip⟩
    obtain rfl := Option.some_inj.mp hf
    rw [presentFlip, flipIdle_vblanks] at hw
    exact (hapart w hw).2 p hp
  · obtain rfl := Option.some_inj.mp hf
    exact hreads

theorem reads_scheduleGpuCopy {q : ℕ} (hq : q ≠ p) :
    (scheduleGpuCopy p s).Reads q ↔ s.Reads q := by
  constructor
  · rintro ⟨c, hc, rfl, hlt⟩
    rcases List.mem_append.mp hc with hc | hc
    · exact ⟨c, hc, rfl, hlt⟩
    · rw [List.mem_singleton.mp hc] at hq
      exact absurd rfl hq
  · rintro ⟨c, hc, rfl, hlt⟩
    exact ⟨c, List.mem_append_left _ hc, rfl, hlt⟩

/-- A copy is scheduled for a pixmap that no queued vblank has. -/
theorem Inv.schedule (h : Inv s) (hflip : ∀ f ∈ s.flip, f.pixmap ≠ p)
    (hvblanks : ∀ w ∈ s.vblanks, w.pixmap ≠ some p) : Inv (scheduleGpuCopy p s) where
  apart := h.apart
  fits w hw := by
    have hfits := h.fits w hw
    refine ⟨hfits.fresh, hfits.flipApart, fun c hc hlt hsrc => ?_, hfits.pendingFlip⟩
    rcases List.mem_append.mp hc with hc | hc
    · exact hfits.ownCopy c hc hlt hsrc
    · rw [List.mem_singleton.mp hc] at hsrc
      exact absurd hsrc (hvblanks w hw)
  flipRead f hf := by
    rw [reads_scheduleGpuCopy (hflip f hf)]
    exact h.flipRead f hf
  completed := Nat.le_succ_of_le h.completed
  safe := h.safe

/-- The vblank whose copy it is. -/
theorem Fits.schedule (h : Fits v s) (hp : v.pixmap = some p) (hflip : v.flip = false)
    (hreads : ¬ s.Reads p) :
    Fits { v with gpuCopyPending := true, gpuCopySerial := s.gpuCopySerialCounter + 1 }
      (scheduleGpuCopy p s) where
  fresh := h.fresh
  flipApart := h.flipApart
  ownCopy c hc hlt hsrc := by
    rcases List.mem_append.mp hc with hc | hc
    · -- no older copy reads the pixmap
      have hsrc' : p = c.src := Option.some_inj.mp (hp.symm.trans hsrc)
      exact absurd ⟨c, hc, hsrc'.symm, hlt⟩ hreads
    · rw [List.mem_singleton.mp hc]
      exact ⟨rfl, rfl⟩
  pendingFlip _ := hflip

/-- `present_execute_copy` leaves the invariant, and what it queues again fits. -/
theorem Inv.executeCopy (h : Inv s) (hv : Fits v s) (hapart : ∀ w ∈ s.vblanks, Apart v w)
    (hp : v.pixmap = some p) (hflip : v.flip = false) {env : Env} (hstays : env.stalled = false)
    (hkept : RequeueKept s v env) :
    Inv (presentExecuteCopy env v p s).1 ∧ ∀ w ∈ (presentExecuteCopy env v p s).2,
      Fits w (presentExecuteCopy env v p s).1 ∧
        ∀ u ∈ (presentExecuteCopy env v p s).1.vblanks, Apart w u := by
  have hagain : Inv s ∧ ∀ w ∈ some v, Fits w s ∧ ∀ u ∈ s.vblanks, Apart w u :=
    ⟨h, fun w hw => Option.some_inj.mp hw ▸ ⟨hv, hapart⟩⟩
  have hidle (hreads : ¬ s.Reads p) : Inv (presentPixmapIdle p s) ∧ ∀ w ∈ (none : Option Vblank),
      Fits w (presentPixmapIdle p s) ∧ ∀ u ∈ (presentPixmapIdle p s).vblanks, Apart w u :=
    ⟨h.idle hreads, fun w hw => by simp at hw⟩
  rw [presentExecuteCopy]
  split
  · exact hagain
  split
  · exact hagain
  next hpoll =>
  split
  next hpending =>
    -- the copy is done: otherwise the vblank would have been queued again
    refine hidle (hv.not_reads hp fun _ => ?_)
    by_contra hdone
    have hrequeues : env.requeues = false := by
      by_contra hrequeues
      exact hpoll ⟨hpending, hdone, by simp [hstays], by simpa using hrequeues⟩
    have hkept := hkept hrequeues
    rw [if_pos hpending] at hkept
    exact hdone hkept
  next hpending =>
    have hreads : ¬ s.Reads p := hv.not_reads hp fun h => absurd h hpending
    split
    next haccepts =>
      have hrequeues : env.requeues = true := by
        by_contra hrequeues
        have hkept := hkept (by simpa using hrequeues)
        rw [if_neg hpending, haccepts] at hkept
        simp at hkept
      simp only [if_pos hrequeues]
      refine ⟨h.schedule (fun f hf heq => ?_) fun w hw => (hapart w hw).2 p hp, fun w hw => ?_⟩
      · exact hv.flipApart f hf (heq ▸ hp)
      · obtain rfl := Option.some_inj.mp hw
        exact ⟨hv.schedule hp hflip hreads, hapart⟩
    · exact hidle hreads

theorem RequeueKept.unflip {env : Env} (h : RequeueKept s v env) (window : ℕ) :
    RequeueKept (presentUnflip window s) v env := by
  have hcompleted : (presentUnflip window s).completedSerial = s.completedSerial := by
    rw [presentUnflip, presentFlipIdle]
    split
    · split <;> rfl
    · rfl
  intro hrequeues
  have hkept := h hrequeues
  rwa [Vblank.copyDone, hcompleted]

/-- `present_execute` on a vblank that was taken off the queue. -/
theorem Inv.executeTaken (h : Inv s) (hv : Fits v s) (hapart : ∀ w ∈ s.vblanks, Apart v w)
    {env : Env} (hstays : env.stalled = false) (hkept : RequeueKept s v env) :
    Inv (presentExecuteTaken env v s) := by
  rw [presentExecuteTaken]
  split
  · exact h
  next pixmap hp =>
  split
  next hflips => exact h.flip hv hapart hp hflips.1 v.window
  · have hunflip := hv.unflip v.window
    have hcopy := (h.unflip v.window).executeCopy
      (v := { v with flip := false, execMsc := if v.flip then v.targetMsc else v.execMsc })
      ⟨hunflip.fresh, hunflip.flipApart, hunflip.ownCopy, fun _ => rfl⟩
      (by rw [unflip_vblanks]; exact hapart) hp rfl hstays (hkept.unflip v.window)
    simp only
    split
    next s' w heq =>
      rw [heq] at hcopy
      obtain ⟨hw, hwapart⟩ := hcopy.2 w rfl
      exact hcopy.1.push hw hwapart
    next s' heq =>
      rw [heq] at hcopy
      exact hcopy.1

theorem Inv.execute (h : Inv s) {env : Env} {eventId : ℕ} (hstays : env.stalled = false)
    (hkept : ∀ v ∈ s.vblanks, v.eventId = eventId → RequeueKept s v env) :
    Inv (presentExecute env eventId s) := by
  rw [presentExecute]
  split
  · exact h
  next v hfind =>
  split
  · exact h
  · have hmem : v ∈ s.vblanks := List.mem_of_find?_eq_some hfind
    have hid : v.eventId = eventId := by simpa using List.find?_some hfind
    have hrest := h.sublist (List.filter_sublist (p := (·.eventId ≠ eventId)) (l := s.vblanks))
    have hfits := h.fits v hmem
    refine hrest.executeTaken ⟨hfits.fresh, hfits.flipApart, hfits.ownCopy, hfits.pendingFlip⟩
      (fun w hw => ?_) hstays (hkept v hmem hid)
    obtain ⟨hw, hne⟩ := List.mem_filter.mp hw
    have hne : w.eventId ≠ eventId := by simpa using hne
    refine h.apart.forall hmem hw ?_
    rintro rfl
    exact hne hid

/-! ### Requests -/

/-- What a vblank may lose without harm. -/
structure Weaker (v w : Vblank) : Prop where
  eventId : w.eventId = v.eventId
  pixmap : w.pixmap = none ∨ w.pixmap = v.pixmap ∧ w.gpuCopyPending = v.gpuCopyPending ∧
    w.gpuCopySerial = v.gpuCopySerial
  flip : w.gpuCopyPending = true → v.gpuCopyPending = true
  flips : w.flip = true → v.flip = true

theorem Weaker.refl (v : Vblank) : Weaker v v := ⟨rfl, .inr ⟨rfl, rfl, rfl⟩, id, id⟩

theorem Weaker.scrapped (v : Vblank) : Weaker v v.scrapped :=
  ⟨rfl, .inl rfl, fun h => by simp [Vblank.scrapped] at h, fun h => by simp [Vblank.scrapped] at h⟩

theorem Weaker.pixmap_eq {v w : Vblank} (h : Weaker v w) {q : ℕ} (hq : w.pixmap = some q) :
    v.pixmap = some q := by
  rcases h.pixmap with hnone | ⟨heq, -⟩
  · rw [hnone] at hq
    simp at hq
  · rw [← heq, hq]

theorem Fits.weaken {w : Vblank} (h : Fits v s) (hw : Weaker v w) : Fits w s where
  fresh := hw.eventId ▸ h.fresh
  flipApart f hf hp := h.flipApart f hf (hw.pixmap_eq hp)
  ownCopy c hc hlt hsrc := by
    rcases hw.pixmap with hnone | ⟨-, hpending, hserial⟩
    · rw [hnone] at hsrc
      simp at hsrc
    · rw [hpending, hserial]
      exact h.ownCopy c hc hlt (hw.pixmap_eq hsrc)
  pendingFlip hpending := by
    have hflip := h.pendingFlip (hw.flip hpending)
    by_contra hne
    rw [hw.flips (by simpa using hne)] at hflip
    exact absurd hflip (by decide)

theorem Apart.weaken {v w v' w' : Vblank} (h : Apart v w) (hv : Weaker v v') (hw : Weaker w w') :
    Apart v' w' := by
  refine ⟨by rw [hv.eventId, hw.eventId]; exact h.1, fun p hp hp' => ?_⟩
  exact h.2 p (hv.pixmap_eq hp) (hw.pixmap_eq hp')

/-- Every vblank may lose something. -/
theorem Inv.map (h : Inv s) {f : Vblank → Vblank} (hf : ∀ v ∈ s.vblanks, Weaker v (f v)) :
    Inv { s with vblanks := s.vblanks.map f } where
  apart := List.pairwise_map.mpr (h.apart.imp_of_mem fun hv hw hapart =>
    hapart.weaken (hf _ hv) (hf _ hw))
  fits w hw := by
    obtain ⟨v, hv, rfl⟩ := List.mem_map.mp hw
    have hfits := (h.fits v hv).weaken (hf v hv)
    exact ⟨hfits.fresh, hfits.flipApart, hfits.ownCopy, hfits.pendingFlip⟩
  flipRead := h.flipRead
  completed := h.completed
  safe := h.safe

theorem weaker_superseded (r : Request) (crtcMsc : ℕ) (v : Vblank) :
    Weaker v (if r.Supersedes crtcMsc v then v.scrapped else v) := by
  split
  · exact .scrapped v
  · exact .refl v

theorem Inv.scrap (h : Inv s) {r : Request} {crtcMsc : ℕ}
    (hdone : ∀ v ∈ s.vblanks, r.Supersedes crtcMsc v → v.gpuCopyPending = true → v.copyDone s) :
    Inv (scrapSuperseded r crtcMsc s) := by
  have hmap := h.map fun v _ => weaker_superseded r crtcMsc v
  refine ⟨hmap.apart, fun v hv => ?_, hmap.flipRead, hmap.completed, fun i hi => ?_⟩
  · have hfits := hmap.fits v hv
    exact ⟨hfits.fresh, hfits.flipApart, hfits.ownCopy, hfits.pendingFlip⟩
  · rcases List.mem_append.mp hi with hi | hi
    · exact h.safe i hi
    · obtain ⟨p, hp, rfl⟩ := List.mem_map.mp hi
      obtain ⟨v, hv, hpixmap⟩ := List.mem_filterMap.mp hp
      obtain ⟨hv, hsupersedes⟩ := List.mem_filter.mp hv
      have hsupersedes : r.Supersedes crtcMsc v := by simpa using hsupersedes
      exact decide_eq_false ((h.fits v hv).not_reads hpixmap (hdone v hv hsupersedes))

/-- The new vblank of a request for a free pixmap joins the queue. -/
theorem Inv.create (h : Inv s) {r : Request} {env : Env}
    (hdone : ∀ v ∈ s.vblanks, r.Supersedes env.crtcMsc v → v.gpuCopyPending = true → v.copyDone s)
    (hfree : ∀ p ∈ r.pixmap, PixmapFree s r env.crtcMsc p) :
    Inv (enqueue (presentVblankCreate r env (s.eventId + 1))
      (scrapSuperseded r env.crtcMsc s)) := by
  have hscrap := h.scrap hdone
  refine ⟨?_, fun v hv => ?_, hscrap.flipRead, hscrap.completed, hscrap.safe⟩
  · refine List.pairwise_append.mpr ⟨hscrap.apart, List.pairwise_singleton _ _, ?_⟩
    intro w hw v hv
    rw [List.mem_singleton.mp hv]
    constructor
    · have hfresh : w.eventId ≤ s.eventId := (hscrap.fits w hw).fresh
      simp only [presentVblankCreate]
      omega
    · intro p hp hnew
      -- a vblank that still has the pixmap would have been superseded
      obtain ⟨u, hu, rfl⟩ := List.mem_map.mp hw
      split at hp
      · simp [Vblank.scrapped] at hp
      next hsupersedes => exact hsupersedes ((hfree p hnew).2.2 u hu hp)
  · rcases List.mem_append.mp hv with hv | hv
    · have hfits := hscrap.fits v hv
      exact ⟨Nat.le_succ_of_le hfits.fresh, hfits.flipApart, hfits.ownCopy, hfits.pendingFlip⟩
    · rw [List.mem_singleton.mp hv]
      refine ⟨Nat.le_refl _, fun f hf hp => ?_, fun c hc hlt hsrc => ?_, fun hpending => ?_⟩
      · exact (hfree _ hp).2.1 f hf rfl
      · exact absurd ⟨c, hc, rfl, hlt⟩ (hfree _ hsrc).1
      · simp [presentVblankCreate] at hpending

theorem Inv.request (h : Inv s) {r : Request} {env : Env} (hstays : env.stalled = false)
    (hok : CopiesUndisturbed s (.request r env)) : Inv (presentScmdPixmap r env s) := by
  obtain ⟨hdone, hfree, hrequeues⟩ := hok
  simp only [presentScmdPixmap]
  split
  · exact h.scrap hdone
  have hcreate := h.create hdone hfree
  split
  · exact hcreate
  · refine hcreate.execute hstays fun v hv hid => ?_
    rcases List.mem_append.mp hv with hv | hv
    · -- older vblanks have other events
      have hfresh : v.eventId ≤ s.eventId := ((h.scrap hdone).fits v hv).fresh
      simp only [presentVblankCreate] at hid
      have : (scrapSuperseded r env.crtcMsc s).eventId = s.eventId := rfl
      omega
    · rw [List.mem_singleton.mp hv]
      exact hrequeues

/-! ### Runs -/

theorem Inv.gpuCopyDone (h : Inv s) {serial : ℕ} (hle : s.completedSerial ≤ serial)
    (hcounter : serial ≤ s.gpuCopySerialCounter) : Inv { s with completedSerial := serial } where
  apart := h.apart
  fits v hv := by
    have hfits := h.fits v hv
    exact ⟨hfits.fresh, hfits.flipApart, fun c hc hlt => hfits.ownCopy c hc
      (Nat.lt_of_le_of_lt hle hlt), hfits.pendingFlip⟩
  flipRead f hf := by
    rintro ⟨c, hc, hsrc, hlt⟩
    exact h.flipRead f hf ⟨c, hc, hsrc, Nat.lt_of_le_of_lt hle hlt⟩
  completed := hcounter
  safe := h.safe

theorem clearWindowFlip_pixmap {window : ℕ} {flip : Option Flip} {f : Flip}
    (hf : f ∈ clearWindowFlip window flip) : ∃ g ∈ flip, g.pixmap = f.pixmap := by
  obtain ⟨g, hg, rfl⟩ := Option.map_eq_some_iff.mp hf
  refine ⟨g, hg, ?_⟩
  split <;> rfl

theorem Inv.destroyWindow (h : Inv s) (window : ℕ) :
    Inv { s with
      vblanks := s.vblanks.filter (·.window ≠ window)
      flip := clearWindowFlip window s.flip
      windowsGone := window :: s.windowsGone } := by
  have hrest := h.sublist (List.filter_sublist (p := (·.window ≠ window)) (l := s.vblanks))
  refine ⟨hrest.apart, fun v hv => ?_, fun f hf => ?_, hrest.completed, hrest.safe⟩
  · have hfits := hrest.fits v hv
    refine ⟨hfits.fresh, fun f hf hp => ?_, hfits.ownCopy, hfits.pendingFlip⟩
    obtain ⟨g, hg, hpixmap⟩ := clearWindowFlip_pixmap hf
    exact hfits.flipApart g hg (hpixmap ▸ hp)
  · obtain ⟨g, hg, hpixmap⟩ := clearWindowFlip_pixmap hf
    exact hpixmap ▸ h.flipRead g hg

/-- A step with the renderer there that does not disturb a copy keeps the invariant. -/
theorem Inv.step {s' : State} {a : Act} (h : Inv s) (hstays : RendererStays s a)
    (hok : CopiesUndisturbed s a) (hstep : step s a = some s') : Inv s' := by
  cases a with
  | request r env =>
    simp only [Present.step] at hstep
    split at hstep
    · simp at hstep
    · exact Option.some_inj.mp hstep ▸ h.request hstays hok
  | execute eventId env => exact Option.some_inj.mp hstep ▸ h.execute hstays hok
  | gpuCopyDone serial =>
    simp only [Present.step] at hstep
    split at hstep
    next hen => exact Option.some_inj.mp hstep ▸ h.gpuCopyDone hen.1 hen.2
    · simp at hstep
  | checkFlipWindow window fits keeps =>
    rw [← Option.some_inj.mp hstep]
    have hunflip : Inv (if fits = true then s else presentUnflip window s) := by
      split
      · exact h
      · exact h.unflip window
    refine hunflip.map fun v _ => ?_
    split
    · exact ⟨rfl, .inr ⟨rfl, rfl, rfl⟩, id, fun h => by simp at h⟩
    · exact .refl v
  | destroyWindow window => exact Option.some_inj.mp hstep ▸ h.destroyWindow window
  | freePixmap pixmap =>
    rw [← Option.some_inj.mp hstep]
    exact ⟨h.apart, fun v hv => ⟨(h.fits v hv).fresh, (h.fits v hv).flipApart,
      (h.fits v hv).ownCopy, (h.fits v hv).pendingFlip⟩, h.flipRead, h.completed, h.safe⟩

/-- In every run in which the renderer stays and no copy is disturbed, no pixmap is
idle while a copy that reads it is not complete. -/
theorem idle_waits_for_copies {as : List Act} {s : State} (hrun : run step {} as = some s)
    (hstays : Meets step RendererStays {} as) (hok : Meets step CopiesUndisturbed {} as) :
    ∀ i ∈ s.idles, i.busy = false :=
  (run_invariant (fun _ _ _ h hok hstep => Inv.step h hok.1 hok.2 hstep) .initial
    (hstays.and hok) hrun).safe

/-! ### Two requests in one frame -/

/-- A request to present a pixmap to window 1 at once. -/
def present (pixmap : ℕ) : Act :=
  .request
    { window := 1, pixmap := some pixmap, update := false, crtc := 0, targetMsc := 0, divisor := 0
      remainder := 0, async := true }
    { crtcMsc := 5, accepts := true }

/-- The second request overwrites the first one, whose copy the GPU is still to make. -/
def twoInOneFrame : List Act := [present 10, present 11]

/-- The renderer stays, and pixmap 10 is idle while the scheduled copy reads it. -/
theorem twoInOneFrame_busy :
    Meets step RendererStays {} twoInOneFrame ∧
      ∃ s, run step {} twoInOneFrame = some s ∧ ⟨10, true⟩ ∈ s.idles :=
  ⟨meets_cons_of_eq rfl rfl (meets_cons_of_eq rfl rfl trivial), _, rfl, by decide⟩

/-- The copy is complete before the vblank is executed again. -/
def oneInAFrame : List Act := [present 10, .gpuCopyDone 1, .execute 1 { crtcMsc := 6 }]

/-- Pixmap 10 is idle, and no copy reads it. -/
theorem oneInAFrame_idle :
    ∃ s, run step {} oneInAFrame = some s ∧ s.idles = [⟨10, false⟩] ∧
      ∀ i ∈ s.idles, i.busy = false := by
  have hstays : Meets step RendererStays {} oneInAFrame :=
    meets_cons_of_eq rfl rfl (meets_cons_of_eq rfl trivial (meets_cons_of_eq rfl rfl trivial))
  have hok : Meets step CopiesUndisturbed {} oneInAFrame := by
    refine meets_cons_of_eq rfl ?_ (meets_cons_of_eq rfl trivial (meets_cons_of_eq rfl ?_ trivial))
    · refine ⟨fun v hv => absurd hv List.not_mem_nil, fun p _ => ?_, fun h => absurd h (by decide)⟩
      refine ⟨?_, fun f hf => by simp at hf, fun v hv => absurd hv List.not_mem_nil⟩
      rintro ⟨c, hc, -⟩
      exact List.not_mem_nil hc
    · exact fun v _ _ h => absurd h (by decide)
  exact ⟨_, rfl, by decide, idle_waits_for_copies rfl hstays hok⟩

end Lorie.Present
