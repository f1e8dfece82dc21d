/-
What a scheduled copy holds, and who gives it back (`lorieTryScheduleGpuCopy` and
`lorieGpuCopyAck` in `InitOutput.c`, `present_execute.c`, `present_vblank.c` and
`present_scmd.c` as patched, `buffer.h`).

A copy that is scheduled takes a reference on its source buffer and counts it as pending; so
it does with its destination, unless that is the root, which has a counter of its own.  The
vblank gives all of it back in one call: when it polls, is scrapped or destroyed, or could
not be queued again.

Requests, vblanks and executions are those of `Present`, with the pixmaps' reference counts
added; `others` are the references that neither a vblank nor a flip holds.

* `lorieTryScheduleGpuCopy`, `lorieGpuCopyAck` — the two sides of the account;
* `presentExecuteCopy`, `presentVblankScrap`, `presentVblankDestroy` — who calls them;
* `Balanced` — the invariant, over vblanks queued and taken off the queue;
* `acks_balance` — every copy is given back once, and the counters say so;
* `counters_fit` — as long as the copies under way are not too many for them.
-/
import KaliGui.Lorie.Present
import Mathlib.Algebra.Group.Int.Defs
import Mathlib.Algebra.Group.Nat.Defs
import Mathlib.Data.Int.Notation
import Mathlib.Data.List.Count
import Mathlib.Logic.Function.Basic

namespace Lorie.GpuCopyAck

open Machine
open Present (Request)

/-! ### State -/

/-- A copy: the vblank it is for, its source buffer, and its destination if that is not the
root. -/
structure Copy where
  vblank : ℕ
  src : Option ℕ
  dst : Option ℕ
  deriving DecidableEq, Repr

structure Vblank extends Present.Vblank where
  gpuCopyDstBuffer : Option ℕ
  /-- the source buffer of its copy; the code finds it again by the pixmap -/
  gpuCopySrc : Option ℕ

/-- The copy that a vblank waits for. -/
def Vblank.copy (v : Vblank) : Option Copy :=
  if v.gpuCopyPending then some ⟨v.eventId, v.gpuCopySrc, v.gpuCopyDstBuffer⟩ else none

structure Accounts where
  /-- the `refcnt` of a pixmap; 0 if there is no such pixmap -/
  refcnt : ℕ → ℕ := fun _ => 0
  /-- how many of these are not of a vblank or a flip -/
  others : ℕ → ℕ := fun _ => 0
  /-- the `priv->buffer` of a pixmap -/
  buffer : ℕ → Option ℕ := fun _ => none
  /-- `refcount` and `gpuCopyPending` of a buffer, an `int16_t` and an `int32_t`; see
  `counters_fit` for how far these go -/
  refcount : ℕ → ℤ := fun _ => 0
  gpuCopyPending : ℕ → ℤ := fun _ => 0
  rootGpuCopyPending : ℤ := 0
  gpuCopySerialCounter : ℕ := 0
  completedSerial : ℕ := 0
  flipWindow : Option ℕ := none
  flipPixmap : Option ℕ := none
  /-- the calls of `lorieTryScheduleGpuCopy` that returned `TRUE`, and of `lorieGpuCopyAck` -/
  scheduled : List Copy := []
  acks : List Copy := []

structure State extends Accounts where
  vblanks : List Vblank := []
  eventId : ℕ := 0

/-- What the code asks others about; `dst` is `GetWindowPixmap`, if that is not the root's. -/
structure Env extends Present.Env where
  dst : Option ℕ := none

/-! ### Buffers and pixmaps -/

/-- Add to a counter of a buffer that may be `NULL`. -/
def bump (f : ℕ → ℤ) (d : ℤ) : Option ℕ → ℕ → ℤ
  | none => f
  | some b => Function.update f b (f b + d)

def lorieBufferAcquire (b : Option ℕ) (a : Accounts) : Accounts :=
  { a with refcount := bump a.refcount 1 b }

def lorieBufferRelease (b : Option ℕ) (a : Accounts) : Accounts :=
  { a with refcount := bump a.refcount (-1) b }

def gpuCopyPendingInc (b : Option ℕ) (a : Accounts) : Accounts :=
  { a with gpuCopyPending := bump a.gpuCopyPending 1 b }

def gpuCopyPendingDec (b : Option ℕ) (a : Accounts) : Accounts :=
  { a with gpuCopyPending := bump a.gpuCopyPending (-1) b }

/-- `dixDestroyPixmap`, with `lorieExaDestroyPixmap` for the last reference. -/
def dixDestroyPixmap (p : ℕ) (a : Accounts) : Accounts :=
  if a.refcnt p = 1 then
    { lorieBufferRelease (a.buffer p) a with
      refcnt := Function.update a.refcnt p 0
      buffer := Function.update a.buffer p none }
  else { a with refcnt := Function.update a.refcnt p (a.refcnt p - 1) }

/-! ### Copies -/

/-- The accounts and `*out_dst_buffer`, if it returns `TRUE`; `vblank` is whom it is for. -/
def lorieTryScheduleGpuCopy (accepts : Bool) (vblank pixmap : ℕ) (dst : Option ℕ) (a : Accounts) :
    Option (Accounts × Option ℕ) :=
  if accepts = false ∨ a.buffer pixmap = none ∨ ∃ d ∈ dst, a.buffer d = none then none
  else
    let src := a.buffer pixmap
    let a := gpuCopyPendingInc src (lorieBufferAcquire src a)
    let dstBuffer := dst.bind a.buffer
    let a :=
      if dst = none then { a with rootGpuCopyPending := a.rootGpuCopyPending + 1 }
      else gpuCopyPendingInc dstBuffer (lorieBufferAcquire dstBuffer a)
    some ({ a with
      gpuCopySerialCounter := a.gpuCopySerialCounter + 1
      scheduled := a.scheduled ++ [⟨vblank, src, dstBuffer⟩] }, dstBuffer)

def lorieGpuCopyAck (vblank : ℕ) (pixmap dstBuffer : Option ℕ) (a : Accounts) : Accounts :=
  let src := pixmap.bind a.buffer
  let a := gpuCopyPendingDec src a
  let a :=
    if dstBuffer = none then { a with rootGpuCopyPending := a.rootGpuCopyPending - 1 }
    else gpuCopyPendingDec dstBuffer a
  let a := lorieBufferRelease dstBuffer (lorieBufferRelease src a)
  { a with acks := a.acks ++ [⟨vblank, src, dstBuffer⟩] }

/-! ### Vblanks -/

/-- `if (vblank->gpu_copy_pending)`, in the three places where the copy is given back. -/
def ackPending (v : Vblank) (a : Accounts) : Vblank × Accounts :=
  if v.gpuCopyPending then
    ({ v with gpuCopyPending := false },
      lorieGpuCopyAck v.eventId v.pixmap v.gpuCopyDstBuffer a)
  else (v, a)

/-- Drop the pixmap of a vblank. -/
def dropPixmap (v : Vblank) (a : Accounts) : Vblank × Accounts :=
  match v.pixmap with
  | some p => ({ v with pixmap := none }, dixDestroyPixmap p a)
  | none => (v, a)

def presentVblankScrap (v : Vblank) (a : Accounts) : Vblank × Accounts :=
  let (v, a) := ackPending v a
  let (v, a) := dropPixmap v a
  ({ v with flip := false }, a)

def presentVblankDestroy (v : Vblank) (a : Accounts) : Accounts :=
  let (v, a) := ackPending v a
  (dropPixmap v a).2

/-- Each vblank of a list that is destroyed. -/
def destroyAll : List Vblank → Accounts → Accounts
  | [], a => a
  | v :: vs, a => destroyAll vs (presentVblankDestroy v a)

/-- The loop of `present_scmd_pixmap`. -/
def scrapSuperseded (r : Request) (crtcMsc : ℕ) : List Vblank → Accounts → List Vblank × Accounts
  | [], a => ([], a)
  | v :: vs, a =>
    let (v, a) :=
      if r.Supersedes crtcMsc v.toVblank then presentVblankScrap v a else (v, a)
    let (vs, a) := scrapSuperseded r crtcMsc vs a
    (v :: vs, a)

/-! ### Flips -/

def presentFlipIdle (a : Accounts) : Accounts :=
  match a.flipPixmap with
  | none => a
  | some p => dixDestroyPixmap p { a with flipPixmap := none, flipWindow := none }

def presentUnflip (window : ℕ) (a : Accounts) : Accounts :=
  if a.flipWindow = some window then presentFlipIdle a else a

/-- A successful flip and its `present_flip_notify`, which takes the vblank's pixmap over. -/
def presentFlip (v : Vblank) (a : Accounts) : Accounts :=
  let a := presentFlipIdle a
  let a := { a with flipWindow := some v.window, flipPixmap := v.pixmap }
  presentVblankDestroy { v with pixmap := none } a

/-! ### Executions -/

/-- `present_execute_copy`; the flag is `queued`. -/
def presentExecuteCopy (env : Env) (v : Vblank) (pixmap : ℕ) (a : Accounts) :
    Vblank × Accounts × Bool :=
  if v.execMsc = env.crtcMsc + 1 ∧ env.requeuesMsc then (v, a, true)
  else if v.gpuCopyPending ∧ ¬ v.gpuCopySerial ≤ a.completedSerial ∧ ¬ env.stalled ∧
      env.requeues then (v, a, true)
  else if v.gpuCopyPending then
    let (v, a) := ackPending v a
    if env.stalled ∧ ¬ v.gpuCopySerial ≤ a.completedSerial then
      let (v, a) := presentVblankScrap v a
      (v, a, false)
    else (v, a, false)
  else
    match lorieTryScheduleGpuCopy env.accepts v.eventId pixmap env.dst a with
    | some (a', dstBuffer) =>
      let v := { v with
        gpuCopySerial := a'.gpuCopySerialCounter
        gpuCopyDstBuffer := dstBuffer
        gpuCopySrc := a.buffer pixmap }
      if env.requeues then ({ v with gpuCopyPending := true }, a', true)
      else (v, lorieGpuCopyAck v.eventId v.pixmap v.gpuCopyDstBuffer a', false)
    | none => (v, a, false)

/-- `present_execute` of a vblank that is off the queue; the vblank if it is queued again. -/
def presentExecuteTaken (env : Env) (v : Vblank) (a : Accounts) : Accounts × Option Vblank :=
  match v.pixmap with
  | none => (presentVblankDestroy v a, none)
  | some pixmap =>
    if v.flip ∧ env.flips then (presentFlip v a, none)
    else
      let v := { v with flip := false, execMsc := if v.flip then v.targetMsc else v.execMsc }
      let a := presentUnflip v.window a
      match presentExecuteCopy env v pixmap a with
      | (v, a, true) => (a, some v)
      | (v, a, false) => (presentVblankDestroy v a, none)

/-- The first vblank with the event, and the others. -/
def take (eventId : ℕ) : List Vblank → Option (Vblank × List Vblank)
  | [] => none
  | v :: vs =>
    if v.eventId = eventId then some (v, vs)
    else (take eventId vs).map fun (w, ws) => (w, v :: ws)

def presentExecute (env : Env) (eventId : ℕ) (s : State) : State :=
  match take eventId s.vblanks with
  | none => s
  | some (v, vs) =>
    if env.waits then s
    else
      let (a, again) := presentExecuteTaken env v s.toAccounts
      { s with toAccounts := a, vblanks := again.toList ++ vs }

/-! ### Steps -/

/-- `present_scmd_pixmap` -/
def presentScmdPixmap (r : Request) (env : Env) (s : State) : State :=
  let (vs, a) := scrapSuperseded r env.crtcMsc s.vblanks s.toAccounts
  if ¬ env.allocates then { s with toAccounts := a, vblanks := vs }
  else
    let created := Present.presentVblankCreate r env.toEnv (s.eventId + 1)
    let v : Vblank := { toVblank := created, gpuCopyDstBuffer := none, gpuCopySrc := none }
    let a := match r.pixmap with
      | some p => { a with refcnt := Function.update a.refcnt p (a.refcnt p + 1) }
      | none => a
    let s := { s with toAccounts := a, vblanks := vs ++ [v], eventId := s.eventId + 1 }
    if env.crtcMsc < v.execMsc ∧ env.queues then s else presentExecute env v.eventId s

inductive Act
  /-- a pixmap with a new buffer, or none -/
  | createPixmap (p : ℕ) (buffer : Option ℕ)
  /-- a reference of neither a vblank nor a flip is taken or dropped -/
  | refPixmap (p : ℕ)
  | destroyPixmap (p : ℕ)
  | request (r : Request) (env : Env)
  | execute (eventId : ℕ) (env : Env)
  | gpuCopyDone (serial : ℕ)
  | checkFlipWindow (window : ℕ) (fits : Bool) (keeps : ℕ → Bool)
  | destroyWindow (window : ℕ)

def step (s : State) : Act → Option State
  | .createPixmap p buffer =>
    if s.refcnt p = 0 ∧ ∀ b ∈ buffer, s.refcount b = 0 then
      some { s with
        refcnt := Function.update s.refcnt p 1
        others := Function.update s.others p 1
        buffer := Function.update s.buffer p buffer
        refcount := bump s.refcount 1 buffer }
    else none
  | .refPixmap p =>
    if 0 < s.refcnt p then
      some { s with
        refcnt := Function.update s.refcnt p (s.refcnt p + 1)
        others := Function.update s.others p (s.others p + 1) }
    else none
  | .destroyPixmap p =>
    if 0 < s.others p then
      some { s with
        toAccounts := dixDestroyPixmap p
          { s.toAccounts with others := Function.update s.others p (s.others p - 1) } }
    else none
  | .request r env =>
    if ∃ p ∈ r.pixmap, s.others p = 0 then none else some (presentScmdPixmap r env s)
  | .execute eventId env => some (presentExecute env eventId s)
  | .gpuCopyDone serial => some { s with completedSerial := serial }
  | .checkFlipWindow window fits keeps =>
    some { s with
      toAccounts := if fits then s.toAccounts else presentUnflip window s.toAccounts
      vblanks := s.vblanks.map fun v =>
        if v.window = window ∧ v.flip ∧ ¬ keeps v.eventId then
          { v with flip := false, execMsc := v.targetMsc }
        else v }
  | .destroyWindow window =>
    let a := destroyAll (s.vblanks.filter (·.window = window)) s.toAccounts
    some { s with
      toAccounts := { a with
        flipWindow := if a.flipWindow = some window then none else a.flipWindow }
      vblanks := s.vblanks.filter (·.window ≠ window) }

/-! ### The account -/

/-- How often a copy counts for a buffer, and for the root. -/
def Copy.uses (c : Copy) (b : ℕ) : ℕ :=
  (if c.src = some b then 1 else 0) + if c.dst = some b then 1 else 0

def Copy.usesRoot (c : Copy) : ℕ := if c.dst = none then 1 else 0

def uses (cs : List Copy) (b : ℕ) : ℕ :=
  cs.countP (fun c => c.src = some b) + cs.countP fun c => c.dst = some b

def usesRoot (cs : List Copy) : ℕ := cs.countP fun c => c.dst = none

/-- The copies that vblanks wait for. -/
def copies (vs : List Vblank) : List Copy := vs.filterMap Vblank.copy

/-- Who holds a pixmap. -/
def holders (vs : List Vblank) (a : Accounts) (p : ℕ) : ℕ :=
  a.others p + vs.countP (fun v => v.pixmap = some p) + if a.flipPixmap = some p then 1 else 0

def Owned (a : Accounts) (b : ℕ) : Prop := ∃ p, a.buffer p = some b

/-- A vblank that waits for a copy has its pixmap still, with the buffer the copy reads. -/
def OwnsCopy (a : Accounts) (v : Vblank) : Prop :=
  v.gpuCopyPending = true → v.flip = false ∧
    ∃ p, v.pixmap = some p ∧ a.buffer p ≠ none ∧ a.buffer p = v.gpuCopySrc

/-- The books balance, where `vs` are all the vblanks there are. -/
structure Balanced (vs : List Vblank) (a : Accounts) : Prop where
  refs : ∀ p, a.refcnt p = holders vs a p
  dead : ∀ p, a.refcnt p = 0 → a.buffer p = none
  owner : ∀ p q b, a.buffer p = some b → a.buffer q = some b → p = q
  matched : ∀ c, a.scheduled.count c = a.acks.count c + (copies vs).count c
  pending : ∀ b, a.gpuCopyPending b = uses (copies vs) b
  root : a.rootGpuCopyPending = usesRoot (copies vs)
  owned : ∀ b, Owned a b → a.refcount b = 1 + uses (copies vs) b
  unowned : ∀ b, ¬ Owned a b → a.refcount b = uses (copies vs) b
  own : ∀ v ∈ vs, OwnsCopy a v

/-- Every call of `lorieTryScheduleGpuCopy` that returned `TRUE` has one `lorieGpuCopyAck`
with its source buffer and destination, or a vblank that is still to make it; and the
counters count those vblanks. -/
structure AcksBalance (s : State) : Prop where
  matched : ∀ c, s.scheduled.count c = s.acks.count c + (copies s.vblanks).count c
  gone : ∀ c, (∀ v ∈ s.vblanks, v.eventId ≠ c.vblank) → s.scheduled.count c = s.acks.count c
  pending : ∀ b, s.gpuCopyPending b = uses (copies s.vblanks) b
  root : s.rootGpuCopyPending = usesRoot (copies s.vblanks)
  owned : ∀ b, Owned s.toAccounts b → s.refcount b = 1 + uses (copies s.vblanks) b
  unowned : ∀ b, ¬ Owned s.toAccounts b → s.refcount b = uses (copies s.vblanks) b
  /-- no counter is negative -/
  nonneg : (∀ b, 0 ≤ s.gpuCopyPending b ∧ 0 ≤ s.refcount b) ∧ 0 ≤ s.rootGpuCopyPending
  /-- with no copy under way the counters are as they were at the start -/
  returned : (∀ v ∈ s.vblanks, v.gpuCopyPending = false) →
    (∀ b, s.gpuCopyPending b = 0) ∧ s.rootGpuCopyPending = 0 ∧
      (∀ b, Owned s.toAccounts b → s.refcount b = 1) ∧
      ∀ b, ¬ Owned s.toAccounts b → s.refcount b = 0

theorem bump_apply (f : ℕ → ℤ) (d : ℤ) (b : Option ℕ) (i : ℕ) :
    bump f d b i = f i + if b = some i then d else 0 := by
  rcases b with _ | b
  · simp [bump]
  · by_cases hi : b = i
    · simp [bump, hi]
    · simp [bump, Function.update_of_ne (Ne.symm hi), hi]

theorem uses_cons (c : Copy) (cs : List Copy) (b : ℕ) :
    uses (c :: cs) b = c.uses b + uses cs b := by
  simp only [uses, Copy.uses, List.countP_cons, decide_eq_true_eq]
  omega

theorem usesRoot_cons (c : Copy) (cs : List Copy) :
    usesRoot (c :: cs) = c.usesRoot + usesRoot cs := by
  simp only [usesRoot, Copy.usesRoot, List.countP_cons, decide_eq_true_eq]
  omega

theorem copies_cons_pending {v : Vblank} (hv : v.gpuCopyPending = true) (vs : List Vblank) :
    copies (v :: vs) = ⟨v.eventId, v.gpuCopySrc, v.gpuCopyDstBuffer⟩ :: copies vs :=
  List.filterMap_cons_some (by rw [Vblank.copy, if_pos hv])

theorem copies_cons_idle {v : Vblank} (hv : v.gpuCopyPending = false) (vs : List Vblank) :
    copies (v :: vs) = copies vs :=
  List.filterMap_cons_none (by rw [Vblank.copy, if_neg (by rw [hv]; decide)])

/-- An acknowledgement takes back what the copy counts for. -/
theorem lorieGpuCopyAck_eq (vblank : ℕ) (pixmap dstBuffer : Option ℕ) (a : Accounts) {c : Copy}
    (hc : c = ⟨vblank, pixmap.bind a.buffer, dstBuffer⟩) :
    lorieGpuCopyAck vblank pixmap dstBuffer a = { a with
      gpuCopyPending := fun b => a.gpuCopyPending b - c.uses b
      rootGpuCopyPending := a.rootGpuCopyPending - c.usesRoot
      refcount := fun b => a.refcount b - c.uses b
      acks := a.acks ++ [c] } := by
  have hsum : ∀ (f : ℕ → ℤ) i, bump (bump f (-1) (pixmap.bind a.buffer)) (-1) dstBuffer i =
      f i - c.uses i := by
    intro f i
    rw [bump_apply, bump_apply, hc, Copy.uses]
    push_cast
    split <;> split <;> omega
  have hpending := funext (hsum a.gpuCopyPending)
  have hrefcount := funext (hsum a.refcount)
  rcases dstBuffer with _ | d
  · rw [lorieGpuCopyAck, if_pos rfl]
    simp only [gpuCopyPendingDec, lorieBufferRelease, ← hpending, ← hrefcount]
    rw [hc]
    rfl
  · rw [lorieGpuCopyAck, if_neg (by simp)]
    simp only [gpuCopyPendingDec, lorieBufferRelease, ← hpending, ← hrefcount]
    rw [hc]
    simp [Copy.usesRoot]

/-- A copy that is scheduled takes what it counts for. -/
theorem lorieTryScheduleGpuCopy_eq {accepts : Bool} {vblank pixmap : ℕ} {dst : Option ℕ}
    {a a' : Accounts} {d : Option ℕ}
    (h : lorieTryScheduleGpuCopy accepts vblank pixmap dst a = some (a', d)) {c : Copy}
    (hc : c = ⟨vblank, a.buffer pixmap, d⟩) :
    a.buffer pixmap ≠ none ∧ a' = { a with
      gpuCopyPending := fun b => a.gpuCopyPending b + c.uses b
      rootGpuCopyPending := a.rootGpuCopyPending + c.usesRoot
      refcount := fun b => a.refcount b + c.uses b
      gpuCopySerialCounter := a.gpuCopySerialCounter + 1
      scheduled := a.scheduled ++ [c] } := by
  rw [lorieTryScheduleGpuCopy] at h
  split at h
  · cases h
  next hsampleable =>
    simp only [not_or, not_exists, not_and] at hsampleable
    obtain ⟨-, hsrc, hdst⟩ := hsampleable
    refine ⟨hsrc, ?_⟩
    have hsum : ∀ (f : ℕ → ℤ) i, bump (bump f 1 (a.buffer pixmap)) 1 (dst.bind a.buffer) i =
        f i + (⟨vblank, a.buffer pixmap, dst.bind a.buffer⟩ : Copy).uses i := by
      intro f i
      rw [bump_apply, bump_apply, Copy.uses]
      push_cast
      split <;> split <;> omega
    have hpending := funext (hsum a.gpuCopyPending)
    have hrefcount := funext (hsum a.refcount)
    simp only [Option.some_inj, Prod.mk.injEq] at h
    obtain ⟨rfl, rfl⟩ := h
    rcases dst with _ | q
    · rw [if_pos rfl, hc]
      simp only [gpuCopyPendingInc, lorieBufferAcquire, ← hpending, ← hrefcount]
      rfl
    · have hbuffer : a.buffer q ≠ none := hdst q rfl
      rw [if_neg (by simp), hc]
      simp only [gpuCopyPendingInc, lorieBufferAcquire, ← hpending, ← hrefcount, Copy.usesRoot]
      simp [hbuffer]

/-! ### What keeps the books balanced -/

section

variable {vs vs' : List Vblank} {v : Vblank} {a a' : Accounts}

theorem Balanced.perm (h : Balanced vs a) (hp : vs.Perm vs') : Balanced vs' a := by
  have hcopies : (copies vs).Perm (copies vs') := hp.filterMap _
  have huses : ∀ b, uses (copies vs) b = uses (copies vs') b := fun b => by
    rw [uses, uses, hcopies.countP_eq, hcopies.countP_eq]
  refine { refs := fun p => ?_, dead := h.dead, owner := h.owner, matched := fun c => ?_,
           pending := fun b => ?_, root := ?_, owned := fun b hb => ?_, unowned := fun b hb => ?_,
           own := fun v hv => h.own v (hp.mem_iff.mpr hv) }
  · rw [h.refs, holders, holders, hp.countP_eq]
  · rw [h.matched, hcopies.count_eq]
  · rw [h.pending, huses]
  · rw [h.root, usesRoot, usesRoot, hcopies.countP_eq]
  · rw [h.owned b hb, huses]
  · rw [h.unowned b hb, huses]

/-- References that change hands, with the copies and the buffers as they are. -/
theorem Balanced.of_refs (h : Balanced vs a) {refcnt others : ℕ → ℕ}
    {flipWindow flipPixmap : Option ℕ} (hcopies : copies vs' = copies vs)
    (hrefs : ∀ p, refcnt p = others p + vs'.countP (fun v => v.pixmap = some p) +
      if flipPixmap = some p then 1 else 0)
    (hdead : ∀ p, refcnt p = 0 → a.refcnt p = 0) (hown : ∀ v ∈ vs', OwnsCopy a v) :
    Balanced vs' { a with
      refcnt := refcnt, others := others, flipWindow := flipWindow, flipPixmap := flipPixmap } := by
  refine { refs := hrefs, dead := fun p hp => h.dead p (hdead p hp), owner := h.owner
           matched := ?_, pending := ?_, root := ?_, owned := ?_, unowned := ?_, own := hown }
  · rw [hcopies]
    exact h.matched
  · rw [hcopies]
    exact h.pending
  · rw [hcopies]
    exact h.root
  · rw [hcopies]
    exact h.owned
  · rw [hcopies]
    exact h.unowned

/-- A vblank that differs in nothing the books are about. -/
theorem Balanced.head (h : Balanced (v :: vs) a) {w : Vblank} (hpixmap : w.pixmap = v.pixmap)
    (hcopy : w.copy = v.copy) (hown : OwnsCopy a w) : Balanced (w :: vs) a := by
  have hcopies : copies (w :: vs) = copies (v :: vs) := by
    rw [copies, copies, List.filterMap_cons, List.filterMap_cons, hcopy]
  refine h.of_refs hcopies (fun p => ?_) (fun _ hp => hp) fun u hu => ?_
  · rw [h.refs, holders, List.countP_cons, List.countP_cons, hpixmap]
  · rcases List.mem_cons.mp hu with rfl | hu
    · exact hown
    · exact h.own u (List.mem_cons_of_mem v hu)

/-- A vblank that holds nothing. -/
theorem Balanced.tail (h : Balanced (v :: vs) a) (hpixmap : v.pixmap = none)
    (hidle : v.gpuCopyPending = false) : Balanced vs a := by
  refine h.of_refs (copies_cons_idle hidle vs).symm (fun p => ?_) (fun _ hp => hp) fun u hu =>
    h.own u (List.mem_cons_of_mem v hu)
  rw [h.refs, holders, List.countP_cons_of_neg (by simp [hpixmap])]

/-- The copy of a vblank is given back. -/
theorem Balanced.ack (h : Balanced (v :: vs) a) (hv : v.gpuCopyPending = true) :
    Balanced ({ v with gpuCopyPending := false } :: vs)
      (lorieGpuCopyAck v.eventId v.pixmap v.gpuCopyDstBuffer a) := by
  -- the acknowledgement finds the buffer that was scheduled
  obtain ⟨-, p, hpixmap, -, hsrc⟩ := h.own v List.mem_cons_self hv
  have hc : (⟨v.eventId, v.gpuCopySrc, v.gpuCopyDstBuffer⟩ : Copy) =
      ⟨v.eventId, v.pixmap.bind a.buffer, v.gpuCopyDstBuffer⟩ := by
    rw [hpixmap, Option.bind_some, hsrc]
  rw [lorieGpuCopyAck_eq _ _ _ a hc]
  have hbefore := copies_cons_pending hv vs
  have hafter : copies ({ v with gpuCopyPending := false } :: vs) = copies vs :=
    copies_cons_idle rfl vs
  have huses := fun b => uses_cons ⟨v.eventId, v.gpuCopySrc, v.gpuCopyDstBuffer⟩ (copies vs) b
  refine { refs := fun p => ?_, dead := h.dead, owner := h.owner, matched := fun c => ?_,
           pending := fun b => ?_, root := ?_, owned := fun b hb => ?_, unowned := fun b hb => ?_
           own := fun u hu => ?_ }
  · exact h.refs p
  · have hmatched := h.matched c
    rw [hbefore, List.count_cons] at hmatched
    rw [hafter, hmatched, List.count_append, List.count_singleton]
    omega
  · have hpending := h.pending b
    rw [hbefore, huses] at hpending
    rw [hafter]
    show a.gpuCopyPending b - _ = _
    omega
  · have hroot := h.root
    rw [hbefore, usesRoot_cons] at hroot
    rw [hafter]
    show a.rootGpuCopyPending - _ = _
    omega
  · have howned := h.owned b hb
    rw [hbefore, huses] at howned
    rw [hafter]
    show a.refcount b - _ = _
    omega
  · have hunowned := h.unowned b hb
    rw [hbefore, huses] at hunowned
    rw [hafter]
    show a.refcount b - _ = _
    omega
  · rcases List.mem_cons.mp hu with rfl | hu
    · exact fun hpending => by cases hpending
    · exact h.own u (List.mem_cons_of_mem v hu)

/-- A copy is scheduled for a vblank. -/
theorem Balanced.schedule (h : Balanced (v :: vs) a) (hidle : v.gpuCopyPending = false)
    (hflip : v.flip = false) {p : ℕ} (hpixmap : v.pixmap = some p) {accepts : Bool}
    {dst d : Option ℕ}
    (hs : lorieTryScheduleGpuCopy accepts v.eventId p dst a = some (a', d)) (serial : ℕ) :
    Balanced ({ v with
      gpuCopyPending := true
      gpuCopySerial := serial
      gpuCopyDstBuffer := d
      gpuCopySrc := a.buffer p } :: vs) a' := by
  obtain ⟨hbuffer, rfl⟩ := lorieTryScheduleGpuCopy_eq hs rfl
  have hbefore := copies_cons_idle hidle vs
  have hafter : copies ({ v with
      gpuCopyPending := true, gpuCopySerial := serial, gpuCopyDstBuffer := d
      gpuCopySrc := a.buffer p } :: vs) = ⟨v.eventId, a.buffer p, d⟩ :: copies vs :=
    copies_cons_pending rfl vs
  -- one copy more is under way, with its two buffers
  have huses := fun b => uses_cons ⟨v.eventId, a.buffer p, d⟩ (copies vs) b
  refine { refs := h.refs, dead := h.dead, owner := h.owner, matched := fun c => ?_,
           pending := fun b => ?_, root := ?_, owned := fun b hb => ?_, unowned := fun b hb => ?_
           own := fun u hu => ?_ }
  · have hmatched := h.matched c
    rw [hbefore] at hmatched
    rw [hafter, List.count_cons]
    show (a.scheduled ++ [_]).count c = a.acks.count c + _
    rw [List.count_append, List.count_singleton, hmatched]
    omega
  · have hpending := h.pending b
    rw [hbefore] at hpending
    rw [hafter, huses]
    show a.gpuCopyPending b + _ = _
    omega
  · have hroot := h.root
    rw [hbefore] at hroot
    rw [hafter, usesRoot_cons]
    show a.rootGpuCopyPending + _ = _
    omega
  · have howned := h.owned b hb
    rw [hbefore] at howned
    rw [hafter, huses]
    show a.refcount b + _ = _
    omega
  · have hunowned := h.unowned b hb
    rw [hbefore] at hunowned
    rw [hafter, huses]
    show a.refcount b + _ = _
    omega
  · rcases List.mem_cons.mp hu with rfl | hu
    · exact fun _ => ⟨hflip, p, hpixmap, hbuffer, rfl⟩
    · exact h.own u (List.mem_cons_of_mem v hu)

/-- A reference on a pixmap is dropped, whoever held it. -/
theorem Balanced.drop (h : Balanced vs a) {p : ℕ} (vs' : List Vblank) (others : ℕ → ℕ)
    (flipWindow flipPixmap : Option ℕ) (hcopies : copies vs' = copies vs)
    (hholders : ∀ q, holders vs' { a with
      others := others, flipWindow := flipWindow, flipPixmap := flipPixmap } q +
        (if q = p then 1 else 0) = holders vs a q)
    (hown : ∀ v ∈ vs', OwnsCopy a v) :
    Balanced vs' (dixDestroyPixmap p { a with
      others := others, flipWindow := flipWindow, flipPixmap := flipPixmap }) := by
  have hp := hholders p
  rw [if_pos rfl, ← h.refs] at hp
  rw [dixDestroyPixmap]
  split
  next hlast =>
    simp only at hlast
    have hbuffer : ∀ {q b}, Function.update a.buffer p none q = some b →
        q ≠ p ∧ a.buffer q = some b := by
      intro q b hq
      by_cases hqp : q = p
      · rw [hqp, Function.update_self] at hq
        cases hq
      · rw [Function.update_of_ne hqp] at hq
        exact ⟨hqp, hq⟩
    refine { refs := fun q => ?_, dead := fun q hq => ?_, owner := fun q r b hq hr => ?_,
             matched := ?_, pending := ?_, root := ?_, owned := fun b hb => ?_
             unowned := fun b hb => ?_, own := fun u hu hpending => ?_ }
    · show Function.update a.refcnt p 0 q = holders vs' _ q
      by_cases hqp : q = p
      · rw [hqp, Function.update_self]
        show 0 = holders vs' { a with
          others := others, flipWindow := flipWindow, flipPixmap := flipPixmap } p
        omega
      · rw [Function.update_of_ne hqp, h.refs, ← hholders q, if_neg hqp]
        rfl
    · show Function.update a.buffer p none q = none
      by_cases hqp : q = p
      · rw [hqp, Function.update_self]
      · rw [Function.update_of_ne hqp]
        have hdead : Function.update a.refcnt p 0 q = 0 := hq
        rw [Function.update_of_ne hqp] at hdead
        exact h.dead q hdead
    · exact h.owner q r b (hbuffer hq).2 (hbuffer hr).2
    · rw [hcopies]
      exact h.matched
    · rw [hcopies]
      exact h.pending
    · rw [hcopies]
      exact h.root
    · rw [hcopies]
      obtain ⟨q, hq⟩ := hb
      obtain ⟨hqp, hq⟩ := hbuffer hq
      show bump a.refcount (-1) (a.buffer p) b = _
      rw [bump_apply, if_neg fun hpb => hqp (h.owner q p b hq hpb), h.owned b ⟨q, hq⟩]
      omega
    · rw [hcopies]
      show bump a.refcount (-1) (a.buffer p) b = _
      rw [bump_apply]
      by_cases hpb : a.buffer p = some b
      · rw [if_pos hpb, h.owned b ⟨p, hpb⟩]
        omega
      · rw [if_neg hpb, h.unowned b, Int.add_zero]
        rintro ⟨q, hq⟩
        have hqp : q ≠ p := fun hqp => hpb (hqp ▸ hq)
        refine hb ⟨q, ?_⟩
        show Function.update a.buffer p none q = _
        rw [Function.update_of_ne hqp, hq]
    · obtain ⟨hflip, q, hpixmap, hne, hsrc⟩ := hown u hu hpending
      -- the vblank itself holds its pixmap
      have hqp : q ≠ p := by
        rintro rfl
        have hcount : 0 < vs'.countP fun v => v.pixmap = some q :=
          List.countP_pos_iff.mpr ⟨u, hu, by simpa using hpixmap⟩
        have hle : vs'.countP (fun v => v.pixmap = some q) ≤ holders vs' { a with
            others := others, flipWindow := flipWindow, flipPixmap := flipPixmap } q := by
          rw [holders]
          omega
        omega
      have hsame : Function.update a.buffer p none q = a.buffer q := Function.update_of_ne hqp _ _
      exact ⟨hflip, q, hpixmap, fun hnone => hne (hsame.symm.trans hnone), hsame.trans hsrc⟩
  next hmore =>
    simp only at hmore
    refine h.of_refs hcopies (fun q => ?_) (fun q hq => ?_) hown
    · show _ = holders vs' { a with
        others := others, flipWindow := flipWindow, flipPixmap := flipPixmap } q
      by_cases hqp : q = p
      · rw [hqp, Function.update_self]
        show a.refcnt p - 1 = _
        omega
      · rw [Function.update_of_ne hqp, h.refs, ← hholders q, if_neg hqp, Nat.add_zero]
    · have hq : Function.update a.refcnt p (a.refcnt p - 1) q = 0 := hq
      by_cases hqp : q = p
      · rw [hqp, Function.update_self] at hq
        omega
      · rwa [Function.update_of_ne hqp] at hq

/-! ### The functions keep the books balanced -/

theorem ownsCopy_of_idle (hidle : v.gpuCopyPending = false) : OwnsCopy a v := fun hpending =>
  absurd (hidle.symm.trans hpending) (by decide)

theorem ackPending_idle (v : Vblank) (a : Accounts) :
    (ackPending v a).1.gpuCopyPending = false := by
  rw [ackPending]
  by_cases hv : v.gpuCopyPending = true
  · rw [if_pos hv]
  · rw [if_neg hv]
    exact Bool.not_eq_true _ ▸ hv

theorem Balanced.ackPending (h : Balanced (v :: vs) a) :
    Balanced ((ackPending v a).1 :: vs) (ackPending v a).2 := by
  rw [GpuCopyAck.ackPending]
  by_cases hv : v.gpuCopyPending = true
  · rw [if_pos hv]
    exact h.ack hv
  · rw [if_neg hv]
    exact h

theorem dropPixmap_pixmap (v : Vblank) (a : Accounts) : (dropPixmap v a).1.pixmap = none := by
  rw [dropPixmap]
  split
  · rfl
  next hnone => exact hnone

theorem dropPixmap_idle (hidle : v.gpuCopyPending = false) (a : Accounts) :
    (dropPixmap v a).1.gpuCopyPending = false := by
  rw [dropPixmap]
  split <;> exact hidle

/-- A vblank that waits for no copy drops its pixmap. -/
theorem Balanced.dropPixmap (h : Balanced (v :: vs) a) (hidle : v.gpuCopyPending = false) :
    Balanced ((dropPixmap v a).1 :: vs) (dropPixmap v a).2 := by
  rw [GpuCopyAck.dropPixmap]
  cases hpixmap : v.pixmap with
  | none => exact h
  | some p =>
    refine h.drop ({ v with pixmap := none } :: vs) a.others a.flipWindow a.flipPixmap ?_
      (fun q => ?_) fun u hu => ?_
    · exact (copies_cons_idle hidle vs).trans (copies_cons_idle hidle vs).symm
    · rw [holders, holders, List.countP_cons, List.countP_cons, hpixmap]
      by_cases hq : q = p
      · simp [hq]
        omega
      · simp [hq, Ne.symm hq]
    · rcases List.mem_cons.mp hu with rfl | hu
      · exact ownsCopy_of_idle hidle
      · exact h.own u (List.mem_cons_of_mem v hu)

theorem Balanced.scrap (h : Balanced (v :: vs) a) :
    Balanced ((presentVblankScrap v a).1 :: vs) (presentVblankScrap v a).2 := by
  have hidle := dropPixmap_idle (ackPending_idle v a) (GpuCopyAck.ackPending v a).2
  refine (h.ackPending.dropPixmap (ackPending_idle v a)).head rfl ?_ (ownsCopy_of_idle hidle)
  rw [Vblank.copy, Vblank.copy]
  rfl

/-- A vblank is destroyed, with whatever it still held. -/
theorem Balanced.destroy (h : Balanced (v :: vs) a) : Balanced vs (presentVblankDestroy v a) :=
  (h.ackPending.dropPixmap (ackPending_idle v a)).tail (dropPixmap_pixmap _ _)
    (dropPixmap_idle (ackPending_idle v a) _)

theorem Balanced.destroyAll {ws : List Vblank} (h : Balanced (ws ++ vs) a) :
    Balanced vs (destroyAll ws a) := by
  induction ws generalizing a with
  | nil => exact h
  | cons w ws ih => exact ih (Balanced.destroy h)

/-- The loop over the vblanks of a window: those before stay balanced with those after. -/
theorem Balanced.scrapSuperseded (r : Request) (crtcMsc : ℕ) {ws : List Vblank}
    (h : Balanced (ws ++ vs) a) :
    Balanced ((scrapSuperseded r crtcMsc ws a).1 ++ vs) (scrapSuperseded r crtcMsc ws a).2 := by
  induction ws generalizing vs a with
  | nil => exact h
  | cons w ws ih =>
    rw [GpuCopyAck.scrapSuperseded]
    have hhead : Balanced ((if r.Supersedes crtcMsc w.toVblank then presentVblankScrap w a
        else (w, a)).1 :: (ws ++ vs)) (if r.Supersedes crtcMsc w.toVblank then
          presentVblankScrap w a else (w, a)).2 := by
      split
      · exact Balanced.scrap h
      · exact h
    have htail := ih (hhead.perm List.perm_middle.symm)
    exact htail.perm List.perm_middle

theorem presentFlipIdle_flipPixmap (a : Accounts) : (presentFlipIdle a).flipPixmap = none := by
  rw [presentFlipIdle]
  split
  next hnone => exact hnone
  · rw [dixDestroyPixmap]
    split <;> rfl

/-- The pixmap on the screen is dropped. -/
theorem Balanced.flipIdle (h : Balanced vs a) : Balanced vs (presentFlipIdle a) := by
  rw [presentFlipIdle]
  cases hflip : a.flipPixmap with
  | none => exact h
  | some p =>
    refine h.drop vs a.others none none rfl (fun q => ?_) h.own
    rw [holders, holders, hflip]
    by_cases hq : q = p
    · simp [hq]
    · simp [hq, Ne.symm hq]

theorem Balanced.unflip (h : Balanced vs a) (window : ℕ) :
    Balanced vs (presentUnflip window a) := by
  rw [presentUnflip]
  split
  · exact h.flipIdle
  · exact h

/-- A vblank that flips waits for no copy; its pixmap goes to the screen. -/
theorem Balanced.flip (h : Balanced (v :: vs) a) (hflip : v.flip = true) :
    Balanced vs (presentFlip v a) := by
  have hidle : v.gpuCopyPending = false := by
    by_contra hpending
    obtain ⟨hnot, -⟩ := h.own v List.mem_cons_self (by simpa using hpending)
    exact absurd (hflip.symm.trans hnot) (by decide)
  have hidle' := h.flipIdle
  have hnone := presentFlipIdle_flipPixmap a
  have hcopies : copies ({ v with pixmap := none } :: vs) = copies (v :: vs) :=
    (copies_cons_idle hidle vs).trans (copies_cons_idle hidle vs).symm
  have hmoved : Balanced ({ v with pixmap := none } :: vs) { presentFlipIdle a with
      flipWindow := some v.window, flipPixmap := v.pixmap } := by
    refine hidle'.of_refs hcopies (fun p => ?_) (fun _ hp => hp) fun u hu => ?_
    · have hrefs := hidle'.refs p
      rw [holders, hnone, List.countP_cons] at hrefs
      rw [List.countP_cons]
      simp only [reduceCtorEq, decide_false, decide_eq_true_eq, Bool.false_eq_true, if_false,
        Nat.add_zero] at hrefs ⊢
      omega
    · rcases List.mem_cons.mp hu with rfl | hu
      · exact ownsCopy_of_idle hidle
      · exact hidle'.own u (List.mem_cons_of_mem v hu)
  exact hmoved.destroy

/-- `present_execute_copy` schedules, polls, gives up or hands back. -/
theorem Balanced.executeCopy (h : Balanced (v :: vs) a) (env : Env) {p : ℕ}
    (hpixmap : v.pixmap = some p) (hflip : v.flip = false) :
    Balanced ((presentExecuteCopy env v p a).1 :: vs) (presentExecuteCopy env v p a).2.1 := by
  rw [presentExecuteCopy]
  split
  · exact h
  split
  · exact h
  split
  · have hacked := h.ackPending
    simp only
    split
    · exact hacked.scrap
    · exact hacked
  next hidle =>
    have hidle' : v.gpuCopyPending = false := by simpa using hidle
    split
    next a' d hs =>
      have hscheduled := h.schedule hidle' hflip hpixmap hs a'.gpuCopySerialCounter
      simp only
      split
      · exact hscheduled
      · -- not queued: the copy is given back at once, as by a vblank that had waited for it
        refine (hscheduled.ack rfl).head rfl ?_ (ownsCopy_of_idle hidle')
        rw [Vblank.copy, Vblank.copy, if_neg (by simp [hidle']), if_neg (by simp)]
    next => exact h

theorem Balanced.executeTaken (h : Balanced (v :: vs) a) (env : Env) :
    Balanced ((presentExecuteTaken env v a).2.toList ++ vs) (presentExecuteTaken env v a).1 := by
  rw [presentExecuteTaken]
  cases hpixmap : v.pixmap with
  | none => exact h.destroy
  | some p =>
    simp only
    split
    next hflips => exact h.flip hflips.1
    next =>
      have hcleared : Balanced ({ v with
          flip := false, execMsc := if v.flip then v.targetMsc else v.execMsc } :: vs) a := by
        refine h.head rfl rfl fun hpending => ?_
        obtain ⟨-, hown⟩ := h.own v List.mem_cons_self hpending
        exact ⟨rfl, hown⟩
      have hcopy := (hcleared.unflip v.window).executeCopy env hpixmap rfl
      rw [hpixmap] at hcopy
      split
      next v' a' heq =>
        rw [heq] at hcopy
        exact hcopy
      next v' a' heq =>
        rw [heq] at hcopy
        exact hcopy.destroy

theorem take_perm {eventId : ℕ} {w : Vblank} {ws : List Vblank}
    (h : take eventId vs = some (w, ws)) : vs.Perm (w :: ws) := by
  induction vs generalizing ws with
  | nil => cases h
  | cons v vs ih =>
    rw [take] at h
    split at h
    · cases h
      exact .refl _
    · obtain ⟨⟨w', ws'⟩, htake, heq⟩ := Option.map_eq_some_iff.mp h
      simp only [Prod.mk.injEq] at heq
      obtain ⟨rfl, rfl⟩ := heq
      exact ((ih htake).cons v).trans (.swap w' v ws')

theorem Balanced.execute {s : State} (h : Balanced s.vblanks s.toAccounts) (env : Env)
    (eventId : ℕ) :
    Balanced (presentExecute env eventId s).vblanks (presentExecute env eventId s).toAccounts := by
  rw [presentExecute]
  split
  · exact h
  next w ws htake =>
    split
    · exact h
    · exact (h.perm (take_perm htake)).executeTaken env

/-- Vblanks that may no longer flip. -/
theorem Balanced.map (h : Balanced vs a) {f : Vblank → Vblank}
    (hpixmap : ∀ v, (f v).pixmap = v.pixmap) (hcopy : ∀ v, (f v).copy = v.copy)
    (hown : ∀ v, OwnsCopy a v → OwnsCopy a (f v)) : Balanced (vs.map f) a := by
  have hcopies : copies (vs.map f) = copies vs := by
    rw [copies, List.filterMap_map]
    exact List.filterMap_congr fun v _ => hcopy v
  refine h.of_refs hcopies (fun p => ?_) (fun _ hp => hp) fun u hu => ?_
  · rw [h.refs, holders, List.countP_map]
    simp only [Function.comp_def, hpixmap]
  · obtain ⟨v, hv, rfl⟩ := List.mem_map.mp hu
    exact hown v (h.own v hv)

/-- A new vblank, with a reference on its pixmap. -/
theorem Balanced.create (h : Balanced vs a) (hidle : v.gpuCopyPending = false) :
    Balanced (vs ++ [v]) (match v.pixmap with
      | some p => { a with refcnt := Function.update a.refcnt p (a.refcnt p + 1) }
      | none => a) := by
  have hcopies := copies_cons_idle hidle vs
  refine Balanced.perm ?_ (List.perm_append_singleton v vs).symm
  have hown : ∀ u ∈ v :: vs, OwnsCopy a u := by
    intro u hu
    rcases List.mem_cons.mp hu with rfl | hu
    · exact ownsCopy_of_idle hidle
    · exact h.own u hu
  cases hpixmap : v.pixmap with
  | none =>
    refine h.of_refs hcopies (fun p => ?_) (fun _ hp => hp) hown
    rw [h.refs, holders, List.countP_cons_of_neg (by simp [hpixmap])]
  | some p =>
    refine h.of_refs hcopies (fun q => ?_) (fun q hq => ?_) hown
    · have hrefs := h.refs q
      rw [holders] at hrefs
      rw [List.countP_cons, hpixmap]
      by_cases hq : q = p
      · rw [hq, Function.update_self]
        rw [hq] at hrefs
        simp only [decide_true, if_true]
        omega
      · rw [Function.update_of_ne hq, if_neg (by simpa using Ne.symm hq)]
        exact hrefs
    · by_cases hqp : q = p
      · rw [hqp, Function.update_self] at hq
        omega
      · rwa [Function.update_of_ne hqp] at hq

theorem Balanced.request {s : State} (h : Balanced s.vblanks s.toAccounts) (r : Request)
    (env : Env) :
    Balanced (presentScmdPixmap r env s).vblanks (presentScmdPixmap r env s).toAccounts := by
  have hscrapped : Balanced (GpuCopyAck.scrapSuperseded r env.crtcMsc s.vblanks s.toAccounts).1
      (GpuCopyAck.scrapSuperseded r env.crtcMsc s.vblanks s.toAccounts).2 := by
    have happend : Balanced (s.vblanks ++ []) s.toAccounts := by
      rw [List.append_nil]
      exact h
    have hloop := happend.scrapSuperseded r env.crtcMsc
    rw [List.append_nil] at hloop
    exact hloop
  rw [presentScmdPixmap]
  simp only
  split
  · exact hscrapped
  · have hcreated := hscrapped.create (v := {
      toVblank := Present.presentVblankCreate r env.toEnv (s.eventId + 1)
      gpuCopyDstBuffer := none
      gpuCopySrc := none }) rfl
    split
    · exact hcreated
    · exact Balanced.execute (s := { s with
        toAccounts := _, vblanks := _, eventId := s.eventId + 1 }) hcreated env _

/-- A pixmap is made, with a buffer nobody has. -/
theorem Balanced.createPixmap (h : Balanced vs a) {p : ℕ} {buffer : Option ℕ}
    (hfree : a.refcnt p = 0) (hfresh : ∀ b ∈ buffer, a.refcount b = 0) :
    Balanced vs { a with
      refcnt := Function.update a.refcnt p 1
      others := Function.update a.others p 1
      buffer := Function.update a.buffer p buffer
      refcount := bump a.refcount 1 buffer } := by
  have hnone := h.dead p hfree
  have hrefs := h.refs p
  rw [hfree, holders] at hrefs
  -- a count of 0 is a buffer that is neither of a pixmap nor in a copy
  have hnot : ∀ b ∈ buffer, ¬ Owned a b ∧ uses (copies vs) b = 0 := by
    intro b hb
    have hzero := hfresh b hb
    by_cases howned : Owned a b
    · have := h.owned b howned
      omega
    · have := h.unowned b howned
      exact ⟨howned, by omega⟩
  have hbuffer : ∀ {q b}, Function.update a.buffer p buffer q = some b →
      q = p ∧ buffer = some b ∨ q ≠ p ∧ a.buffer q = some b := by
    intro q b hq
    by_cases hqp : q = p
    · rw [hqp, Function.update_self] at hq
      exact .inl ⟨hqp, hq⟩
    · rw [Function.update_of_ne hqp] at hq
      exact .inr ⟨hqp, hq⟩
  refine { refs := fun q => ?_, dead := fun q hq => ?_, owner := fun q r b hq hr => ?_
           matched := h.matched, pending := h.pending, root := h.root, owned := fun b hb => ?_
           unowned := fun b hb => ?_, own := fun u hu hpending => ?_ }
  · show Function.update a.refcnt p 1 q = Function.update a.others p 1 q + _ +
      if a.flipPixmap = some q then 1 else 0
    by_cases hqp : q = p
    · rw [hqp, Function.update_self, Function.update_self]
      omega
    · rw [Function.update_of_ne hqp, Function.update_of_ne hqp]
      exact h.refs q
  · have hq' : Function.update a.refcnt p 1 q = 0 := hq
    by_cases hqp : q = p
    · rw [hqp, Function.update_self] at hq'
      omega
    · rw [Function.update_of_ne hqp] at hq'
      show Function.update a.buffer p buffer q = none
      rw [Function.update_of_ne hqp]
      exact h.dead q hq'
  · rcases hbuffer hq with ⟨hqp, hq⟩ | ⟨-, hq⟩ <;> rcases hbuffer hr with ⟨hrp, hr⟩ | ⟨-, hr⟩
    · rw [hqp, hrp]
    -- the new buffer is of the new pixmap only
    · exact absurd ⟨r, hr⟩ (hnot b hq).1
    · exact absurd ⟨q, hq⟩ (hnot b hr).1
    · exact h.owner q r b hq hr
  · obtain ⟨q, hq⟩ := hb
    show bump a.refcount 1 buffer b = _
    rw [bump_apply]
    rcases hbuffer hq with ⟨-, hq⟩ | ⟨-, hq⟩
    · rw [if_pos hq, hfresh b hq, (hnot b hq).2]
      rfl
    · have hne : buffer ≠ some b := fun hb => (hnot b hb).1 ⟨q, hq⟩
      rw [if_neg hne, Int.add_zero]
      exact h.owned b ⟨q, hq⟩
  · show bump a.refcount 1 buffer b = _
    have hne : buffer ≠ some b := by
      intro hbuf
      exact hb ⟨p, by show Function.update a.buffer p buffer p = _; rw [Function.update_self, hbuf]⟩
    rw [bump_apply, if_neg hne, Int.add_zero]
    refine h.unowned b fun ⟨q, hq⟩ => hb ⟨q, ?_⟩
    have hqp : q ≠ p := by
      rintro rfl
      rw [hnone] at hq
      cases hq
    show Function.update a.buffer p buffer q = some b
    rw [Function.update_of_ne hqp, hq]
  · obtain ⟨hflip, q, hpixmap, hne, hsrc⟩ := h.own u hu hpending
    have hqp : q ≠ p := by
      rintro rfl
      exact hne hnone
    have hsame : Function.update a.buffer p buffer q = a.buffer q := Function.update_of_ne hqp _ _
    exact ⟨hflip, q, hpixmap, fun hnone => hne (hsame.symm.trans hnone), hsame.trans hsrc⟩

end

/-! ### Runs -/

theorem Balanced.init : Balanced [] {} where
  refs _ := rfl
  dead _ _ := rfl
  owner p q b h := by cases h
  matched _ := rfl
  pending _ := rfl
  root := rfl
  owned b hb := by
    obtain ⟨p, hp⟩ := hb
    cases hp
  unowned _ _ := rfl
  own v hv := absurd hv List.not_mem_nil

theorem Balanced.step {s s' : State} (h : Balanced s.vblanks s.toAccounts) {act : Act}
    (hstep : step s act = some s') : Balanced s'.vblanks s'.toAccounts := by
  cases act with
  | createPixmap p buffer =>
    simp only [GpuCopyAck.step] at hstep
    split at hstep
    next hnew =>
      cases hstep
      exact h.createPixmap hnew.1 hnew.2
    next => cases hstep
  | refPixmap p =>
    simp only [GpuCopyAck.step] at hstep
    split at hstep
    next hlive =>
      cases hstep
      refine h.of_refs rfl (fun q => ?_) (fun q hq => ?_) h.own
      · have hrefs := h.refs q
        rw [holders] at hrefs
        by_cases hqp : q = p
        · rw [hqp] at hrefs ⊢
          rw [Function.update_self, Function.update_self]
          show s.refcnt p + 1 = s.others p + 1 + s.vblanks.countP _ + _
          omega
        · rw [Function.update_of_ne hqp, Function.update_of_ne hqp]
          exact hrefs
      · by_cases hqp : q = p
        · rw [hqp, Function.update_self] at hq
          omega
        · rwa [Function.update_of_ne hqp] at hq
    next => cases hstep
  | destroyPixmap p =>
    simp only [GpuCopyAck.step] at hstep
    split at hstep
    next hheld =>
      cases hstep
      refine h.drop s.vblanks (Function.update s.others p (s.others p - 1)) s.flipWindow
        s.flipPixmap rfl (fun q => ?_) h.own
      show Function.update s.others p (s.others p - 1) q +
            s.vblanks.countP (fun v => v.pixmap = some q) +
          (if s.flipPixmap = some q then 1 else 0) + (if q = p then 1 else 0) =
        s.others q + s.vblanks.countP (fun v => v.pixmap = some q) +
          if s.flipPixmap = some q then 1 else 0
      by_cases hqp : q = p
      · rw [hqp, Function.update_self, if_pos rfl]
        omega
      · rw [Function.update_of_ne hqp, if_neg hqp, Nat.add_zero]
    next => cases hstep
  | request r env =>
    simp only [GpuCopyAck.step] at hstep
    split at hstep
    · cases hstep
    · cases hstep
      exact h.request r env
  | execute eventId env =>
    cases hstep
    exact h.execute env eventId
  | gpuCopyDone serial =>
    cases hstep
    exact { refs := h.refs, dead := h.dead, owner := h.owner, matched := h.matched
            pending := h.pending, root := h.root, owned := h.owned, unowned := h.unowned
            own := h.own }
  | checkFlipWindow window fits keeps =>
    cases hstep
    -- the screen goes back first, then the vblanks of the window lose their flip
    have hunflip : Balanced s.vblanks
        (if fits then s.toAccounts else presentUnflip window s.toAccounts) := by
      split
      · exact h
      · exact h.unflip window
    refine hunflip.map (fun v => ?_) (fun v => ?_) fun v hv => ?_
    all_goals by_cases hv' : v.window = window ∧ v.flip = true ∧ ¬ keeps v.eventId = true
    · rw [if_pos hv']
    · rw [if_neg hv']
    · rw [if_pos hv']
      rfl
    · rw [if_neg hv']
    · rw [if_pos hv']
      exact fun hpending => ⟨rfl, (hv hpending).2⟩
    · rw [if_neg hv']
      exact hv
  | destroyWindow window =>
    cases hstep
    -- the vblanks of the window first, as the loop over them meets them
    have hsplit := h.perm
      (List.filter_append_perm (fun v : Vblank => decide (v.window = window)) s.vblanks).symm
    have hdestroyed := hsplit.destroyAll
    have hrest : s.vblanks.filter (fun v => !decide (v.window = window)) =
        s.vblanks.filter (·.window ≠ window) := List.filter_congr fun v _ => by simp
    rw [hrest] at hdestroyed
    exact { refs := hdestroyed.refs, dead := hdestroyed.dead, owner := hdestroyed.owner
            matched := hdestroyed.matched, pending := hdestroyed.pending
            root := hdestroyed.root, owned := hdestroyed.owned, unowned := hdestroyed.unowned
            own := hdestroyed.own }

theorem Balanced.acksBalance {s : State} (h : Balanced s.vblanks s.toAccounts) :
    AcksBalance s where
  matched := h.matched
  gone c hc := by
    have hnone : (copies s.vblanks).count c = 0 := by
      refine List.count_eq_zero.mpr fun hmem => ?_
      obtain ⟨v, hv, hcopy⟩ := List.mem_filterMap.mp hmem
      rw [Vblank.copy] at hcopy
      split at hcopy
      · exact hc v hv (by rw [← Option.some_inj.mp hcopy])
      · cases hcopy
    rw [h.matched, hnone, Nat.add_zero]
  pending := h.pending
  root := h.root
  owned := h.owned
  unowned := h.unowned
  nonneg := by
    refine ⟨fun b => ⟨?_, ?_⟩, ?_⟩
    · rw [h.pending]
      omega
    · by_cases hb : Owned s.toAccounts b
      · rw [h.owned b hb]
        omega
      · rw [h.unowned b hb]
        omega
    · rw [h.root]
      omega
  returned hidle := by
    have hnone : copies s.vblanks = [] := by
      refine List.filterMap_eq_nil_iff.mpr fun v hv => ?_
      rw [Vblank.copy, hidle v hv]
      rfl
    refine ⟨fun b => ?_, ?_, fun b hb => ?_, fun b hb => ?_⟩
    · rw [h.pending, hnone]
      rfl
    · rw [h.root, hnone]
      rfl
    · rw [h.owned b hb, hnone]
      rfl
    · rw [h.unowned b hb, hnone]
      rfl

theorem balanced_run {as : List Act} {s : State} (hrun : run step {} as = some s) :
    Balanced s.vblanks s.toAccounts := by
  refine run_invariant_of_step (I := fun s => Balanced s.vblanks s.toAccounts) ?_ Balanced.init hrun
  intro s act s' h hstep
  exact Balanced.step h hstep

/-- A vblank waits for one copy at most, and a copy uses a buffer twice at most. -/
theorem uses_copies_le (vs : List Vblank) (b : ℕ) : uses (copies vs) b ≤ 2 * vs.length := by
  have hlength : (copies vs).length ≤ vs.length := List.length_filterMap_le ..
  have hsrc : (copies vs).countP (fun c => c.src = some b) ≤ (copies vs).length :=
    List.countP_le_length
  have hdst : (copies vs).countP (fun c => c.dst = some b) ≤ (copies vs).length :=
    List.countP_le_length
  rw [uses]
  omega

/-- The counters of a buffer do not wrap while there are fewer than 2 ^ 14 vblanks. -/
theorem counters_fit {as : List Act} {s : State} (hrun : run step {} as = some s)
    (hfew : s.vblanks.length < 2 ^ 14) (b : ℕ) :
    s.refcount b < 2 ^ 15 ∧ s.gpuCopyPending b < 2 ^ 31 := by
  have hinv := balanced_run hrun
  have huses := uses_copies_le s.vblanks b
  constructor
  · by_cases hb : Owned s.toAccounts b
    · rw [hinv.owned b hb]
      omega
    · rw [hinv.unowned b hb]
      omega
  · rw [hinv.pending]
    omega

/-- In every run each scheduled copy is acknowledged once, by the time its vblank is gone. -/
theorem acks_balance {as : List Act} {s : State} (hrun : run step {} as = some s) :
    AcksBalance s :=
  (balanced_run hrun).acksBalance

/-- A pixmap presented to a window with a pixmap of its own, the copy polled once. -/
def presentOnce : List Act :=
  [.createPixmap 1 (some 10), .createPixmap 2 (some 20),
    .request ⟨5, some 1, false, 0, 0, 0, 0, true⟩
      { crtcMsc := 0, accepts := true, dst := some 2 },
    .gpuCopyDone 1, .execute 1 { crtcMsc := 5, dst := some 2 }, .destroyPixmap 1]

theorem presentOnce_balanced :
    ∃ s, run step {} presentOnce = some s ∧ s.acks = [⟨1, some 10, some 20⟩] ∧
      s.refcount 10 = 0 ∧ s.refcount 20 = 1 ∧ AcksBalance s := by
  have hend : (run step {} presentOnce).map (fun s => (s.acks, s.refcount 10, s.refcount 20)) =
      some ([⟨1, some 10, some 20⟩], 0, 1) := by decide +kernel
  obtain ⟨s, hrun, hs⟩ := Option.map_eq_some_iff.mp hend
  simp only [Prod.mk.injEq] at hs
  exact ⟨s, hrun, hs.1, hs.2.1, hs.2.2, acks_balance hrun⟩

end Lorie.GpuCopyAck
