/-
The addresses at which the CPU draws to pixmaps (`InitOutput.c`, lines 117 to 134, 527 to 536,
590 to 612, 929 to 937 and 1077 to 1158).

`priv->locked` is where the buffer of a pixmap was last locked to.  Buffers are locked when
they are made and when they are converted, and around accesses if they are not locked then; the
root window keeps its pixmap locked, and its old pixmap is unlocked when it gets another.

All of it happens on one thread.  While a pixmap is drawn to it is neither converted nor locked
again nor destroyed, but others are made, drawn to and destroyed meanwhile: `miPolyArc` draws
to pixmaps of its own before the one it was called for.

* `Server`, `step` — pixmaps that are made, converted, drawn to, shown and destroyed;
* `Sound` — `priv->locked` is where the pixels of the buffer are;
* `access_live` — so is every address that is drawn to, and it is not freed.
-/
import KaliGui.Lib.Run
import KaliGui.Lorie.PixmapBuffer

namespace Lorie.Buffer

open Machine

/-! ### Locks -/

/-- `LorieBuffer_lock(priv->buffer, &priv->locked)`. -/
def LoriePixmapPriv.lock (os : Os) (priv : LoriePixmapPriv) : LoriePixmapPriv :=
  match priv.buffer with
  | none => priv
  | some b =>
    { priv with
      buffer := some (lorieBufferLock os b), locked := (lorieBufferLock os b).lockedData }

/-- Whether that returns 0. -/
def LoriePixmapPriv.locks (os : Os) (priv : LoriePixmapPriv) : Bool :=
  match priv.buffer with
  | none => false
  | some b =>
    b.locked = 0 ∧ (b.desc.type = .ahardwarebuffer → os.api26 = true →
      b.desc.buffer.all os.aHardwareBufferLock)

/-- `LorieBuffer_unlock(priv->buffer)`, with `priv->locked = NULL`. -/
def LoriePixmapPriv.unlock (priv : LoriePixmapPriv) : LoriePixmapPriv :=
  { priv with buffer := priv.buffer.map lorieBufferUnlock, locked := none }

/-- `LorieBuffer_lock` finds the buffer locked. -/
def LoriePixmapPriv.lockComplaint (priv : LoriePixmapPriv) : ℕ :=
  if priv.buffer.any (·.locked ≠ 0) then 1 else 0

/-- `LorieBuffer_unlock` finds the buffer not locked. -/
def LoriePixmapPriv.unlockComplaint (priv : LoriePixmapPriv) : ℕ :=
  if priv.buffer.any (·.locked = 0) then 1 else 0

/-- The block of the heap that the buffer has. -/
def LoriePixmapPriv.block (priv : LoriePixmapPriv) : Option ℕ :=
  match priv.buffer.bind (·.desc.data) with
  | some ⟨.heap block, _, _⟩ => some block
  | _ => none

end Lorie.Buffer

namespace Lorie.PixmapAccess

open Machine Buffer

/-! ### The server -/

structure Server where
  memory : Memory
  pixmap : ℕ → Option Pixmap := fun _ => none
  /-- the pixmap of the root window -/
  root : Option ℕ := none
  /-- the pixmaps with an open access, and their `devPrivate.ptr` -/
  access : List (ℕ × Option Region) := []
  /-- the blocks that `calloc` has given; a block that is freed and given again is another -/
  given : List ℕ := []
  /-- how often a buffer was to be locked that was, or to be unlocked that was not -/
  complaints : ℕ := 0

inductive Action
  /-- `CreatePixmap` -/
  | create (os : Os) (id : UInt64) (k width height depth : ℕ) (backed legacyDrawing : Bool)
  /-- `loriePixmapFromFds` -/
  | fromFds (os : Os) (id : UInt64) (k : ℕ) (legacyDrawing : Bool) (i : Import)
  /-- `lorieEnsureGpuSampleable` -/
  | sample (os : Os) (k : ℕ) (type : BufferType)
  /-- `lorieModifyPixmapHeader` -/
  | modify (k : ℕ) (data : Region)
  /-- `lorieSetWindowPixmap`, for the root window -/
  | setRoot (os : Os) (k : ℕ)
  /-- `lorieRedraw` and `lorieTryScheduleGpuCopy` lock a buffer again -/
  | relock (os : Os) (k : ℕ)
  /-- `loriePrepareAccess` -/
  | prepare (os : Os) (k : ℕ)
  /-- `lorieFinishAccess` -/
  | finish (k : ℕ)
  /-- `lorieExaDestroyPixmap` -/
  | destroy (k : ℕ)

/-- No access to the pixmap is open. -/
def Server.Closed (s : Server) (k : ℕ) : Prop := k ∉ s.access.map Prod.fst

instance (s : Server) (k : ℕ) : Decidable (s.Closed k) := inferInstanceAs (Decidable (_ ∉ _))

def Server.setPriv (s : Server) (k : ℕ) (p : Pixmap) (priv : LoriePixmapPriv)
    (complaints : ℕ) : Server :=
  { s with
    pixmap := Function.update s.pixmap k (some { p with priv := priv })
    complaints := s.complaints + complaints }

/-- A new pixmap, whose block was not given before. -/
def Server.add (s : Server) (k : ℕ) (p : Pixmap) : Option Server :=
  match p.priv.block with
  | none => some { s with pixmap := Function.update s.pixmap k (some p) }
  | some block =>
    if block ∈ s.given then none
    else some { s with
      pixmap := Function.update s.pixmap k (some p), given := block :: s.given }

/-- The unlocking half of `lorieSetWindowPixmap`. -/
def Server.unlockRoot (s : Server) : Server :=
  match s.root with
  | none => s
  | some old =>
    match s.pixmap old with
    | none => s
    | some p =>
      if p.priv.buffer.isSome ∧ p.priv.locked.isSome then
        s.setPriv old p { p.priv.unlock with wasLocked := false } p.priv.unlockComplaint
      else s

def lorieSetWindowPixmap (os : Os) (s : Server) (new : ℕ) : Option Server :=
  let s := s.unlockRoot
  (s.pixmap new).map fun p =>
    if p.priv.buffer.isSome ∧ ¬p.priv.locked.isSome then
      { s.setPriv new p { p.priv.lock os with wasLocked := false } p.priv.lockComplaint with
        root := some new }
    else { s with root := some new }

/-- `FatalError` if the buffer cannot be locked again. -/
def relock (os : Os) (s : Server) (k : ℕ) (p : Pixmap) : Option Server :=
  if p.priv.locked.isSome then
    let priv := p.priv.unlock
    if priv.locks os then
      some (s.setPriv k p (priv.lock os) (p.priv.unlockComplaint + priv.lockComplaint))
    else none
  else some s

/-- The access is open, with `devPrivate.ptr`. -/
def Server.open (s : Server) (k : ℕ) (priv : LoriePixmapPriv) : Server :=
  { s with access := (k, priv.locked <|> priv.mem) :: s.access }

/-- `loriePrepareAccess`; if it fails, `exaPrepareAccess` calls `FatalError`. -/
def loriePrepareAccess (os : Os) (s : Server) (k : ℕ) (p : Pixmap) : Option Server :=
  if ¬p.priv.locked.isSome ∧ ¬p.priv.mem.isSome then
    if p.priv.locks os then
      let priv := { p.priv.lock os with wasLocked := false }
      some ((s.setPriv k p priv p.priv.lockComplaint).open k priv)
    else none
  else
    let priv := { p.priv with wasLocked := true }
    some ((s.setPriv k p priv 0).open k priv)

def lorieFinishAccess (s : Server) (k : ℕ) (p : Pixmap) : Server :=
  if ¬p.priv.wasLocked then
    s.setPriv k p { p.priv.unlock with wasLocked := false } p.priv.unlockComplaint
  else s

/-- `lorieExaDestroyPixmap`: a buffer in the heap is freed with its pixmap. -/
def lorieExaDestroyPixmap (s : Server) (k : ℕ) (p : Pixmap) : Server :=
  { s with
    pixmap := Function.update s.pixmap k none
    memory := s.memory.free (p.priv.buffer.bind fun b =>
      if b.desc.type = .regular then b.desc.data else none)
    complaints := s.complaints + if p.priv.locked.isSome then p.priv.unlockComplaint else 0 }

def step (s : Server) : Action → Option Server
  | .create os id k width height depth backed legacyDrawing =>
    if s.pixmap k = none then
      (createPixmap os id width height depth backed legacyDrawing).bind (s.add k)
    else none
  | .fromFds os id k legacyDrawing i =>
    if s.pixmap k = none then (loriePixmapFromFds os id legacyDrawing i).bind (s.add k) else none
  | .sample os k type =>
    if s.Closed k then
      (s.pixmap k).map fun p =>
        let (_, p, memory) := lorieEnsureGpuSampleable os s.memory p type
        { s with pixmap := Function.update s.pixmap k (some p), memory := memory }
    else none
  | .modify k data =>
    if s.Closed k then
      (s.pixmap k).map fun p => s.setPriv k p { p.priv with mem := some data } 0
    else none
  | .setRoot os k =>
    if s.Closed k ∧ s.root.all fun old => s.Closed old then lorieSetWindowPixmap os s k else none
  | .relock os k => if s.Closed k then (s.pixmap k).bind (relock os s k) else none
  | .prepare os k => if s.Closed k then (s.pixmap k).bind (loriePrepareAccess os s k) else none
  | .finish k =>
    if s.Closed k then none
    else
      (s.pixmap k).map fun p =>
        { lorieFinishAccess s k p with access := s.access.filter (·.1 ≠ k) }
  | .destroy k =>
    if s.Closed k ∧ s.root ≠ some k then (s.pixmap k).map (lorieExaDestroyPixmap s k) else none

/-! ### Where the CPU draws -/

variable {os : Os} {s t : Server} {b : LorieBuffer} {priv : LoriePixmapPriv} {p : Pixmap} {k : ℕ}

/-- A buffer that is locked to where its pixels are, if anywhere. -/
structure Whole (b : LorieBuffer) : Prop where
  data : ∀ r, b.lockedData = some r → b.locked ≠ 0 ∧ b.region = some r
  regular : b.desc.type = .regular → ∃ block n, b.desc.data = some ⟨.heap block, 0, n⟩

/-- `priv->locked` is where the buffer is locked to. -/
structure Sound (priv : LoriePixmapPriv) : Prop where
  pointer : ∀ r, priv.locked = some r → ∃ b, priv.buffer = some b ∧ b.lockedData = some r
  whole : ∀ b, priv.buffer = some b → Whole b

theorem lock_region (os : Os) (b : LorieBuffer) : (lorieBufferLock os b).region = b.region := by
  rw [LorieBuffer.region, LorieBuffer.region, lorieBufferLock_desc]

theorem Whole.lockedData_none (h : Whole b) (hb : b.locked = 0) : b.lockedData = none := by
  cases hdata : b.lockedData with
  | none => rfl
  | some r => exact absurd hb (h.data r hdata).1

theorem lock_locked (os : Os) (b : LorieBuffer) : (lorieBufferLock os b).locked ≠ 0 := by
  by_cases hb : b.locked = 0
  · rw [lorieBufferLock, if_neg (not_not_intro hb)]
    exact show (1 : Int8) ≠ 0 by decide
  · rw [lorieBufferLock, if_pos hb]
    exact hb

/-- A lock leads to the pixels, or fails and leaves the address as it was. -/
theorem lock_lockedData (os : Os) (hb : b.locked = 0) :
    (lorieBufferLock os b).lockedData = b.region ∨
      (lorieBufferLock os b).lockedData = b.lockedData := by
  rw [lorieBufferLock, if_neg (not_not_intro hb), LorieBuffer.region]
  dsimp only
  cases b.desc.type with
  | unknown => exact .inr rfl
  | regular => exact .inl rfl
  | fd => exact .inl rfl
  | ahardwarebuffer =>
    cases b.desc.buffer with
    | none => exact .inr rfl
    | some a =>
      dsimp only
      split
      · exact .inl rfl
      · exact .inr rfl

theorem Whole.lock (h : Whole b) (os : Os) : Whole (lorieBufferLock os b) := by
  refine ⟨fun r hr => ⟨lock_locked os b, ?_⟩, fun htype => ?_⟩
  · rw [lock_region]
    by_cases hb : b.locked = 0
    · rcases lock_lockedData os hb with hdata | hdata
      · rw [← hdata, hr]
      · rw [hdata, h.lockedData_none hb] at hr
        cases hr
    · rw [lorieBufferLock, if_pos hb] at hr
      exact (h.data r hr).2
  · rw [lorieBufferLock_desc] at htype ⊢
    exact h.regular htype

theorem Whole.unlock (h : Whole b) : Whole (lorieBufferUnlock b) := by
  rw [lorieBufferUnlock]
  split
  · exact h
  · exact ⟨fun r hr => absurd hr.symm (Option.some_ne_none r), h.regular⟩

theorem Sound.lock (h : Sound priv) (os : Os) : Sound (priv.lock os) := by
  rw [LoriePixmapPriv.lock]
  split
  · exact h
  next b hb =>
    refine ⟨fun r hr => ⟨_, rfl, hr⟩, fun b' hb' => ?_⟩
    rw [← Option.some_inj.mp hb']
    exact (h.whole b hb).lock os

theorem Sound.unlock (h : Sound priv) : Sound priv.unlock := by
  refine ⟨fun r hr => absurd hr.symm (Option.some_ne_none r), fun b hb => ?_⟩
  obtain ⟨b₀, hb₀, rfl⟩ := Option.map_eq_some_iff.mp hb
  exact (h.whole b₀ hb₀).unlock

/-- Neither `wasLocked` nor `mem` matters to it. -/
theorem Sound.congr {priv' : LoriePixmapPriv} (h : Sound priv)
    (hbuffer : priv'.buffer = priv.buffer) (hlocked : priv'.locked = priv.locked) :
    Sound priv' := by
  refine ⟨fun r hr => ?_, fun b hb => h.whole b (hbuffer ▸ hb)⟩
  rw [hlocked] at hr
  rw [hbuffer]
  exact h.pointer r hr

theorem sound_fresh (hbuffer : ∀ b, priv.buffer = some b → Whole b ∧ b.lockedData = priv.locked)
    (hnone : priv.buffer = none → priv.locked = none) : Sound priv := by
  refine ⟨fun r hr => ?_, fun b hb => (hbuffer b hb).1⟩
  cases hb : priv.buffer with
  | none =>
    rw [hnone hb] at hr
    cases hr
  | some b => exact ⟨b, rfl, (hbuffer b hb).2.trans hr⟩

/-! ### New pixmaps -/

/-- A buffer that was just allocated. -/
theorem allocate_whole {id : UInt64} {width stride height : Int32} {format : UInt8}
    {type : BufferType} {buf : Option AHardwareBuffer} {fd : Option ℕ} {size : ℕ} {offset : ℤ}
    {takeFd : Bool}
    (h : allocate os id width stride height format type buf fd size offset takeFd = some b) :
    Whole b ∧ b.lockedData = none := by
  have htype := allocate_type h
  obtain ⟨hmade, -⟩ := Option.filter_eq_some_iff.mp h
  dsimp only at hmade
  cases type with
  | unknown => contradiction
  | regular =>
    dsimp only at hmade
    split at hmade
    · obtain ⟨block, -, rfl⟩ := Option.map_eq_some_iff.mp hmade
      exact ⟨⟨fun r hr => absurd hr.symm (Option.some_ne_none r), fun _ => ⟨_, _, rfl⟩⟩, rfl⟩
    · contradiction
  | fd =>
    dsimp only at hmade
    split at hmade
    · obtain ⟨file, -, hmap⟩ := Option.bind_eq_some_iff.mp hmade
      obtain ⟨data, -, rfl⟩ := Option.map_eq_some_iff.mp hmap
      exact ⟨⟨fun r hr => absurd hr.symm (Option.some_ne_none r), fun h => by cases h⟩, rfl⟩
    · contradiction
  | ahardwarebuffer =>
    obtain ⟨a, -, hb⟩ := Option.map_eq_some_iff.mp hmade
    have hdata : b.lockedData = none := by
      rw [← hb]
      split
      · rfl
      · rfl
    refine ⟨⟨fun r hr => ?_, fun hregular => ?_⟩, hdata⟩
    · rw [hdata] at hr
      cases hr
    · rw [htype] at hregular
      cases hregular

theorem lorieBufferAllocate_whole {id : UInt64} {width height : Int32} {format : UInt8}
    {type : BufferType} (h : lorieBufferAllocate os id width height format type = some b) :
    Whole b ∧ b.lockedData = none := by
  rw [lorieBufferAllocate.eq_def] at h
  split at h
  · obtain ⟨file, -, h⟩ := Option.bind_eq_some_iff.mp h
    exact allocate_whole h
  · exact allocate_whole h
  · exact allocate_whole h

theorem createPixmap_sound {id : UInt64} {width height depth : ℕ} {backed legacyDrawing : Bool}
    (h : createPixmap os id width height depth backed legacyDrawing = some p) : Sound p.priv := by
  rw [createPixmap] at h
  split at h
  · contradiction
  obtain ⟨⟨priv, pitch⟩, hpriv, rfl⟩ := Option.map_eq_some_iff.mp h
  rw [lorieCreatePixmap] at hpriv
  split at hpriv
  · contradiction
  split at hpriv
  · cases hpriv
    exact sound_fresh (fun b hb => by cases hb) fun _ => rfl
  · obtain ⟨b₀, hb₀, hmade⟩ := Option.map_eq_some_iff.mp hpriv
    cases hmade
    refine sound_fresh (fun b hb => ?_) fun hnone => by cases hnone
    cases hb
    exact ⟨(lorieBufferAllocate_whole hb₀).1.lock os, rfl⟩

theorem loriePixmapFromFds_sound {id : UInt64} {legacyDrawing : Bool} {i : Import}
    (h : loriePixmapFromFds os id legacyDrawing i = some p) : Sound p.priv := by
  rw [loriePixmapFromFds] at h
  split at h
  · contradiction
  split at h
  · contradiction
  obtain ⟨pixmap, hpixmap, h⟩ := Option.bind_eq_some_iff.mp h
  obtain rfl := createPixmap_empty hpixmap
  have himported : ∀ (priv : LoriePixmapPriv) (buffer : LorieBuffer), Whole buffer ∧
      buffer.lockedData = none → priv.buffer = some buffer → priv.locked = none →
      Sound priv := by
    intro priv buffer hbuffer hb hlocked
    refine sound_fresh (fun b hb' => ?_) fun hnone => by rw [hlocked]
    obtain rfl := Option.some_inj.mp (hb.symm.trans hb')
    exact ⟨hbuffer.1, by rw [hlocked, hbuffer.2]⟩
  dsimp only at h
  split at h
  · split at h
    · obtain ⟨buffer, hbuffer, rfl⟩ := Option.map_eq_some_iff.mp h
      exact himported _ buffer (allocate_whole hbuffer) rfl rfl
    · contradiction
  · split at h
    · split at h
      · obtain ⟨buffer, hbuffer, rfl⟩ := Option.map_eq_some_iff.mp h
        exact himported _ buffer (allocate_whole hbuffer) rfl rfl
      · contradiction
    · contradiction

/-! ### Conversions -/

/-- A buffer that moves is not locked on its new storage yet. -/
theorem moved_whole (format : UInt8) (g : Target) : Whole (b.moved format g) := by
  refine ⟨fun r hr => ?_, fun htype => absurd htype (moved_ne_regular g)⟩
  cases g with
  | file file size data => cases hr
  | hardware a => cases hr

theorem block_of_data {block n : ℕ} (hb : priv.buffer = some b)
    (hdata : b.desc.data = some ⟨.heap block, 0, n⟩) : priv.block = some block := by
  rw [LoriePixmapPriv.block, hb, Option.bind_some, hdata]

theorem block_eq_none (hb : priv.buffer = some b)
    (hdata : ∀ r, b.desc.data = some r → ∀ block, r.storage ≠ .heap block) :
    priv.block = none := by
  rw [LoriePixmapPriv.block, hb, Option.bind_some]
  split
  next block o n hsome => exact absurd rfl (hdata _ hsome block)
  · rfl

/-- The new storage is not in the heap. -/
theorem moved_data {type : BufferType} {format : UInt8} {g : Target}
    (h : target os b type format = some g) {r : Region}
    (hr : (b.moved format g).desc.data = some r) (block : ℕ) : r.storage ≠ .heap block := by
  cases g with
  | hardware a => cases hr
  | file file size data =>
    obtain rfl : data = r := Option.some_inj.mp hr
    rw [target.eq_def] at h
    split at h
    · contradiction
    cases type with
    | unknown => contradiction
    | regular => contradiction
    | fd =>
      obtain ⟨file', -, hmap⟩ := Option.bind_eq_some_iff.mp h
      obtain ⟨data', hdata, hfile⟩ := Option.map_eq_some_iff.mp hmap
      cases hfile
      obtain ⟨-, rfl⟩ := Os.mmap_eq_some.mp hdata
      exact Storage.noConfusion
    | ahardwarebuffer =>
      dsimp only at h
      split at h
      · obtain ⟨a, -, ha⟩ := Option.map_eq_some_iff.mp h
        cases ha
      · contradiction

theorem moved_freed {m : Memory} {src : Region} (g : Target) :
    (m.moved os b src g).freed = m.freed := by
  have hblt : ∀ dst srcStride dstStride width height,
      (pixmanBlt os m src dst srcStride dstStride width height).freed = m.freed := by
    intro dst srcStride dstStride width height
    rw [pixmanBlt]
    split
    · rfl
    · rfl
  rw [Memory.moved.eq_def]
  cases g with
  | file file size data => exact hblt _ _ _ _ _
  | hardware a =>
    dsimp only
    split
    · exact hblt _ _ _ _ _
    · rfl

/-- What a conversion does: nothing; or the block of the heap is freed, and the buffer has
none any more. -/
theorem sample_spec (os : Os) (m : Memory) (type : BufferType) (h : Sound p.priv) :
    (lorieEnsureGpuSampleable os m p type).2 = (p, m) ∨
      ∃ block, p.priv.block = some block ∧
        Sound (lorieEnsureGpuSampleable os m p type).2.1.priv ∧
        (lorieEnsureGpuSampleable os m p type).2.1.priv.block = none ∧
        (lorieEnsureGpuSampleable os m p type).2.2.freed = block :: m.freed := by
  cases hb : p.priv.buffer with
  | none =>
    rw [lorieEnsureGpuSampleable, hb]
    exact .inl rfl
  | some b =>
    cases hmem : p.priv.mem with
    | some data =>
      rw [lorieEnsureGpuSampleable, hb, hmem]
      exact .inl rfl
    | none =>
      by_cases htype : b.desc.type = .regular
      · obtain ⟨block, n, hdata⟩ := (h.whole b hb).regular htype
        cases ht : target os b type formatR8G8B8X8 with
        | none =>
          rw [lorieEnsureGpuSampleable_kept hb hmem (.inr ⟨_, hdata, ht⟩)]
          exact .inl rfl
        | some g =>
          rw [lorieEnsureGpuSampleable_moved hb hmem htype hdata ht]
          refine .inr ⟨block, block_of_data hb hdata, ?_, ?_, ?_⟩
          · refine sound_fresh (fun b' hb' => ?_) fun hnone => by cases hnone
            cases hb'
            exact ⟨(moved_whole formatR8G8B8X8 g).lock os, rfl⟩
          · refine block_eq_none rfl fun r hr => ?_
            rw [lorieBufferLock_desc] at hr
            exact moved_data ht hr
          · exact congrArg (block :: ·) (moved_freed g)
      · rw [lorieEnsureGpuSampleable_kept hb hmem (.inl htype)]
        exact .inl rfl

/-! ### The invariant -/

/-- The address of an open access is that of its pixmap. -/
def Opened (s : Server) (a : ℕ × Option Region) : Prop :=
  ∃ p, s.pixmap a.1 = some p ∧ a.2 = (p.priv.locked <|> p.priv.mem)

/-- Each pixmap is sound and has its block of the heap to itself, which is not freed. -/
structure Inv (s : Server) : Prop where
  sound : ∀ k p, s.pixmap k = some p → Sound p.priv
  owned : ∀ k p block, s.pixmap k = some p → p.priv.block = some block →
    block ∈ s.given ∧ block ∉ s.memory.freed
  distinct : ∀ j k p q block, s.pixmap j = some p → s.pixmap k = some q →
    p.priv.block = some block → q.priv.block = some block → j = k
  freed : ∀ block ∈ s.memory.freed, block ∈ s.given
  access : ∀ a ∈ s.access, Opened s a

/-- A pixmap changes, and keeps its block or frees it. -/
theorem Inv.change {p' : Pixmap} (h : Inv s) (hp : s.pixmap k = some p) (hsound : Sound p'.priv)
    (hblock : ∀ block, p'.priv.block = some block → p.priv.block = some block)
    (hpixmap : t.pixmap = Function.update s.pixmap k (some p')) (hgiven : t.given = s.given)
    (hfreed : ∀ block ∈ t.memory.freed, block ∈ s.memory.freed ∨
      p.priv.block = some block ∧ p'.priv.block = none)
    (haccess : ∀ a ∈ t.access, Opened t a) : Inv t := by
  have hk : t.pixmap k = some p' := by rw [hpixmap, Function.update_self]
  have hne : ∀ {j}, j ≠ k → t.pixmap j = s.pixmap j := by
    intro j hj
    rw [hpixmap, Function.update_of_ne hj]
  -- every pixmap comes from one that had its block
  have hfrom : ∀ j q, t.pixmap j = some q → ∃ q₀, s.pixmap j = some q₀ ∧
      ∀ block, q.priv.block = some block → q₀.priv.block = some block := by
    intro j q hq
    by_cases hj : j = k
    · rw [hj, hk, Option.some_inj] at hq
      rw [hj, ← hq]
      exact ⟨p, hp, hblock⟩
    · exact ⟨q, hne hj ▸ hq, fun _ hb => hb⟩
  refine ⟨fun j q hq => ?_, fun j q block hq hb => ?_, fun i j q r block hq hr hbq hbr => ?_,
    fun block hb => ?_, haccess⟩
  · by_cases hj : j = k
    · rw [hj, hk, Option.some_inj] at hq
      rw [← hq]
      exact hsound
    · exact h.sound j q (hne hj ▸ hq)
  · obtain ⟨q₀, hq₀, hfromq⟩ := hfrom j q hq
    obtain ⟨hin, hlive⟩ := h.owned j q₀ block hq₀ (hfromq block hb)
    refine ⟨hgiven ▸ hin, fun hfree => ?_⟩
    rcases hfreed block hfree with hold | ⟨hpb, hnone⟩
    · exact hlive hold
    · obtain rfl := h.distinct j k q₀ p block hq₀ hp (hfromq block hb) hpb
      obtain rfl := Option.some_inj.mp (hk.symm.trans hq)
      rw [hnone] at hb
      cases hb
  · obtain ⟨q₀, hq₀, hfromq⟩ := hfrom i q hq
    obtain ⟨r₀, hr₀, hfromr⟩ := hfrom j r hr
    exact h.distinct i j q₀ r₀ block hq₀ hr₀ (hfromq block hbq) (hfromr block hbr)
  · rw [hgiven]
    rcases hfreed block hb with hold | ⟨hpb, -⟩
    · exact h.freed block hold
    · exact (h.owned k p block hp hpb).1

/-- `priv` changes, and its block does not. -/
theorem Inv.setPriv {priv : LoriePixmapPriv} (h : Inv s) (hp : s.pixmap k = some p)
    (hsound : Sound priv) (hblock : priv.block = p.priv.block) (n : ℕ)
    (haccess : ∀ a ∈ s.access, Opened (s.setPriv k p priv n) a) : Inv (s.setPriv k p priv n) := by
  have hsame : ∀ block, ({ p with priv := priv } : Pixmap).priv.block = some block →
      p.priv.block = some block := by
    intro block hb
    rw [← hblock]
    exact hb
  exact h.change hp hsound hsame rfl rfl (fun _ hb => .inl hb) haccess

theorem lock_block (os : Os) (priv : LoriePixmapPriv) : (priv.lock os).block = priv.block := by
  rw [LoriePixmapPriv.lock]
  split
  · rfl
  next b hb =>
    rw [LoriePixmapPriv.block, LoriePixmapPriv.block, hb, Option.bind_some, Option.bind_some,
      lorieBufferLock_desc]

theorem unlock_desc (b : LorieBuffer) : (lorieBufferUnlock b).desc = b.desc := by
  rw [lorieBufferUnlock]
  split
  · rfl
  · rfl

theorem unlock_block (priv : LoriePixmapPriv) : priv.unlock.block = priv.block := by
  rw [LoriePixmapPriv.block, LoriePixmapPriv.block, LoriePixmapPriv.unlock]
  dsimp only
  cases priv.buffer with
  | none => rfl
  | some b => rw [Option.map_some, Option.bind_some, Option.bind_some, unlock_desc]

theorem Server.Closed.ne (hk : s.Closed k) {a : ℕ × Option Region} (ha : a ∈ s.access) :
    a.1 ≠ k := by
  rintro rfl
  exact hk (List.mem_map_of_mem ha)

/-- Where only one pixmap changes, accesses to others stay as they are. -/
theorem Inv.others (h : Inv s) (hk : s.Closed k)
    (hpixmap : ∀ j, j ≠ k → t.pixmap j = s.pixmap j) : ∀ a ∈ s.access, Opened t a := by
  intro a ha
  obtain ⟨p, hp, hptr⟩ := h.access a ha
  exact ⟨p, (hpixmap a.1 (hk.ne ha)).trans hp, hptr⟩

/-- A pixmap that is not there is not drawn to. -/
theorem Inv.closed (h : Inv s) (hk : s.pixmap k = none) : s.Closed k := by
  intro hopen
  obtain ⟨a, ha, rfl⟩ := List.mem_map.mp hopen
  obtain ⟨p, hp, -⟩ := h.access a ha
  exact Option.some_ne_none p (hp.symm.trans hk)

/-- A pixmap is made, with a block that was not given before. -/
theorem Inv.add (h : Inv s) (hk : s.pixmap k = none) (hsound : Sound p.priv)
    (hadd : s.add k p = some t) : Inv t := by
  have hnew : t.pixmap = Function.update s.pixmap k (some p) ∧ t.memory = s.memory ∧
      t.access = s.access ∧ (∀ block ∈ s.given, block ∈ t.given) ∧
      ∀ block, p.priv.block = some block → block ∈ t.given ∧ block ∉ s.given := by
    rw [Server.add] at hadd
    split at hadd
    next hb =>
      cases hadd
      refine ⟨rfl, rfl, rfl, fun _ hmem => hmem, fun block hblock => ?_⟩
      rw [hb] at hblock
      cases hblock
    next block hb =>
      obtain ⟨hfresh, rfl⟩ := disabled_eq_some.mp hadd
      refine ⟨rfl, rfl, rfl, fun _ hmem => List.mem_cons_of_mem _ hmem, fun block' hblock => ?_⟩
      obtain rfl := Option.some_inj.mp (hb.symm.trans hblock)
      exact ⟨List.mem_cons_self, hfresh⟩
  obtain ⟨hpixmap, hmemory, haccess, hgiven, hfresh⟩ := hnew
  -- a pixmap is the new one, or one there was
  have hcases : ∀ j q, t.pixmap j = some q → j = k ∧ q = p ∨ j ≠ k ∧ s.pixmap j = some q := by
    intro j q hq
    rw [hpixmap] at hq
    by_cases hj : j = k
    · rw [hj, Function.update_self, Option.some_inj] at hq
      exact .inl ⟨hj, hq.symm⟩
    · rw [Function.update_of_ne hj] at hq
      exact .inr ⟨hj, hq⟩
  refine ⟨fun j q hq => ?_, fun j q block hq hb => ?_, fun i j q r block hq hr hbq hbr => ?_,
    fun block hb => ?_, ?_⟩
  · rcases hcases j q hq with ⟨-, rfl⟩ | ⟨-, hq⟩
    · exact hsound
    · exact h.sound j q hq
  · rw [hmemory]
    rcases hcases j q hq with ⟨-, rfl⟩ | ⟨-, hq⟩
    · exact ⟨(hfresh block hb).1, fun hfree => (hfresh block hb).2 (h.freed block hfree)⟩
    · exact (h.owned j q block hq hb).imp_left (hgiven block)
  · rcases hcases i q hq with ⟨hi, rfl⟩ | ⟨-, hq⟩
    · rcases hcases j r hr with ⟨hj, -⟩ | ⟨-, hr⟩
      · exact hi.trans hj.symm
      · exact absurd (h.owned j r block hr hbr).1 (hfresh block hbq).2
    · rcases hcases j r hr with ⟨-, rfl⟩ | ⟨-, hr⟩
      · exact absurd (h.owned i q block hq hbq).1 (hfresh block hbr).2
      · exact h.distinct i j q r block hq hr hbq hbr
  · rw [hmemory] at hb
    exact hgiven block (h.freed block hb)
  · rw [haccess]
    refine h.others (h.closed hk) fun j hj => ?_
    rw [hpixmap, Function.update_of_ne hj]

/-- What `lorieExaDestroyPixmap` frees. -/
theorem destroy_freed (m : Memory) (h : Sound p.priv) {block : ℕ}
    (hb : block ∈ (m.free (p.priv.buffer.bind fun b =>
      if b.desc.type = .regular then b.desc.data else none)).freed) :
    block ∈ m.freed ∨ p.priv.block = some block := by
  cases hbuffer : p.priv.buffer with
  | none =>
    rw [hbuffer] at hb
    exact .inl hb
  | some b =>
    rw [hbuffer, Option.bind_some] at hb
    by_cases htype : b.desc.type = .regular
    · obtain ⟨block', n, hdata⟩ := (h.whole b hbuffer).regular htype
      rw [if_pos htype, hdata] at hb
      rcases List.mem_cons.mp hb with rfl | hb
      · exact .inr (block_of_data hbuffer hdata)
      · exact .inl hb
    · rw [if_neg htype] at hb
      exact .inl hb

/-- A pixmap is destroyed. -/
theorem Inv.destroy (h : Inv s) (hk : s.Closed k) (hp : s.pixmap k = some p) :
    Inv (lorieExaDestroyPixmap s k p) := by
  have hcases : ∀ j q, (lorieExaDestroyPixmap s k p).pixmap j = some q →
      j ≠ k ∧ s.pixmap j = some q := by
    intro j q hq
    by_cases hj : j = k
    · rw [hj] at hq
      exact absurd ((Function.update_self ..).symm.trans hq) (Option.some_ne_none q).symm
    · exact ⟨hj, (Function.update_of_ne hj ..).symm.trans hq⟩
  refine ⟨fun j q hq => h.sound j q (hcases j q hq).2, fun j q block hq hb => ?_,
    fun i j q r block hq hr => h.distinct i j q r block (hcases i q hq).2 (hcases j r hr).2,
    fun block hb => ?_, h.others hk fun j hj => Function.update_of_ne hj ..⟩
  · obtain ⟨hj, hq⟩ := hcases j q hq
    obtain ⟨hin, hlive⟩ := h.owned j q block hq hb
    refine ⟨hin, fun hfree => ?_⟩
    rcases destroy_freed s.memory (h.sound k p hp) hfree with hold | hblock
    · exact hlive hold
    · exact hj (h.distinct j k q p block hq hp hb hblock)
  · rcases destroy_freed s.memory (h.sound k p hp) hb with hold | hblock
    · exact h.freed block hold
    · exact (h.owned k p block hp hblock).1

/-! ### The steps -/

theorem inv_unlockRoot (h : Inv s) (hroot : ∀ old, s.root = some old → s.Closed old) :
    Inv s.unlockRoot := by
  rw [Server.unlockRoot]
  split
  · exact h
  next old hold =>
    split
    · exact h
    next p hp =>
      split
      · have hsound : Sound { p.priv.unlock with wasLocked := false } :=
          (h.sound old p hp).unlock.congr rfl rfl
        exact h.setPriv hp hsound (unlock_block p.priv) _
          (h.others (hroot old hold) fun j hj => Function.update_of_ne hj ..)
      · exact h

theorem unlockRoot_access (s : Server) : s.unlockRoot.access = s.access := by
  rw [Server.unlockRoot]
  split
  · rfl
  · split
    · rfl
    · split
      · rfl
      · rfl

/-- The root window does not matter to it. -/
theorem Inv.setRoot (h : Inv s) (r : Option ℕ) : Inv { s with root := r } :=
  ⟨h.sound, h.owned, h.distinct, h.freed, h.access⟩

/-- Unlocking the old pixmap closes no access. -/
theorem unlockRoot_closed (h : s.Closed k) : s.unlockRoot.Closed k := by
  rw [Server.Closed, unlockRoot_access]
  exact h

theorem inv_setRoot (h : Inv s) (hk : s.Closed k)
    (hroot : ∀ old, s.root = some old → s.Closed old)
    (hs : lorieSetWindowPixmap os s k = some t) : Inv t := by
  have h₁ := inv_unlockRoot h hroot
  have hk₁ := unlockRoot_closed hk
  obtain ⟨p, hp, rfl⟩ := Option.map_eq_some_iff.mp hs
  dsimp only
  split
  · have hsound : Sound { p.priv.lock os with wasLocked := false } :=
      ((h₁.sound k p hp).lock os).congr rfl rfl
    have hset := h₁.setPriv hp hsound (lock_block os p.priv) p.priv.lockComplaint
      (h₁.others hk₁ fun j hj => Function.update_of_ne hj ..)
    exact hset.setRoot _
  · exact h₁.setRoot _

theorem inv_relock (h : Inv s) (hk : s.Closed k) (hp : s.pixmap k = some p)
    (hs : relock os s k p = some t) : Inv t := by
  rw [relock] at hs
  split at hs
  · obtain ⟨-, rfl⟩ := enabled_eq_some.mp hs
    exact h.setPriv hp ((h.sound k p hp).unlock.lock os)
      ((lock_block os p.priv.unlock).trans (unlock_block p.priv)) _
      (h.others hk fun j hj => Function.update_of_ne hj ..)
  · cases hs
    exact h

/-- An access is opened. -/
theorem Inv.open (h : Inv s) (hp : s.pixmap k = some p) (hk : s.Closed k)
    (hsound : Sound priv) (hblock : priv.block = p.priv.block) (n : ℕ) :
    Inv ((s.setPriv k p priv n).open k priv) := by
  have hopened : ∀ a ∈ s.access, Opened (s.setPriv k p priv n) a :=
    h.others hk fun j hj => Function.update_of_ne hj ..
  obtain ⟨hsounds, howned, hdistinct, hfreed, -⟩ := h.setPriv hp hsound hblock n hopened
  refine ⟨hsounds, howned, hdistinct, hfreed, fun a ha => ?_⟩
  rcases List.mem_cons.mp ha with rfl | ha
  · exact ⟨{ p with priv := priv }, Function.update_self .., rfl⟩
  · exact hopened a ha

theorem inv_prepare (h : Inv s) (hp : s.pixmap k = some p) (hk : s.Closed k)
    (hs : loriePrepareAccess os s k p = some t) : Inv t := by
  rw [loriePrepareAccess] at hs
  split at hs
  · obtain ⟨-, rfl⟩ := enabled_eq_some.mp hs
    have hsound : Sound { p.priv.lock os with wasLocked := false } :=
      ((h.sound k p hp).lock os).congr rfl rfl
    exact h.open hp hk hsound (lock_block os p.priv) _
  · cases hs
    have hsound : Sound { p.priv with wasLocked := true } := (h.sound k p hp).congr rfl rfl
    exact h.open hp hk hsound rfl 0

/-- Fewer accesses are open. -/
theorem Inv.close (h : Inv s) {access : List (ℕ × Option Region)}
    (hsub : ∀ a ∈ access, a ∈ s.access) : Inv { s with access := access } :=
  ⟨h.sound, h.owned, h.distinct, h.freed, fun a ha => h.access a (hsub a ha)⟩

theorem inv_finish (h : Inv s) (hp : s.pixmap k = some p) :
    Inv { lorieFinishAccess s k p with access := s.access.filter (·.1 ≠ k) } := by
  rw [lorieFinishAccess]
  split
  · have hclosed : Inv { s with access := s.access.filter (·.1 ≠ k) } :=
      h.close fun a ha => List.mem_of_mem_filter ha
    have hsound : Sound { p.priv.unlock with wasLocked := false } :=
      (h.sound k p hp).unlock.congr rfl rfl
    have hk : Server.Closed { s with access := s.access.filter (·.1 ≠ k) } k := by
      intro hopen
      obtain ⟨a, ha, hak⟩ := List.mem_map.mp hopen
      exact of_decide_eq_true (List.mem_filter.mp ha).2 hak
    exact hclosed.setPriv hp hsound (unlock_block p.priv) p.priv.unlockComplaint
      (hclosed.others hk fun j hj => Function.update_of_ne hj ..)
  · exact h.close fun a ha => List.mem_of_mem_filter ha

theorem closed_root (h : (s.root.all fun old => s.Closed old) = true) {old : ℕ}
    (hold : s.root = some old) : s.Closed old := by
  rw [hold] at h
  exact of_decide_eq_true h

theorem inv_step {a : Action} (h : Inv s) (hs : step s a = some t) : Inv t := by
  cases a with
  | create os id k width height depth backed legacyDrawing =>
    obtain ⟨hk, hs⟩ := Option.ite_none_right_eq_some.mp hs
    obtain ⟨p, hp, hs⟩ := Option.bind_eq_some_iff.mp hs
    exact h.add hk (createPixmap_sound hp) hs
  | fromFds os id k legacyDrawing i =>
    obtain ⟨hk, hs⟩ := Option.ite_none_right_eq_some.mp hs
    obtain ⟨p, hp, hs⟩ := Option.bind_eq_some_iff.mp hs
    exact h.add hk (loriePixmapFromFds_sound hp) hs
  | sample os k type =>
    obtain ⟨hk, hs⟩ := Option.ite_none_right_eq_some.mp hs
    obtain ⟨p, hp, rfl⟩ := Option.map_eq_some_iff.mp hs
    have hspec := sample_spec os s.memory type (h.sound k p hp)
    -- the buffer stays as it was, or it is converted and the old block freed
    generalize lorieEnsureGpuSampleable os s.memory p type = result at hspec ⊢
    obtain ⟨buffer, p', m'⟩ := result
    rcases hspec with hsame | ⟨block, hblock, hsound, hgone, hfreed⟩
    · cases hsame
      exact h.change hp (h.sound k p hp) (fun _ hb => hb) rfl rfl (fun _ hb => .inl hb)
        (h.others hk fun j hj => Function.update_of_ne hj ..)
    · -- after a conversion the pixmap has no block, so no access keeps the freed one
      have hkeeps : ∀ block', p'.priv.block = some block' → p.priv.block = some block' := by
        intro block' hb
        rw [show p'.priv.block = none from hgone] at hb
        cases hb
      refine h.change hp hsound hkeeps rfl rfl (fun block' hb => ?_)
        (h.others hk fun j hj => Function.update_of_ne hj ..)
      have hmem : block' ∈ block :: s.memory.freed := hfreed ▸ hb
      rcases List.mem_cons.mp hmem with rfl | hmem
      · exact .inr ⟨hblock, hgone⟩
      · exact .inl hmem
  | modify k data =>
    obtain ⟨hk, hs⟩ := Option.ite_none_right_eq_some.mp hs
    obtain ⟨p, hp, rfl⟩ := Option.map_eq_some_iff.mp hs
    have hsound : Sound { p.priv with mem := some data } := (h.sound k p hp).congr rfl rfl
    exact h.setPriv hp hsound rfl 0 (h.others hk fun j hj => Function.update_of_ne hj ..)
  | setRoot os k =>
    obtain ⟨⟨hk, hroot⟩, hs⟩ := Option.ite_none_right_eq_some.mp hs
    exact inv_setRoot h hk (fun old => closed_root hroot) hs
  | relock os k =>
    obtain ⟨hk, hs⟩ := Option.ite_none_right_eq_some.mp hs
    obtain ⟨p, hp, hs⟩ := Option.bind_eq_some_iff.mp hs
    exact inv_relock h hk hp hs
  | prepare os k =>
    obtain ⟨hk, hs⟩ := Option.ite_none_right_eq_some.mp hs
    obtain ⟨p, hp, hs⟩ := Option.bind_eq_some_iff.mp hs
    exact inv_prepare h hp hk hs
  | finish k =>
    obtain ⟨-, hs⟩ := Option.ite_none_left_eq_some.mp hs
    obtain ⟨p, hp, rfl⟩ := Option.map_eq_some_iff.mp hs
    exact inv_finish h hp
  | destroy k =>
    obtain ⟨⟨hk, -⟩, hs⟩ := Option.ite_none_right_eq_some.mp hs
    obtain ⟨p, hp, rfl⟩ := Option.map_eq_some_iff.mp hs
    exact h.destroy hk hp

theorem inv_start (m : Memory) (hm : m.freed = []) : Inv { memory := m } := by
  refine ⟨fun k p hp => ?_, fun k p block hp => ?_, fun j k p q block hp => ?_, fun block hb => ?_,
    fun a ha => absurd ha List.not_mem_nil⟩
  · cases hp
  · cases hp
  · cases hp
  · rw [hm] at hb
    exact absurd hb List.not_mem_nil

/-- Where the bytes of a sound pixmap's buffer are, they are not freed. -/
theorem Inv.live (h : Inv s) (hp : s.pixmap k = some p) (hb : p.priv.buffer = some b) {r : Region}
    (hr : b.region = some r) : s.memory.Live r.storage := by
  cases hstorage : r.storage with
  | file f => exact trivial
  | ahardwarebuffer i => exact trivial
  | heap block =>
    have hdata : b.desc.data = some r := by
      rw [LorieBuffer.region] at hr
      split at hr
      · exact hr
      · exact hr
      · obtain ⟨a, -, rfl⟩ := Option.map_eq_some_iff.mp hr
        cases hstorage
      · cases hr
    have hblock : p.priv.block = some block := by
      obtain ⟨storage, offset, length⟩ := r
      obtain rfl : storage = .heap block := hstorage
      rw [LoriePixmapPriv.block, hb, Option.bind_some, hdata]
    exact (h.owned k p block hp hblock).2

/-- In every run the address of an open access is either memory that was lent to the pixmap, or
where the pixels of its own buffer are now, which is locked and not freed. -/
theorem access_live {m : Memory} {as : List Action} (hm : m.freed = [])
    (h : run step { memory := m } as = some s) {r : Region} (hr : (k, some r) ∈ s.access) :
    ∃ p, s.pixmap k = some p ∧ (p.priv.mem = some r ∨
      ∃ b, p.priv.buffer = some b ∧ b.locked ≠ 0 ∧ b.region = some r ∧
        s.memory.Live r.storage) := by
  have hinv : Inv s := run_invariant_of_step (fun s a t hs => inv_step hs) (inv_start m hm) h
  obtain ⟨p, hp, hptr⟩ := hinv.access _ hr
  refine ⟨p, hp, ?_⟩
  cases hlocked : p.priv.locked with
  | none =>
    rw [hlocked] at hptr
    exact .inl hptr.symm
  | some r' =>
    rw [hlocked] at hptr
    obtain rfl : r = r' := Option.some_inj.mp hptr
    obtain ⟨b, hb, hdata⟩ := (hinv.sound k p hp).pointer r hlocked
    obtain ⟨hlock, hregion⟩ := ((hinv.sound k p hp).whole b hb).data r hdata
    exact .inr ⟨b, hb, hlock, hregion, hinv.live hp hb hregion⟩

/-- Memory in which nothing was freed. -/
def cleanMemory : Memory := ⟨fun _ _ => 0, []⟩

/-- `calloc` gives another block. -/
def Os.nextBlock : Os := { Os.granting with calloc := fun _ => some 1 }

/-- A pixmap is made and converted; while it is drawn to another one is made, drawn to and
destroyed. -/
def drawn : List Action :=
  [.create Os.granting 0 1 2 2 24 false false, .sample Os.granting 1 .ahardwarebuffer,
    .prepare Os.granting 1, .create Os.nextBlock 1 2 2 1 1 false false,
    .prepare Os.granting 2, .finish 2, .destroy 2]

theorem drawn_live : ∃ s r, run step { memory := cleanMemory } drawn = some s ∧
    s.memory.freed = [1, 0] ∧ (1, some r) ∈ s.access ∧
    ∃ p, s.pixmap 1 = some p ∧ (p.priv.mem = some r ∨
      ∃ b, p.priv.buffer = some b ∧ b.locked ≠ 0 ∧ b.region = some r ∧
        s.memory.Live r.storage) := by
  have hfinal : (run step { memory := cleanMemory } drawn).map
      (fun s => (s.memory.freed, s.access)) =
        some ([1, 0], [(1, some ⟨.ahardwarebuffer 0, 0, 16⟩)]) := by decide +kernel
  obtain ⟨s, hs, hends⟩ := Option.map_eq_some_iff.mp hfinal
  obtain ⟨hfreed, hopen⟩ := Prod.mk.inj hends
  have hr : (1, some ⟨.ahardwarebuffer 0, 0, 16⟩) ∈ s.access := by
    rw [hopen]
    exact List.mem_singleton_self _
  exact ⟨s, _, hs, hfreed, hr, access_live rfl hs hr⟩

end Lorie.PixmapAccess
