/-
The ring of deferred GPU copies (`lorieTryScheduleGpuCopy` in `InitOutput.c`,
`applyPendingGpuCopiesLocked` and its two callers in `renderer.cpp`).

The server writes an entry field by field and then stores `writeIndex`; the renderer loads
`writeIndex`, copies an entry out, draws it if it finds both its buffers, and stores
`readIndex`.  It drains the ring on its own or as part of a redraw, waits for a fence, and
then stores `completedSerial`.  A step is one access to what they share.

The entries of a drain share a framebuffer.  It is attached to the destination where
`boundDstId` is another number than the destination's; at the start of a drain that is 0,
which is also the number of a buffer.

Serials are counted without end.

* `Entry`, `Entry.get`, `Entry.ofCell` — an entry, and as the integers of a slot;
* `serverStep`, `rendererStep` — the two sides; `step` — both, in any order;
* `RingOk`, `AppliedWhenDone` — what the ring promises, and that what is done was applied;
* `ring_drained_in_order` — the first holds in every run, the second where the renderer finds
  the buffers and attaches the destination.
-/
import KaliGui.Lib.Run
import KaliGui.Lib.RingIndex
import Mathlib.Data.Int.Notation
import Mathlib.Data.List.Basic
import Mathlib.Logic.Function.Basic

namespace Lorie.GpuCopyRing

open Machine RingIndex

/-! ### Entries -/

/-- `LorieGpuCopyRect` -/
structure Rect where
  x1 : ℤ
  y1 : ℤ
  x2 : ℤ
  y2 : ℤ
  deriving DecidableEq, Repr

/-- `LORIE_GPU_COPY_MAX_RECTS` -/
def maxRects : ℕ := 16

/-- `LORIE_GPU_COPY_QUEUE_CAPACITY` -/
def capacity : UInt32 := 8

/-- `LorieGpuCopyEntry`, with the rectangles that count. -/
structure Entry where
  serial : ℕ
  srcBufferId : ℕ
  dstBufferId : ℕ
  xOff : ℤ
  yOff : ℤ
  rects : List Rect
  deriving DecidableEq, Repr

/-- The members of an entry in memory. -/
inductive Field
  | serial
  | srcBufferId
  | dstBufferId
  | xOff
  | yOff
  | numRects
  | x1 (i : ℕ)
  | y1 (i : ℕ)
  | x2 (i : ℕ)
  | y2 (i : ℕ)
  deriving DecidableEq, Repr

/-- What a slot holds. -/
abbrev Cell := Field → ℤ

def Entry.get (e : Entry) : Field → ℤ
  | .serial => e.serial
  | .srcBufferId => e.srcBufferId
  | .dstBufferId => e.dstBufferId
  | .xOff => e.xOff
  | .yOff => e.yOff
  | .numRects => e.rects.length
  | .x1 i => e.rects[i]?.elim 0 Rect.x1
  | .y1 i => e.rects[i]?.elim 0 Rect.y1
  | .x2 i => e.rects[i]?.elim 0 Rect.x2
  | .y2 i => e.rects[i]?.elim 0 Rect.y2

/-- The entry that a slot stands for. -/
def Entry.ofCell (c : Cell) : Entry where
  serial := (c .serial).toNat
  srcBufferId := (c .srcBufferId).toNat
  dstBufferId := (c .dstBufferId).toNat
  xOff := c .xOff
  yOff := c .yOff
  rects := (List.range (c .numRects).toNat).map fun i =>
    ⟨c (.x1 i), c (.y1 i), c (.x2 i), c (.y2 i)⟩

/-- The members of an entry of `n` rectangles. -/
def fields (n : ℕ) : List Field :=
  [Field.serial, .srcBufferId, .dstBufferId, .xOff, .yOff, .numRects] ++
    (List.range n).flatMap fun i => [Field.x1 i, .y1 i, .x2 i, .y2 i]

/-! ### State -/

/-- What `lorieTryScheduleGpuCopy` has found out before it looks at the ring: the buffers and
the boxes. -/
structure Call where
  srcBufferId : ℕ
  dstBufferId : ℕ
  xOff : ℤ
  yOff : ℤ
  box : List Rect
  deriving DecidableEq, Repr

/-- Where the server is in `lorieTryScheduleGpuCopy`. -/
inductive ServerPc
  | idle
  | loadWriteIndex (c : Call)
  | loadReadIndex (c : Call) (writeIndex : UInt32)
  | test (c : Call) (writeIndex readIndex : UInt32)
  /-- the members still to be stored, and then `writeIndex` -/
  | store (e : Entry) (writeIndex : UInt32) (todo : List Field)
  deriving DecidableEq, Repr

/-- From where the renderer drains the ring. -/
inductive Route
  /-- `applyPendingGpuCopies` in `threadLoop` -/
  | alone
  /-- `applyPendingGpuCopies` at the start of `redrawLocked` -/
  | first
  /-- with the draw of `redrawLocked` -/
  | redraw
  deriving DecidableEq, Repr

/-- Where the renderer is; `last` is `lastSerial`. -/
inductive RendererPc
  | idle
  /-- before the test in `redrawLocked` -/
  | redrawTest
  /-- in `redrawLocked` after it -/
  | redrawBody
  /-- before the test in `applyPendingGpuCopies` -/
  | test (r : Route)
  /-- before the test in `applyPendingGpuCopiesLocked` -/
  | lockedTest (r : Route)
  /-- before the test of its loop -/
  | loop (r : Route) (last : ℕ)
  | copy (r : Route) (last : ℕ) (entry : Cell) (todo : List Field)
  | draw (r : Route) (entry : Entry)
  /-- before `readIndex++` -/
  | advance (r : Route) (entry : Entry)
  | fence (r : Route) (last : ℕ)
  | publish (r : Route) (last : ℕ)

/-- What outlasts a drain. -/
structure Gl where
  /-- the buffer attached to `gpuCopyFbo` -/
  attached : Option ℕ := none
  /-- the buffer that the viewport is as large as; none for the window's viewport -/
  viewport : Option ℕ := none
  deriving DecidableEq, Repr

/-- What `applyPendingGpuCopiesLocked` keeps from entry to entry. -/
structure Drain where
  fboSetUp : Bool := false
  prevViewport : Option ℕ := none
  boundDstId : ℕ := 0
  deriving DecidableEq, Repr

def Drain.setUp (d : Drain) (gl : Gl) : Drain :=
  if d.fboSetUp then d else { d with fboSetUp := true, prevViewport := gl.viewport }

/-- `boundDstId != entry.dstBufferId`: the destination is attached. -/
def Drain.attach (d : Drain) (gl : Gl) (dstBufferId : ℕ) : Drain × Gl :=
  if d.boundDstId ≠ dstBufferId then
    ({ d with boundDstId := dstBufferId }, ⟨some dstBufferId, some dstBufferId⟩)
  else (d, gl)

/-- The end of the drain. -/
def Drain.restore (d : Drain) (gl : Gl) : Gl :=
  if d.fboSetUp then { gl with viewport := d.prevViewport } else gl

/-- An entry taken off the ring. -/
structure Drained where
  entry : Entry
  /-- the framebuffer that its boxes were drawn into, none if they were not drawn -/
  into : Option Gl
  deriving DecidableEq, Repr

/-- The boxes were drawn into the destination, on all of it. -/
def Drained.Applied (d : Drained) : Prop :=
  d.into = some ⟨some d.entry.dstBufferId, some d.entry.dstBufferId⟩

instance (d : Drained) : Decidable d.Applied := inferInstanceAs (Decidable (_ = _))

structure State where
  writeIndex : UInt32 := 0
  readIndex : UInt32 := 0
  completedSerial : ℕ := 0
  entries : ℕ → Cell := fun _ _ => 0
  gpuCopySerialCounter : ℕ := 0
  server : ServerPc := .idle
  renderer : RendererPc := .idle
  gl : Gl := {}
  drain : Drain := {}
  /-- the entries published -/
  scheduled : List Entry := []
  /-- the entries copied out, and drawn or not -/
  drained : List Drained := []
  /-- of how many of these the GPU is known to be done -/
  fenced : ℕ := 0

/-- `lorieGpuCopyIsDone` -/
def lorieGpuCopyIsDone (s : State) (serial : ℕ) : Prop := serial ≤ s.completedSerial

instance (s : State) (serial : ℕ) : Decidable (lorieGpuCopyIsDone s serial) :=
  inferInstanceAs (Decidable (_ ≤ _))

/-! ### The server -/

def State.storeField (s : State) (i : ℕ) (f : Field) (v : ℤ) : State :=
  { s with entries := Function.update s.entries i (Function.update (s.entries i) f v) }

def serverStep (s : State) : Option State :=
  match s.server with
  | .idle => none
  | .loadWriteIndex c => some { s with server := .loadReadIndex c s.writeIndex }
  | .loadReadIndex c writeIndex => some { s with server := .test c writeIndex s.readIndex }
  | .test c writeIndex readIndex =>
    if capacity ≤ writeIndex - readIndex then some { s with server := .idle }
    else
      let serial := s.gpuCopySerialCounter + 1
      let e : Entry := ⟨serial, c.srcBufferId, c.dstBufferId, c.xOff, c.yOff, c.box⟩
      some { s with
        gpuCopySerialCounter := serial
        server := .store e writeIndex (fields c.box.length) }
  | .store e writeIndex (f :: todo) =>
    some { s.storeField (slot capacity writeIndex) f (e.get f) with
      server := .store e writeIndex todo }
  | .store e writeIndex [] =>
    some { s with
      writeIndex := writeIndex + 1
      server := .idle
      scheduled := s.scheduled ++ [e] }

/-! ### The renderer -/

/-- What the renderer finds in a step. -/
structure Env where
  /-- `threadLoop` redraws -/
  redraws : Bool := false
  /-- `redrawLocked` returns early -/
  returns : Bool := false
  /-- `findBufferWithRetry` finds the buffers -/
  src : Bool := false
  dst : Bool := false
  deriving DecidableEq, Repr

/-- After `applyPendingGpuCopies`, or the end of `redrawLocked`. -/
def Route.return : Route → RendererPc
  | .alone => .idle
  | .first => .redrawBody
  | .redraw => .idle

/-- After `applyPendingGpuCopiesLocked`: a redraw waits for a fence in any case. -/
def Route.drained (r : Route) (last : ℕ) : RendererPc :=
  if r ≠ .redraw ∧ last = 0 then r.return else .fence r last

def rendererStep (s : State) (env : Env) : Option State :=
  match s.renderer with
  | .idle => some { s with renderer := if env.redraws then .redrawTest else .test .alone }
  | .redrawTest =>
    some { s with renderer := if s.readIndex ≠ s.writeIndex then .test .first else .redrawBody }
  | .redrawBody => some { s with renderer := if env.returns then .idle else .lockedTest .redraw }
  | .test r =>
    some { s with renderer := if s.readIndex = s.writeIndex then r.return else .lockedTest r }
  | .lockedTest r =>
    some { s with
      drain := {}
      renderer := if s.readIndex = s.writeIndex then r.drained 0 else .loop r 0 }
  | .loop r last =>
    if s.readIndex = s.writeIndex then
      some { s with gl := s.drain.restore s.gl, drain := {}, renderer := r.drained last }
    else some { s with renderer := .copy r last (fun _ => 0) (fields maxRects) }
  | .copy r last entry (f :: todo) =>
    some { s with
      renderer := .copy r last
        (Function.update entry f (s.entries (slot capacity s.readIndex) f)) todo }
  | .copy r _ entry [] => some { s with renderer := .draw r (.ofCell entry) }
  | .draw r entry =>
    if env.src && env.dst then
      let (drain, gl) := (s.drain.setUp s.gl).attach s.gl entry.dstBufferId
      some { s with
        drain, gl
        drained := s.drained ++ [⟨entry, some gl⟩]
        renderer := .advance r entry }
    else some { s with drained := s.drained ++ [⟨entry, none⟩], renderer := .advance r entry }
  | .advance r entry =>
    some { s with readIndex := s.readIndex + 1, renderer := .loop r entry.serial }
  | .fence r last => some { s with fenced := s.drained.length, renderer := .publish r last }
  | .publish r last =>
    some { s with
      completedSerial := if last = 0 then s.completedSerial else last
      renderer := r.return }

/-! ### Runs -/

inductive Act
  /-- `lorieTryScheduleGpuCopy` is called, and the copy is one for the GPU -/
  | schedule (c : Call)
  | server
  | renderer (env : Env)
  deriving DecidableEq, Repr

def step (s : State) : Act → Option State
  | .schedule c =>
    if s.server = .idle then
      if c.box.length = 0 ∨ maxRects < c.box.length then some s
      else some { s with server := .loadWriteIndex c }
    else none
  | .server => serverStep s
  | .renderer env => rendererStep s env

/-! ### What the ring promises -/

/-- The serial of the last entry that was drained and fenced. -/
def State.lastFenced (s : State) : ℕ :=
  ((s.drained.take s.fenced).getLast?.map fun d => d.entry.serial).getD 0

structure RingOk (s : State) : Prop where
  bounds : (s.writeIndex - s.readIndex).toNat ≤ capacity.toNat
  serials : ∀ i e, s.scheduled[i]? = some e → e.serial = i + 1
  /-- what the renderer has seen is what was scheduled, from the first entry on -/
  in_order : s.drained.map Drained.entry <+: s.scheduled
  /-- what it has not yet copied out is still there -/
  kept : ∀ i e, s.drained.length ≤ i → s.scheduled[i]? = some e →
    Entry.ofCell (s.entries (i % capacity.toNat)) = e
  completed : s.completedSerial ≤ s.lastFenced
  /-- an entry reported done was drained, and the GPU is done with it -/
  done : ∀ e ∈ s.scheduled, lorieGpuCopyIsDone s e.serial →
    ∃ d ∈ s.drained.take s.fenced, d.entry = e

/-- An entry reported done was applied. -/
def AppliedWhenDone (s : State) : Prop :=
  ∀ e ∈ s.scheduled, lorieGpuCopyIsDone s e.serial →
    ∃ d ∈ s.drained.take s.fenced, d.entry = e ∧ d.Applied

/-- Drawn next, an entry for the buffer goes to it: its number is not the 0 that a drain begins
with, or another buffer is attached in the drain, or this one has been after another. -/
def State.Attaches (s : State) (dstBufferId : ℕ) : Prop :=
  dstBufferId ≠ 0 ∨ s.drain.boundDstId ≠ 0 ∨ s.gl = ⟨some 0, some 0⟩

instance (s : State) (dstBufferId : ℕ) : Decidable (s.Attaches dstBufferId) :=
  inferInstanceAs (Decidable (_ ∨ _))

/-- The renderer finds both buffers of an entry, and attaches the destination. -/
def Applies (s : State) (a : Act) : Prop :=
  match a, s.renderer with
  | .renderer env, .draw _ entry => (env.src ∧ env.dst) ∧ s.Attaches entry.dstBufferId
  | _, _ => True

instance (s : State) (a : Act) : Decidable (Applies s a) := by
  rw [Applies.eq_def]
  split <;> infer_instance

/-! ### Entries in memory -/

theorem fields_subset {n m : ℕ} (h : n ≤ m) : fields n ⊆ fields m := by
  intro f hf
  rcases List.mem_append.mp hf with hf | hf
  · exact List.mem_append_left _ hf
  · obtain ⟨i, hi, hf⟩ := List.mem_flatMap.mp hf
    refine List.mem_append_right _ (List.mem_flatMap.mpr ⟨i, ?_, hf⟩)
    rw [List.mem_range] at hi ⊢
    omega

/-- The slot holds the entry. -/
def Holds (c : Cell) (e : Entry) : Prop := ∀ f ∈ fields e.rects.length, c f = e.get f

theorem Entry.ofCell_of_holds {c : Cell} {e : Entry} (h : Holds c e) : Entry.ofCell c = e := by
  have hhead : ∀ f ∈ [Field.serial, .srcBufferId, .dstBufferId, .xOff, .yOff, .numRects],
      c f = e.get f := fun f hf => h f (List.mem_append_left _ hf)
  have hrect : ∀ i < e.rects.length, ∀ f ∈ [Field.x1 i, .y1 i, .x2 i, .y2 i], c f = e.get f :=
    fun i hi f hf => h f (List.mem_append_right _
      (List.mem_flatMap.mpr ⟨i, List.mem_range.mpr hi, hf⟩))
  have hserial := hhead .serial (by decide)
  have hsrc := hhead .srcBufferId (by decide)
  have hdst := hhead .dstBufferId (by decide)
  have hnum := hhead .numRects (by decide)
  have hrects : ((List.range (c .numRects).toNat).map fun i =>
      (⟨c (.x1 i), c (.y1 i), c (.x2 i), c (.y2 i)⟩ : Rect)) = e.rects := by
    rw [hnum]
    refine List.ext_getElem (by simp [Entry.get]) fun i hi hi' => ?_
    have hget : e.rects[i]? = some e.rects[i] := List.getElem?_eq_getElem hi'
    simp only [List.getElem_map, List.getElem_range]
    rw [hrect i hi' (.x1 i) (by simp), hrect i hi' (.y1 i) (by simp),
      hrect i hi' (.x2 i) (by simp), hrect i hi' (.y2 i) (by simp)]
    simp only [Entry.get, hget, Option.elim_some]
  rw [ofCell, hserial, hsrc, hdst, hrects, hhead .xOff (by decide), hhead .yOff (by decide)]
  rfl

/-- A copy of the members of an entry is as good as the slot. -/
theorem Holds.copy {c c' : Cell} {e : Entry} (h : Holds c e) (hlen : e.rects.length ≤ maxRects)
    (hcopy : ∀ f ∈ fields maxRects, c' f = c f) : Holds c' e := by
  intro f hf
  rw [hcopy f (fields_subset hlen hf)]
  exact h f hf

/-! ### The invariant -/

/-- How many entries the renderer is done with: in `advance` it still holds one slot. -/
def State.readCount (s : State) : ℕ :=
  match s.renderer with
  | .advance _ _ => s.drained.length - 1
  | _ => s.drained.length

theorem State.readCount_le (s : State) : s.readCount ≤ s.drained.length := by
  rw [readCount]
  split <;> omega

/-- What holds where the server is. -/
def State.ServerOk (s : State) : Prop :=
  match s.server with
  | .idle => s.gpuCopySerialCounter = s.scheduled.length
  | .loadWriteIndex c => s.gpuCopySerialCounter = s.scheduled.length ∧ c.box.length ≤ maxRects
  | .loadReadIndex c w => (s.gpuCopySerialCounter = s.scheduled.length ∧
      c.box.length ≤ maxRects) ∧ w = s.writeIndex
  | .test c w r => (s.gpuCopySerialCounter = s.scheduled.length ∧ c.box.length ≤ maxRects) ∧
      w = s.writeIndex ∧ ∃ n ≤ s.readCount, r = UInt32.ofNat n ∧ s.scheduled.length ≤ n + 8
  | .store e w todo => (s.gpuCopySerialCounter = s.scheduled.length + 1 ∧
      e.rects.length ≤ maxRects) ∧ w = s.writeIndex ∧ e.serial = s.scheduled.length + 1 ∧
      s.scheduled.length < s.readCount + 8 ∧ ∀ f ∈ fields e.rects.length, f ∉ todo →
        s.entries (s.scheduled.length % 8) f = e.get f

/-- What holds where the renderer is. -/
def State.RendererOk (s : State) : Prop :=
  match s.renderer with
  | .loop _ last => last = 0 ∨ last = s.drained.length
  | .copy _ last cell todo => (last = 0 ∨ last = s.drained.length) ∧
      s.drained.length < s.scheduled.length ∧ ∀ f ∈ fields maxRects, f ∉ todo →
        cell f = s.entries (s.drained.length % 8) f
  | .draw _ e => s.scheduled[s.drained.length]? = some e
  | .advance _ e => 0 < s.drained.length ∧ e.serial = s.drained.length
  | .fence _ last => last = 0 ∨ last = s.drained.length
  | .publish _ last => s.fenced = s.drained.length ∧ (last = 0 ∨ last = s.drained.length)
  | _ => True

structure Inv (s : State) : Prop where
  write : s.writeIndex = UInt32.ofNat s.scheduled.length
  read : s.readIndex = UInt32.ofNat s.readCount
  le : s.drained.length ≤ s.scheduled.length
  full : s.scheduled.length ≤ s.readCount + 8
  drained : s.drained.map Drained.entry = s.scheduled.take s.drained.length
  entries : ∀ i e, s.scheduled[i]? = some e → e.serial = i + 1 ∧ e.rects.length ≤ maxRects
  slots : ∀ i e, s.drained.length ≤ i → s.scheduled[i]? = some e → Holds (s.entries (i % 8)) e
  fenced : s.fenced ≤ s.drained.length
  completed : s.completedSerial ≤ s.fenced
  server : s.ServerOk
  renderer : s.RendererOk

/-- The test for an empty ring. -/
theorem Inv.empty_iff {s : State} (h : Inv s) :
    s.readIndex = s.writeIndex ↔ s.readCount = s.scheduled.length := by
  have hle := s.readCount_le
  have hdrained := h.le
  have hfull := h.full
  rw [h.read, h.write]
  exact ofNat_eq_ofNat_iff (by omega) (by omega)

/-- The drained entry with a serial. -/
theorem Inv.drained_get {s : State} (h : Inv s) {i : ℕ} {d : Drained}
    (hd : s.drained[i]? = some d) : s.scheduled[i]? = some d.entry := by
  have hlt : i < s.drained.length := (List.getElem?_eq_some_iff.mp hd).1
  have hmap : (s.drained.map Drained.entry)[i]? = some d.entry := by
    rw [List.getElem?_map, hd]
    rfl
  rw [h.drained, List.getElem?_take_of_lt hlt] at hmap
  exact hmap

/-- The last entry drained and fenced is the last of as many. -/
theorem Inv.lastFenced {s : State} (h : Inv s) : s.lastFenced = s.fenced := by
  rw [State.lastFenced, List.getLast?_take]
  have hfenced := h.fenced
  split
  next hzero => rw [hzero]; rfl
  next hne =>
    obtain ⟨d, hd⟩ : ∃ d, s.drained[s.fenced - 1]? = some d :=
      ⟨_, List.getElem?_eq_getElem (by omega)⟩
    have hserial := (h.entries _ _ (h.drained_get hd)).1
    rw [hd]
    show d.entry.serial = s.fenced
    omega

theorem Inv.ringOk {s : State} (h : Inv s) : RingOk s where
  bounds := by
    have hle := s.readCount_le
    have hdrained := h.le
    have hfull := h.full
    rw [h.read, h.write, toNat_sub_ofNat (by omega) (by omega)]
    show s.scheduled.length - s.readCount ≤ 8
    omega
  serials i e he := (h.entries i e he).1
  in_order := by
    rw [h.drained]
    exact List.take_prefix _ _
  kept i e hi he := Entry.ofCell_of_holds (h.slots i e hi he)
  completed := by
    rw [h.lastFenced]
    exact h.completed
  done e he hdone := by
    obtain ⟨i, hi⟩ := List.mem_iff_getElem?.mp he
    have hserial := (h.entries i e hi).1
    have hcompleted := h.completed
    have hfenced := h.fenced
    rw [lorieGpuCopyIsDone] at hdone
    obtain ⟨d, hd⟩ : ∃ d, s.drained[i]? = some d := ⟨_, List.getElem?_eq_getElem (by omega)⟩
    refine ⟨d, ?_, ?_⟩
    · refine List.mem_iff_getElem?.mpr ⟨i, ?_⟩
      rw [List.getElem?_take_of_lt (by omega)]
      exact hd
    · exact Option.some_inj.mp ((h.drained_get hd).symm.trans hi)

theorem Inv.init : Inv {} where
  write := rfl
  read := rfl
  le := Nat.le_refl 0
  full := Nat.zero_le 8
  drained := rfl
  entries i e he := by cases he
  slots i e _ he := by cases he
  fenced := Nat.le_refl 0
  completed := Nat.le_refl 0
  server := rfl
  renderer := trivial

/-! ### The server's steps -/

section

variable {s s' : State}

/-- A step of the server that stores nothing. -/
theorem Inv.server_move (h : Inv s) {p : ServerPc} {serial : ℕ}
    (hok : State.ServerOk { s with server := p, gpuCopySerialCounter := serial }) :
    Inv { s with server := p, gpuCopySerialCounter := serial } :=
  { h with server := hok, renderer := h.renderer }

/-- What a store in a slot leaves. -/
theorem State.storeField_ne (s : State) {i j : ℕ} (hij : j ≠ i) (f : Field) (v : ℤ) :
    (s.storeField i f v).entries j = s.entries j := Function.update_of_ne hij _ _

theorem State.storeField_same (s : State) (i : ℕ) (f : Field) (v : ℤ) :
    (s.storeField i f v).entries i = Function.update (s.entries i) f v :=
  Function.update_self ..

/-- The slot being written is none that the renderer has still to read. -/
theorem State.slot_free (s : State) (hroom : s.scheduled.length < s.readCount + 8) {i : ℕ}
    (hi : s.drained.length ≤ i) (hlt : i < s.scheduled.length) :
    i % 8 ≠ s.scheduled.length % 8 := by
  have hle := s.readCount_le
  exact slot_ne (by omega) (by omega) (by omega)

/-- A member is stored. -/
theorem Inv.server_store (h : Inv s) {e : Entry} {w : UInt32} {f : Field} {todo : List Field}
    (hpc : s.server = .store e w (f :: todo)) :
    Inv { s.storeField (s.scheduled.length % 8) f (e.get f) with server := .store e w todo } := by
  have hserver := h.server
  simp only [State.ServerOk, hpc] at hserver
  obtain ⟨hcounter, hw, hserial, hroom, hstored⟩ := hserver
  refine { h with slots := fun i e' hi he' => ?_, server := ?_, renderer := ?_ }
  · -- there is room, so the slot that is written is none of a scheduled entry
    have hlt : i < s.scheduled.length := (List.getElem?_eq_some_iff.mp he').1
    have hsame := s.storeField_ne (s.slot_free hroom hi hlt) f (e.get f)
    show Holds ((s.storeField _ f (e.get f)).entries (i % 8)) e'
    rw [hsame]
    exact h.slots i e' hi he'
  · refine ⟨hcounter, hw, hserial, hroom, fun g hg hnot => ?_⟩
    show (s.storeField (s.scheduled.length % 8) f (e.get f)).entries (s.scheduled.length % 8) g =
      e.get g
    rw [s.storeField_same]
    by_cases hgf : g = f
    · rw [hgf, Function.update_self]
    · rw [Function.update_of_ne hgf]
      exact hstored g hg (by rw [List.mem_cons, not_or]; exact ⟨hgf, hnot⟩)
  · have hrenderer := h.renderer
    cases hr : s.renderer with
    | copy r last cell todo' =>
      -- nor the one the renderer copies out of
      simp only [State.RendererOk, hr] at hrenderer
      obtain ⟨hlast, hlt, hcopied⟩ := hrenderer
      simp only [State.RendererOk, State.storeField, hr]
      refine ⟨hlast, hlt, fun g hg hnot => ?_⟩
      have hsame := s.storeField_ne (s.slot_free hroom (Nat.le_refl _) hlt) f (e.get f)
      exact (hcopied g hg hnot).trans (congrFun hsame.symm g)
    | _ =>
      simp only [State.RendererOk, State.storeField, hr] at hrenderer ⊢
      try exact hrenderer

/-- The entry is published. -/
theorem Inv.server_publish (h : Inv s) {e : Entry} {w : UInt32}
    (hpc : s.server = .store e w []) :
    Inv { s with writeIndex := w + 1, server := .idle, scheduled := s.scheduled ++ [e] } := by
  have hserver := h.server
  simp only [State.ServerOk, hpc] at hserver
  obtain ⟨⟨hcounter, hrects⟩, hw, hserial, hroom, hstored⟩ := hserver
  have hle := h.le
  have hlen : (s.scheduled ++ [e]).length = s.scheduled.length + 1 := by simp
  -- an entry that is scheduled is an old one, or the new one
  have hget : ∀ i e', (s.scheduled ++ [e])[i]? = some e' →
      s.scheduled[i]? = some e' ∨ i = s.scheduled.length ∧ e' = e := by
    intro i e' he'
    rcases Nat.lt_or_ge i s.scheduled.length with hlt | hge
    · rw [List.getElem?_append_left hlt] at he'
      exact .inl he'
    · rw [List.getElem?_append_right hge, List.getElem?_singleton] at he'
      split at he'
      · exact .inr ⟨by omega, (Option.some_inj.mp he').symm⟩
      · cases he'
  refine { write := ?_, read := h.read, le := ?_, full := ?_, drained := ?_,
           entries := fun i e' he' => ?_, slots := fun i e' hi he' => ?_,
           fenced := h.fenced, completed := h.completed, server := ?_, renderer := ?_ }
  · show w + 1 = UInt32.ofNat (s.scheduled ++ [e]).length
    rw [hlen, hw, h.write, ofNat_succ]
  · show s.drained.length ≤ (s.scheduled ++ [e]).length
    omega
  · show (s.scheduled ++ [e]).length ≤ s.readCount + 8
    omega
  · show s.drained.map Drained.entry = (s.scheduled ++ [e]).take s.drained.length
    rw [List.take_append_of_le_length hle]
    exact h.drained
  · rcases hget i e' he' with he' | ⟨rfl, rfl⟩
    · exact h.entries i e' he'
    · exact ⟨hserial, hrects⟩
  · -- the new slot has been written, each field
    rcases hget i e' he' with he' | ⟨rfl, rfl⟩
    · exact h.slots i e' hi he'
    · exact fun f hf => hstored f hf List.not_mem_nil
  · show s.gpuCopySerialCounter = (s.scheduled ++ [e]).length
    omega
  · have hrenderer := h.renderer
    cases hr : s.renderer with
    | copy r last cell todo =>
      simp only [State.RendererOk, hr] at hrenderer ⊢
      exact ⟨hrenderer.1, by omega, hrenderer.2.2⟩
    | draw r e' =>
      simp only [State.RendererOk, hr] at hrenderer ⊢
      have hlt : s.drained.length < s.scheduled.length :=
        (List.getElem?_eq_some_iff.mp hrenderer).1
      rw [List.getElem?_append_left hlt]
      exact hrenderer
    | _ =>
      simp only [State.RendererOk, hr] at hrenderer ⊢
      try exact hrenderer

theorem Inv.server_step (h : Inv s) (hstep : serverStep s = some s') : Inv s' := by
  have hserver := h.server
  cases hpc : s.server with
  | idle =>
    simp only [serverStep, hpc] at hstep
    cases hstep
  | loadWriteIndex c =>
    simp only [serverStep, hpc, Option.some_inj] at hstep
    simp only [State.ServerOk, hpc] at hserver
    subst hstep
    exact h.server_move (p := .loadReadIndex c s.writeIndex) ⟨hserver, rfl⟩
  | loadReadIndex c w =>
    simp only [serverStep, hpc, Option.some_inj] at hstep
    simp only [State.ServerOk, hpc] at hserver
    subst hstep
    exact h.server_move (p := .test c w s.readIndex)
      ⟨hserver.1, hserver.2, s.readCount, Nat.le_refl _, h.read, h.full⟩
  | test c w r =>
    simp only [serverStep, hpc] at hstep
    simp only [State.ServerOk, hpc] at hserver
    obtain ⟨⟨hcounter, hrects⟩, hw, n, hn, hr, hfull⟩ := hserver
    split at hstep
    · cases hstep
      exact h.server_move (p := .idle) hcounter
    next hroom =>
      cases hstep
      -- `readIndex` may have been loaded long ago, but it only grows
      have hle := s.readCount_le
      have hdrained := h.le
      have hlt : s.scheduled.length < n + 8 := by
        rw [hw, hr, h.write, UInt32.le_iff_toNat_le, toNat_sub_ofNat (by omega) (by omega)] at hroom
        have hcapacity : capacity.toNat = 8 := rfl
        omega
      have hfree : s.scheduled.length < s.readCount + 8 := by omega
      refine h.server_move (p := .store _ w (fields c.box.length))
        ⟨⟨by rw [hcounter], hrects⟩, hw, by rw [hcounter], hfree, fun f hf hnot => ?_⟩
      exact absurd hf hnot
  | store e w todo =>
    cases todo with
    | nil =>
      simp only [serverStep, hpc, Option.some_inj] at hstep
      subst hstep
      exact h.server_publish hpc
    | cons f todo =>
      simp only [serverStep, hpc, Option.some_inj] at hstep
      simp only [State.ServerOk, hpc] at hserver
      subst hstep
      rw [hserver.2.1, h.write, slot_ofNat (by decide)]
      have hstore := h.server_store hpc
      rw [hserver.2.1, h.write] at hstore
      exact hstore

/-! ### The renderer's steps -/

/-- What the server knows of the renderer only grows. -/
theorem State.ServerOk.mono (h : s.ServerOk) (hserver : s'.server = s.server)
    (hcounter : s'.gpuCopySerialCounter = s.gpuCopySerialCounter)
    (hscheduled : s'.scheduled = s.scheduled) (hwrite : s'.writeIndex = s.writeIndex)
    (hentries : s'.entries = s.entries) (hcount : s.readCount ≤ s'.readCount) : s'.ServerOk := by
  rw [ServerOk] at h ⊢
  rw [hserver, hcounter, hscheduled, hwrite, hentries]
  cases hpc : s.server with
  | test c w r =>
    rw [hpc] at h
    obtain ⟨hrects, hw, n, hn, hr, hfull⟩ := h
    exact ⟨hrects, hw, n, Nat.le_trans hn hcount, hr, hfull⟩
  | store e w todo =>
    rw [hpc] at h
    obtain ⟨hrects, hw, hserial, hroom, hstored⟩ := h
    exact ⟨hrects, hw, hserial, by omega, hstored⟩
  | _ =>
    rw [hpc] at h
    exact h

/-- A step of the renderer that stores nothing. -/
theorem Inv.renderer_move (h : Inv s) {p : RendererPc} {gl : Gl} {drain : Drain}
    (hcount : State.readCount { s with renderer := p, gl, drain } = s.readCount)
    (hok : State.RendererOk { s with renderer := p, gl, drain }) :
    Inv { s with renderer := p, gl, drain } where
  write := h.write
  read := by rw [hcount]; exact h.read
  le := h.le
  full := by rw [hcount]; exact h.full
  drained := h.drained
  entries := h.entries
  slots := h.slots
  fenced := h.fenced
  completed := h.completed
  server := h.server.mono rfl rfl rfl rfl rfl (Nat.le_of_eq hcount.symm)
  renderer := hok

/-- Where the renderer goes when the ring is drained. -/
theorem Inv.renderer_drained (h : Inv s) {r : Route} {last : ℕ} {gl : Gl} {drain : Drain}
    (hcount : s.readCount = s.drained.length) (hlast : last = 0 ∨ last = s.drained.length) :
    Inv { s with renderer := r.drained last, gl, drain } := by
  rw [Route.drained]
  split
  · cases r with
    | alone => exact h.renderer_move hcount.symm trivial
    | first => exact h.renderer_move hcount.symm trivial
    | redraw => exact h.renderer_move hcount.symm trivial
  · exact h.renderer_move hcount.symm hlast

/-- An entry is drawn, or not. -/
theorem Inv.renderer_draw (h : Inv s) {r : Route} {d : Drained} {gl : Gl} {drain : Drain}
    (hpc : s.renderer = .draw r d.entry) :
    Inv { s with drained := s.drained ++ [d], renderer := .advance r d.entry, gl, drain } := by
  have hrenderer := h.renderer
  simp only [State.RendererOk, hpc] at hrenderer
  have hcount : s.readCount = s.drained.length := by simp only [State.readCount, hpc]
  have hlt : s.drained.length < s.scheduled.length := (List.getElem?_eq_some_iff.mp hrenderer).1
  have hlen : (s.drained ++ [d]).length = s.drained.length + 1 := by simp
  have hcount' : State.readCount { s with
      drained := s.drained ++ [d], renderer := .advance r d.entry, gl, drain } = s.readCount := by
    show (s.drained ++ [d]).length - 1 = s.readCount
    omega
  refine { write := h.write, read := ?_, le := ?_, full := ?_, drained := ?_,
           entries := h.entries, slots := fun i e' hi he' => ?_,
           fenced := ?_, completed := h.completed, server := ?_, renderer := ⟨?_, ?_⟩ }
  · rw [hcount']
    exact h.read
  · show (s.drained ++ [d]).length ≤ s.scheduled.length
    omega
  · rw [hcount']
    exact h.full
  · show (s.drained ++ [d]).map Drained.entry = s.scheduled.take (s.drained ++ [d]).length
    rw [hlen, List.map_append, h.drained, List.take_add_one, hrenderer]
    rfl
  · refine h.slots i e' ?_ he'
    have hi' : (s.drained ++ [d]).length ≤ i := hi
    omega
  · have hfenced := h.fenced
    show s.fenced ≤ (s.drained ++ [d]).length
    omega
  · exact h.server.mono rfl rfl rfl rfl rfl (Nat.le_of_eq hcount'.symm)
  · show 0 < (s.drained ++ [d]).length
    omega
  · show d.entry.serial = (s.drained ++ [d]).length
    rw [hlen]
    exact (h.entries _ _ hrenderer).1

/-- `readIndex++`. -/
theorem Inv.renderer_advance (h : Inv s) {r : Route} {e : Entry}
    (hpc : s.renderer = .advance r e) :
    Inv { s with readIndex := s.readIndex + 1, renderer := .loop r e.serial } := by
  have hrenderer := h.renderer
  simp only [State.RendererOk, hpc] at hrenderer
  obtain ⟨hpos, hserial⟩ := hrenderer
  have hcount : s.readCount = s.drained.length - 1 := by simp only [State.readCount, hpc]
  have hfull := h.full
  refine { write := h.write, read := ?_, le := h.le, full := ?_, drained := h.drained,
           entries := h.entries, slots := h.slots, fenced := h.fenced,
           completed := h.completed, server := ?_, renderer := .inr hserial }
  · show s.readIndex + 1 = UInt32.ofNat s.drained.length
    rw [h.read, ofNat_succ]
    congr 1
    omega
  · show s.scheduled.length ≤ s.drained.length + 8
    omega
  · refine h.server.mono rfl rfl rfl rfl rfl ?_
    show s.readCount ≤ s.drained.length
    omega

/-- The renderer's thread looks whether there is anything to do, and takes nothing. -/
theorem Inv.renderer_looks (h : Inv s) {env : Env}
    (hpc : s.renderer = .idle ∨ s.renderer = .redrawTest ∨ s.renderer = .redrawBody ∨
      (∃ r, s.renderer = .test r) ∨ ∃ r, s.renderer = .lockedTest r)
    (hstep : rendererStep s env = some s') : Inv s' := by
  have hcount : s.readCount = s.drained.length := by
    rcases hpc with hpc | hpc | hpc | ⟨r, hpc⟩ | ⟨r, hpc⟩ <;> simp only [State.readCount, hpc]
  rcases hpc with hpc | hpc | hpc | ⟨r, hpc⟩ | ⟨r, hpc⟩ <;>
    simp only [rendererStep, hpc, Option.some_inj] at hstep <;> subst hstep
  · split <;> exact h.renderer_move hcount.symm trivial
  · split <;> exact h.renderer_move hcount.symm trivial
  · split <;> exact h.renderer_move hcount.symm trivial
  · split
    · cases r with
      | alone => exact h.renderer_move hcount.symm trivial
      | first => exact h.renderer_move hcount.symm trivial
      | redraw => exact h.renderer_move hcount.symm trivial
    · exact h.renderer_move hcount.symm trivial
  · split
    · exact h.renderer_drained hcount (.inl rfl)
    · exact h.renderer_move (p := .loop r 0) hcount.symm (.inl rfl)

/-- The ring is drained, or its next entry is taken. -/
theorem Inv.renderer_loop (h : Inv s) {env : Env} {r : Route} {last : ℕ}
    (hpc : s.renderer = .loop r last) (hstep : rendererStep s env = some s') : Inv s' := by
  have hrenderer := h.renderer
  have hcount : s.readCount = s.drained.length := by simp only [State.readCount, hpc]
  simp only [rendererStep, hpc] at hstep
  simp only [State.RendererOk, hpc] at hrenderer
  split at hstep
  · cases hstep
    exact h.renderer_drained hcount hrenderer
  next hne =>
    cases hstep
    have hle := h.le
    rw [h.empty_iff] at hne
    have hlt : s.drained.length < s.scheduled.length := by omega
    exact h.renderer_move hcount.symm ⟨hrenderer, hlt, fun f hf hnot => absurd hf hnot⟩

/-- The entry is copied member by member, and is the one that was scheduled. -/
theorem Inv.renderer_copy (h : Inv s) {env : Env} {r : Route} {last : ℕ} {cell : Cell}
    {todo : List Field} (hpc : s.renderer = .copy r last cell todo)
    (hstep : rendererStep s env = some s') : Inv s' := by
  have hrenderer := h.renderer
  have hcount : s.readCount = s.drained.length := by simp only [State.readCount, hpc]
  simp only [State.RendererOk, hpc] at hrenderer
  obtain ⟨hlast, hlt, hcopied⟩ := hrenderer
  cases todo with
  | nil =>
    simp only [rendererStep, hpc, Option.some_inj] at hstep
    subst hstep
    -- the copy is whole, and the slot was not written to meanwhile
    have hget : s.scheduled[s.drained.length]? = some s.scheduled[s.drained.length] :=
      List.getElem?_eq_getElem hlt
    have hholds := h.slots _ _ (Nat.le_refl _) hget
    have hcopy := hholds.copy (h.entries _ _ hget).2 fun f hf => hcopied f hf List.not_mem_nil
    refine h.renderer_move hcount.symm ?_
    show s.scheduled[s.drained.length]? = some (Entry.ofCell cell)
    rw [Entry.ofCell_of_holds hcopy]
    exact hget
  | cons f todo =>
    simp only [rendererStep, hpc, Option.some_inj] at hstep
    subst hstep
    refine h.renderer_move hcount.symm ⟨hlast, hlt, fun g hg hnot => ?_⟩
    show Function.update cell f (s.entries (slot capacity s.readIndex) f) g =
      s.entries (s.drained.length % 8) g
    rw [h.read, hcount, slot_ofNat (by decide)]
    by_cases hgf : g = f
    · rw [hgf, Function.update_self]
      rfl
    · rw [Function.update_of_ne hgf]
      exact hcopied g hg (by rw [List.mem_cons, not_or]; exact ⟨hgf, hnot⟩)

/-- The fence: all that was drained is drawn. -/
theorem Inv.renderer_fence (h : Inv s) {env : Env} {r : Route} {last : ℕ}
    (hpc : s.renderer = .fence r last) (hstep : rendererStep s env = some s') : Inv s' := by
  have hrenderer := h.renderer
  have hcount : s.readCount = s.drained.length := by simp only [State.readCount, hpc]
  simp only [rendererStep, hpc, Option.some_inj] at hstep
  simp only [State.RendererOk, hpc] at hrenderer
  subst hstep
  have hmove : Inv { s with renderer := .fence r last } :=
    h.renderer_move hcount.symm hrenderer
  refine { hmove with read := ?_, full := ?_, fenced := Nat.le_refl _, completed := ?_
                      server := ?_, renderer := ⟨rfl, hrenderer⟩ }
  · exact hmove.read
  · exact hmove.full
  · exact Nat.le_trans h.completed h.fenced
  · exact h.server.mono rfl rfl rfl rfl rfl (Nat.le_of_eq hcount)

/-- The serial of what the fence was for is published. -/
theorem Inv.renderer_publish (h : Inv s) {env : Env} {r : Route} {last : ℕ}
    (hpc : s.renderer = .publish r last) (hstep : rendererStep s env = some s') : Inv s' := by
  have hrenderer := h.renderer
  have hcount : s.readCount = s.drained.length := by simp only [State.readCount, hpc]
  simp only [rendererStep, hpc, Option.some_inj] at hstep
  simp only [State.RendererOk, hpc] at hrenderer
  obtain ⟨hfenced, hlast⟩ := hrenderer
  subst hstep
  have hmove : Inv { s with renderer := r.return } := by
    cases r with
    | alone => exact h.renderer_move hcount.symm trivial
    | first => exact h.renderer_move hcount.symm trivial
    | redraw => exact h.renderer_move hcount.symm trivial
  refine { hmove with completed := ?_, server := hmove.server, renderer := hmove.renderer }
  show (if last = 0 then s.completedSerial else last) ≤ s.fenced
  split
  · exact h.completed
  · omega

theorem Inv.renderer_step (h : Inv s) {env : Env} (hstep : rendererStep s env = some s') :
    Inv s' := by
  cases hpc : s.renderer with
  | idle => exact h.renderer_looks (.inl hpc) hstep
  | redrawTest => exact h.renderer_looks (.inr (.inl hpc)) hstep
  | redrawBody => exact h.renderer_looks (.inr (.inr (.inl hpc))) hstep
  | test r => exact h.renderer_looks (.inr (.inr (.inr (.inl ⟨r, hpc⟩)))) hstep
  | lockedTest r => exact h.renderer_looks (.inr (.inr (.inr (.inr ⟨r, hpc⟩)))) hstep
  | loop r last => exact h.renderer_loop hpc hstep
  | copy r last cell todo => exact h.renderer_copy hpc hstep
  | draw r e =>
    simp only [rendererStep, hpc] at hstep
    split at hstep
    · cases hstep
      exact h.renderer_draw (d := ⟨e, some _⟩) hpc
    · cases hstep
      exact h.renderer_draw (d := ⟨e, none⟩) hpc
  | advance r e =>
    simp only [rendererStep, hpc, Option.some_inj] at hstep
    subst hstep
    exact h.renderer_advance hpc
  | fence r last => exact h.renderer_fence hpc hstep
  | publish r last => exact h.renderer_publish hpc hstep

/-- A step publishes no serial below the one before. -/
theorem Inv.completed_mono (h : Inv s) {a : Act} (hstep : step s a = some s') :
    s.completedSerial ≤ s'.completedSerial := by
  cases a with
  | schedule c =>
    simp only [step] at hstep
    split at hstep
    · split at hstep <;> cases hstep <;> exact Nat.le_refl _
    · cases hstep
  | server =>
    simp only [step, serverStep] at hstep
    split at hstep
    · cases hstep
    · cases hstep
      exact Nat.le_refl _
    · cases hstep
      exact Nat.le_refl _
    · split at hstep <;> cases hstep <;> exact Nat.le_refl _
    · cases hstep
      exact Nat.le_refl _
    · cases hstep
      exact Nat.le_refl _
  | renderer env =>
    simp only [step, rendererStep] at hstep
    split at hstep
    case h_12 r last hpc =>
      cases hstep
      have hrenderer := h.renderer
      simp only [State.RendererOk, hpc] at hrenderer
      have hcompleted := h.completed
      show s.completedSerial ≤ if last = 0 then s.completedSerial else last
      split <;> omega
    all_goals
      try split at hstep
      all_goals
        cases hstep
        exact Nat.le_refl _

end

/-! ### Runs -/

theorem Inv.step {s s' : State} (h : Inv s) {a : Act} (hstep : step s a = some s') : Inv s' := by
  cases a with
  | schedule c =>
    have hserver := h.server
    simp only [GpuCopyRing.step] at hstep
    split at hstep
    next hidle =>
      simp only [State.ServerOk, hidle] at hserver
      split at hstep
      · cases hstep
        exact h
      next hbox =>
        cases hstep
        exact h.server_move (p := .loadWriteIndex c) ⟨hserver, by omega⟩
    next => cases hstep
  | server => exact h.server_step hstep
  | renderer env => exact h.renderer_step hstep

/-! ### The framebuffer -/

/-- Unless it is 0, `boundDstId` says what is attached. -/
def Framed (s : State) : Prop :=
  s.drain.boundDstId ≠ 0 → s.gl = ⟨some s.drain.boundDstId, some s.drain.boundDstId⟩

theorem Drain.setUp_boundDstId (d : Drain) (gl : Gl) : (d.setUp gl).boundDstId = d.boundDstId := by
  rw [setUp]
  split <;> rfl

/-- Attached is the destination, or everything is as it was. -/
theorem Drain.attach_spec (d : Drain) (gl : Gl) (dst : ℕ) :
    (d.attach gl dst).1.boundDstId = dst ∧ (d.attach gl dst).2 = ⟨some dst, some dst⟩ ∨
      d.boundDstId = dst ∧ d.attach gl dst = (d, gl) := by
  rw [attach]
  split
  next => exact .inl ⟨rfl, rfl⟩
  next heq => exact .inr ⟨not_not.mp heq, rfl⟩

section

variable {s s' : State}

theorem Framed.attach (h : Framed s) (dst : ℕ) :
    Framed { s with
      drain := ((s.drain.setUp s.gl).attach s.gl dst).1
      gl := ((s.drain.setUp s.gl).attach s.gl dst).2 } := by
  rw [Framed]
  rcases (s.drain.setUp s.gl).attach_spec s.gl dst with ⟨hid, hgl⟩ | ⟨-, heq⟩
  · rw [hid, hgl]
    exact fun _ => rfl
  · rw [heq, Drain.setUp_boundDstId]
    exact h

/-- Where an entry's destination is attached, its boxes go there. -/
theorem Framed.applied (h : Framed s) {dst : ℕ} (hattaches : s.Attaches dst) :
    ((s.drain.setUp s.gl).attach s.gl dst).2 = ⟨some dst, some dst⟩ := by
  rcases (s.drain.setUp s.gl).attach_spec s.gl dst with ⟨-, hgl⟩ | ⟨hid, heq⟩
  · exact hgl
  · rw [heq]
    rw [Drain.setUp_boundDstId] at hid
    show s.gl = ⟨some dst, some dst⟩
    rcases hattaches with hne | hne | hgl
    · exact hid ▸ h (hid ▸ hne)
    · exact hid ▸ h hne
    · by_cases hzero : dst = 0
      · rw [hzero]
        exact hgl
      · exact hid ▸ h (hid ▸ hzero)

theorem Framed.rendererStep (h : Framed s) {env : Env} (hstep : rendererStep s env = some s') :
    Framed s' := by
  cases hpc : s.renderer with
  | lockedTest r =>
    simp only [GpuCopyRing.rendererStep, hpc, Option.some_inj] at hstep
    subst hstep
    exact fun hne => absurd rfl hne
  | loop r last =>
    simp only [GpuCopyRing.rendererStep, hpc] at hstep
    split at hstep
    · cases hstep
      exact fun hne => absurd rfl hne
    · cases hstep
      exact h
  | copy r last cell todo =>
    cases todo with
    | nil =>
      simp only [GpuCopyRing.rendererStep, hpc, Option.some_inj] at hstep
      exact hstep ▸ h
    | cons f todo =>
      simp only [GpuCopyRing.rendererStep, hpc, Option.some_inj] at hstep
      exact hstep ▸ h
  | draw r e =>
    simp only [GpuCopyRing.rendererStep, hpc] at hstep
    split at hstep
    · cases hstep
      exact h.attach e.dstBufferId
    · cases hstep
      exact h
  | _ =>
    simp only [GpuCopyRing.rendererStep, hpc, Option.some_inj] at hstep
    exact hstep ▸ h

/-- Neither the framebuffer nor what was drained is the server's. -/
theorem serverStep_gl (hstep : serverStep s = some s') :
    s'.gl = s.gl ∧ s'.drain = s.drain ∧ s'.drained = s.drained := by
  rw [serverStep.eq_def] at hstep
  split at hstep
  · cases hstep
  · cases hstep
    exact ⟨rfl, rfl, rfl⟩
  · cases hstep
    exact ⟨rfl, rfl, rfl⟩
  · split at hstep
    · cases hstep
      exact ⟨rfl, rfl, rfl⟩
    · cases hstep
      exact ⟨rfl, rfl, rfl⟩
  · cases hstep
    exact ⟨rfl, rfl, rfl⟩
  · cases hstep
    exact ⟨rfl, rfl, rfl⟩

/-- What the renderer drains in a step, it has applied. -/
theorem Framed.drains (h : Framed s) {env : Env} (hstep : GpuCopyRing.rendererStep s env = some s')
    (hok : Applies s (.renderer env)) :
    s'.drained = s.drained ∨ ∃ d, s'.drained = s.drained ++ [d] ∧ d.Applied := by
  cases hpc : s.renderer with
  | loop r last =>
    simp only [GpuCopyRing.rendererStep, hpc] at hstep
    split at hstep
    · cases hstep
      exact .inl rfl
    · cases hstep
      exact .inl rfl
  | copy r last cell todo =>
    cases todo with
    | nil =>
      simp only [GpuCopyRing.rendererStep, hpc, Option.some_inj] at hstep
      exact .inl (hstep ▸ rfl)
    | cons f todo =>
      simp only [GpuCopyRing.rendererStep, hpc, Option.some_inj] at hstep
      exact .inl (hstep ▸ rfl)
  | draw r e =>
    simp only [Applies, hpc] at hok
    obtain ⟨⟨hsrc, hdst⟩, hattaches⟩ := hok
    simp only [GpuCopyRing.rendererStep, hpc, hsrc, hdst, Bool.and_self, if_true,
      Option.some_inj] at hstep
    subst hstep
    refine .inr ⟨_, rfl, ?_⟩
    rw [Drained.Applied, h.applied hattaches]
  | _ =>
    simp only [GpuCopyRing.rendererStep, hpc, Option.some_inj] at hstep
    exact .inl (hstep ▸ rfl)

/-- All that was drained was applied. -/
def AllApplied (s : State) : Prop := ∀ d ∈ s.drained, d.Applied

theorem AllApplied.step (h : AllApplied s) (hframed : Framed s) {a : Act} (hok : Applies s a)
    (hstep : step s a = some s') : AllApplied s' ∧ Framed s' := by
  cases a with
  | schedule c =>
    simp only [GpuCopyRing.step] at hstep
    split at hstep
    · split at hstep
      · cases hstep
        exact ⟨h, hframed⟩
      · cases hstep
        exact ⟨h, hframed⟩
    · cases hstep
  | server =>
    obtain ⟨hgl, hdrain, hdrained⟩ := serverStep_gl hstep
    rw [AllApplied, Framed, hgl, hdrain, hdrained]
    exact ⟨h, hframed⟩
  | renderer env =>
    refine ⟨?_, hframed.rendererStep hstep⟩
    rcases hframed.drains hstep hok with hsame | ⟨d, hone, happlied⟩
    · rw [AllApplied, hsame]
      exact h
    · intro d' hd'
      rw [hone] at hd'
      rcases List.mem_append.mp hd' with hd' | hd'
      · exact h d' hd'
      · rw [List.mem_singleton.mp hd']
        exact happlied

end

/-- In every run the ring keeps its promises, and `completedSerial` never decreases.  Where each
entry's buffers are found and the framebuffer is attached to its destination, what is reported
done was applied. -/
theorem ring_drained_in_order {as bs : List Act} {s t : State} (hs : run step {} as = some s)
    (ht : run step s bs = some t) :
    (RingOk t ∧ s.completedSerial ≤ t.completedSerial) ∧
      (Meets step Applies {} (as ++ bs) → AppliedWhenDone t) := by
  have hinv : Inv s := run_invariant_of_step (fun _ _ _ h hstep => h.step hstep) .init hs
  have hkept : Inv t ∧ s.completedSerial ≤ t.completedSerial :=
    run_invariant_of_step (I := fun u => Inv u ∧ s.completedSerial ≤ u.completedSerial)
      (fun _ _ _ h hstep => ⟨h.1.step hstep, Nat.le_trans h.2 (h.1.completed_mono hstep)⟩)
      ⟨hinv, Nat.le_refl _⟩ ht
  have hring := hkept.1.ringOk
  refine ⟨⟨hring, hkept.2⟩, fun hmeets e he hdone => ?_⟩
  have happlied : AllApplied t ∧ Framed t :=
    run_invariant (I := fun u => AllApplied u ∧ Framed u)
      (fun _ _ _ h hok hstep => h.1.step h.2 hok hstep)
      ⟨fun d hd => absurd hd List.not_mem_nil, fun hne => absurd rfl hne⟩ hmeets
      ((run_append_of_eq hs).trans ht)
  obtain ⟨d, hd, hentry⟩ := hring.done e he hdone
  exact ⟨d, hd, hentry, happlied.1 d (List.mem_of_mem_take hd)⟩

/-- Copies of one box scheduled one after another, and drained on their own. -/
def copies (dsts : List ℕ) : List Act :=
  (dsts.flatMap fun dst =>
    Act.schedule ⟨9, dst, 0, 0, [⟨0, 0, 4, 2⟩]⟩ :: List.replicate 14 Act.server) ++
    List.replicate (5 + 75 * dsts.length) (Act.renderer { src := true, dst := true })

/-- A copy to the buffer 0: both buffers are found, the copy is done, and nothing was attached
that it could be drawn into. -/
theorem bufferZero_not_applied :
    ∃ s, run step {} (copies [0]) = some s ∧ ¬ AppliedWhenDone s := by
  have hend : (run step {} (copies [0])).map (fun s =>
      (s.scheduled.map Entry.serial, s.completedSerial, s.drained.map Drained.into)) =
        some ([1], 1, [some ⟨none, none⟩]) := by decide +kernel
  obtain ⟨s, hrun, hs⟩ := Option.map_eq_some_iff.mp hend
  simp only [Prod.mk.injEq] at hs
  obtain ⟨hserials, hcompleted, hinto⟩ := hs
  refine ⟨s, hrun, fun happlied => ?_⟩
  obtain ⟨e, he, hserial⟩ : ∃ e ∈ s.scheduled, e.serial = 1 :=
    List.mem_map.mp (by rw [hserials]; exact List.mem_singleton.mpr rfl)
  obtain ⟨d, hd, -, hd'⟩ := happlied e he (by rw [lorieGpuCopyIsDone]; omega)
  have hmem := List.mem_map_of_mem (f := Drained.into) (List.mem_of_mem_take hd)
  rw [hinto, hd'] at hmem
  simp at hmem

/-- Three copies in one drain, to the buffer 0 after another one. -/
theorem copies_drained :
    ∃ s t, run step {} (copies [2, 0, 0]) = some s ∧ run step s [.renderer {}] = some t ∧
      s.completedSerial = 3 ∧ (RingOk t ∧ s.completedSerial ≤ t.completedSerial) ∧
        AppliedWhenDone t := by
  have hend : (run step {} (copies [2, 0, 0])).map (fun s =>
      (s.completedSerial, (run step s [.renderer {}]).isSome)) = some (3, true) := by
    decide +kernel
  obtain ⟨s, hs, hend⟩ := Option.map_eq_some_iff.mp hend
  obtain ⟨hcompleted, hsome⟩ := Prod.mk.injEq .. ▸ hend
  obtain ⟨t, ht⟩ := Option.isSome_iff_exists.mp hsome
  have hmeets : Meets step Applies {} (copies [2, 0, 0] ++ [.renderer {}]) := by decide +kernel
  have hdrained := ring_drained_in_order hs ht
  exact ⟨s, t, hs, ht, hcompleted, hdrained.1, hdrained.2 hmeets⟩

end Lorie.GpuCopyRing
