/-
CPU access to pixmaps (`exa.c`, `InitOutput.c`).

Software rendering brackets every access to a pixmap with `exaPrepareAccess` and
`exaFinishAccess`.  EXA keeps one slot for each pixmap under access and calls the
driver's hooks for the outermost bracket only.  The hooks take the lock of the
shared state when `lorieNeedsGpuLock` says so, from the index of that outermost
bracket and from the GPU copies pending then.

* `ExaAccess.step` — brackets opened and closed in any order, and what happens
  between them;
* `ExaAccess.Inv` — the lock is held once for each slot that needs it;
* `screen_write_locked_unless_nested` — when the screen pixmap is only written under the lock.
-/
import KaliGui.Lib.Run
import Mathlib.Algebra.BigOperators.Fin
import Mathlib.Algebra.BigOperators.Group.Finset.Basic
import Mathlib.Data.List.FinRange
import Mathlib.Tactic.Common

namespace Lorie.ExaAccess

open Machine

/-- The index of an access, a position in `access`. -/
abbrev Index := Fin 6

/-- `EXA_PREPARE_DEST` -/
def exaPrepareDest : Index := 0
/-- `EXA_PREPARE_SRC` -/
def exaPrepareSrc : Index := 1
/-- `EXA_PREPARE_MASK` -/
def exaPrepareMask : Index := 2
/-- `EXA_PREPARE_AUX_DEST`, the first of the indices the driver does not support -/
def exaPrepareAuxDest : Index := 3

/-- `LorieBuffer_Type`. -/
inductive BufferType
  | regular
  | fd
  | ahardwarebuffer
  deriving DecidableEq, Repr

structure Buffer where
  type : BufferType
  gpuCopyPending : ℕ
  deriving DecidableEq, Repr

/-- What `lorieNeedsGpuLock` reads.  Pixmaps are numbers. -/
structure Config where
  screenPixmap : ℕ
  rootGpuCopyPending : ℕ
  legacyDrawing : Bool
  /-- `priv->buffer` -/
  buffer : ℕ → Option Buffer

/-- The CPU mapping of a pixmap: whether `priv->mem` and `priv->locked` are set,
and `priv->wasLocked`. -/
structure Mapping where
  mem : Bool
  locked : Bool
  wasLocked : Bool
  deriving DecidableEq, Repr

/-- An entry of `ExaScreenPriv.access`. -/
structure Access where
  pixmap : ℕ
  count : ℕ
  retval : Bool
  deriving DecidableEq, Repr

structure State where
  config : Config
  mapping : ℕ → Mapping
  access : Index → Option Access
  /-- how often the server holds the recursive `state->lock` -/
  lockDepth : ℕ
  /-- the brackets that are open, with the indices they announced -/
  opened : List (ℕ × Index)

/-- `LorieBuffer_hasGpuCopyPending`. -/
def hasGpuCopyPending (buffer : Buffer) : Bool := buffer.gpuCopyPending != 0

/-- `lorieNeedsGpuLock`. -/
def lorieNeedsGpuLock (c : Config) (pixmap : ℕ) (index : Index) : Bool :=
  if c.screenPixmap = pixmap then
    index == exaPrepareDest || (c.rootGpuCopyPending != 0 && !c.legacyDrawing)
  else
    match c.buffer pixmap with
    | none => false
    | some b => !c.legacyDrawing && b.type == .ahardwarebuffer && hasGpuCopyPending b

/-- How often the hooks lock for an access. -/
def lockCount (c : Config) (pixmap : ℕ) (index : Index) : ℕ :=
  if lorieNeedsGpuLock c pixmap index then 1 else 0

/-- The state with one slot written. -/
def State.setAccess (s : State) (i : Index) (a : Option Access) : State :=
  { s with access := Function.update s.access i a }

/-- The state with the mapping of one pixmap written. -/
def State.setMapping (s : State) (pixmap : ℕ) (m : Mapping) : State :=
  { s with mapping := Function.update s.mapping pixmap m }

/-- `loriePrepareAccess`; `lockError` if `LorieBuffer_lock` fails, when the hook
returns false. -/
def loriePrepareAccess (s : State) (pixmap : ℕ) (index : Index) (lockError : Bool) :
    State × Bool :=
  let s := { s with lockDepth := s.lockDepth + lockCount s.config pixmap index }
  let m := s.mapping pixmap
  if !m.locked && !m.mem then
    if lockError then (s, false)
    else (s.setMapping pixmap { m with locked := true, wasLocked := false }, true)
  else (s.setMapping pixmap { m with wasLocked := true }, true)

/-- `lorieFinishAccess`. -/
def lorieFinishAccess (s : State) (pixmap : ℕ) (index : Index) : State :=
  let s := { s with lockDepth := s.lockDepth - lockCount s.config pixmap index }
  let m := s.mapping pixmap
  if !m.wasLocked then
    s.setMapping pixmap { m with locked := false, wasLocked := false }
  else s

/-- The first slot that holds the pixmap. -/
def findAccess (access : Index → Option Access) (pixmap : ℕ) : Option Index :=
  (List.finRange 6).find? fun i => (access i).any (·.pixmap == pixmap)

/-- The highest empty slot. -/
def highestFree (access : Index → Option Access) : Option Index :=
  (List.finRange 6).reverse.find? fun i => (access i).isNone

/-- `ExaDoPrepareAccess` for the driver's pixmaps, which are pinned and always
have a GPU copy; `none` for `FatalError`, which ends the server. -/
def exaDoPrepareAccess (s : State) (pixmap : ℕ) (index : Index) (lockError : Bool) :
    Option State :=
  match findAccess s.access pixmap with
  | some i =>
    some (s.setAccess i ((s.access i).map fun a => { a with count := a.count + 1 }))
  | none =>
    match if (s.access index).isNone then some index else highestFree s.access with
    | none => none
    | some i =>
      if exaPrepareAuxDest ≤ i then none
      else
        match loriePrepareAccess s pixmap i lockError with
        | (_, false) => none
        | (s', true) => some (s'.setAccess i (some ⟨pixmap, 1, true⟩))

/-- `exaFinishAccess`. -/
def exaFinishAccess (s : State) (pixmap : ℕ) : State :=
  match findAccess s.access pixmap with
  | none => s
  | some i =>
    match s.access i with
    | none => s
    | some a =>
      if 0 < a.count - 1 then
        s.setAccess i (some { a with count := a.count - 1 })
      else
        let s' := s.setAccess i none
        if !a.retval then s'
        else if exaPrepareAuxDest ≤ i then s'
        else lorieFinishAccess s' pixmap i

inductive Action
  /-- a bracket is opened -/
  | prepare (pixmap : ℕ) (index : Index) (lockError : Bool)
  /-- a bracket is closed -/
  | finish (pixmap : ℕ) (index : Index)
  /-- between brackets: copies are scheduled and acknowledged, pixmaps come and
  go, the screen gets a new one -/
  | between (config : Config) (mapping : ℕ → Mapping)

def step (s : State) : Action → Option State
  | .prepare p index lockError =>
    (exaDoPrepareAccess s p index lockError).map fun s' =>
      { s' with opened := (p, index) :: s'.opened }
  | .finish p index =>
    if (p, index) ∈ s.opened then
      some { exaFinishAccess s p with opened := s.opened.erase (p, index) }
    else none
  | .between config mapping =>
    if s.opened = [] then some { s with config := config, mapping := mapping } else none

def initial (config : Config) (mapping : ℕ → Mapping) : State where
  config := config
  mapping := mapping
  access _ := none
  lockDepth := 0
  opened := []

/-- A bracket that announced that it writes the screen pixmap is open. -/
def WritesScreen (s : State) : Prop := (s.config.screenPixmap, exaPrepareDest) ∈ s.opened

structure Locked (s : State) : Prop where
  write : WritesScreen s → 0 < s.lockDepth
  free : s.opened = [] → s.lockDepth = 0

/-- The bracket that is opened does not announce a write of the screen pixmap
inside a bracket on it that needed no lock. -/
def NoUnlockedNesting (s : State) : Action → Prop
  | .prepare p index _ => p = s.config.screenPixmap → index = exaPrepareDest →
      ∀ i, findAccess s.access p = some i → lorieNeedsGpuLock s.config p i = true
  | _ => True

/-! ### The slots -/

theorem findAccess_eq_some {access : Index → Option Access} {p : ℕ} {i : Index}
    (h : findAccess access p = some i) : ∃ a, access i = some a ∧ a.pixmap = p := by
  have hany := List.find?_some h
  rcases ha : access i with _ | a
  · simp [ha] at hany
  · exact ⟨a, rfl, by simpa [ha] using hany⟩

theorem findAccess_eq_none {access : Index → Option Access} {p : ℕ} :
    findAccess access p = none ↔ ∀ i a, access i = some a → a.pixmap ≠ p := by
  rw [findAccess, List.find?_eq_none]
  constructor
  · intro h i a ha hp
    exact h i (List.mem_finRange i) (by simp [ha, hp])
  · intro h i _ hany
    rcases ha : access i with _ | a
    · simp [ha] at hany
    · exact h i a ha (by simpa [ha] using hany)

/-- With none of the unsupported indices in use, the highest free slot is the last. -/
theorem highestFree_eq {access : Index → Option Access}
    (h : ∀ i, exaPrepareAuxDest ≤ i → access i = none) : highestFree access = some 5 := by
  have hlist : (List.finRange 6).reverse = [5, 4, 3, 2, 1, 0] := by decide
  rw [highestFree, hlist, List.find?_cons_of_pos]
  rw [h 5 (by decide)]
  rfl

/-- The locks that one slot accounts for. -/
def slotLocks (c : Config) (i : Index) : Option Access → ℕ
  | none => 0
  | some a => lockCount c a.pixmap i

/-- The locks that all slots account for. -/
def heldLocks (c : Config) (access : Index → Option Access) : ℕ :=
  ∑ i, slotLocks c i (access i)

/-- Writing a slot exchanges the locks it accounts for. -/
theorem heldLocks_update (c : Config) (access : Index → Option Access) (i : Index)
    (x : Option Access) :
    heldLocks c (Function.update access i x) + slotLocks c i (access i) =
      heldLocks c access + slotLocks c i x := by
  have hupdate : ∀ j, slotLocks c j (Function.update access i x j) =
      Function.update (fun j => slotLocks c j (access j)) i (slotLocks c i x) j :=
    fun j => Function.apply_update (fun j => slotLocks c j) access i x j
  have hrest := Finset.add_sum_erase Finset.univ (fun j => slotLocks c j (access j))
    (Finset.mem_univ i)
  rw [heldLocks, heldLocks, Finset.sum_congr rfl fun j _ => hupdate j,
    Finset.sum_update_of_mem (Finset.mem_univ i), ← hrest, Finset.sdiff_singleton_eq_erase]
  omega

theorem heldLocks_update_none {c : Config} {access : Index → Option Access} {i : Index}
    (h : access i = none) (a : Access) :
    heldLocks c (Function.update access i (some a)) =
      heldLocks c access + lockCount c a.pixmap i := by
  have hsum := heldLocks_update c access i (some a)
  rw [h] at hsum
  exact hsum

/-! ### What the two calls do -/

/-- A bracket opened on a pixmap under access only counts; any other takes the
slot of its index, with the hook's lock. -/
theorem exaDoPrepareAccess_cases {s s' : State} {p : ℕ} {k : Index} {lockError : Bool}
    (haux : ∀ i, exaPrepareAuxDest ≤ i → s.access i = none)
    (h : exaDoPrepareAccess s p k lockError = some s') :
    (∃ i a, findAccess s.access p = some i ∧ s.access i = some a ∧ a.pixmap = p ∧
      s' = s.setAccess i (some { a with count := a.count + 1 })) ∨
    (findAccess s.access p = none ∧ s.access k = none ∧ k < exaPrepareAuxDest ∧
      ∃ m, s' = State.setAccess
        { s.setMapping p m with lockDepth := s.lockDepth + lockCount s.config p k }
        k (some ⟨p, 1, true⟩)) := by
  rw [exaDoPrepareAccess] at h
  rcases hfind : findAccess s.access p with _ | i
  · right
    simp only [hfind] at h
    -- a slot that is taken leaves only the last one, which is fatal
    have hk : s.access k = none := by
      by_contra hk
      rw [← Option.isNone_iff_eq_none] at hk
      rw [if_neg hk, highestFree_eq haux] at h
      simp only [if_pos (show exaPrepareAuxDest ≤ (5 : Index) by decide), reduceCtorEq] at h
    rw [if_pos (by rw [hk]; rfl)] at h
    simp only at h
    split at h <;> [simp at h; skip]
    next hlt =>
      refine ⟨rfl, hk, not_le.mp hlt, ?_⟩
      simp only [loriePrepareAccess] at h
      rcases hmap : (!(s.mapping p).locked && !(s.mapping p).mem) with _ | _
      · simp only [hmap, Bool.false_eq_true, if_false, Option.some_inj] at h
        exact ⟨_, h.symm⟩
      · cases lockError
        · simp only [hmap, Bool.false_eq_true, if_false, if_true, Option.some_inj] at h
          exact ⟨_, h.symm⟩
        · simp [hmap] at h
  · left
    obtain ⟨a, ha, hp⟩ := findAccess_eq_some hfind
    simp only [hfind, ha, Option.map_some, Option.some_inj] at h
    exact ⟨i, a, rfl, ha, hp, h.symm⟩

/-- The finish hook gives back what `lorieNeedsGpuLock` says and unmaps. -/
theorem lorieFinishAccess_eq (s : State) (p : ℕ) (i : Index) :
    ∃ mapping, lorieFinishAccess s p i =
      { s with mapping := mapping, lockDepth := s.lockDepth - lockCount s.config p i } := by
  simp only [lorieFinishAccess]
  split <;> exact ⟨_, rfl⟩

/-- Closing one of several brackets on a pixmap only counts; closing the last one
frees its slot and gives back the hook's lock. -/
theorem exaFinishAccess_cases {s : State} {p : ℕ} {i : Index} {a : Access}
    (hfind : findAccess s.access p = some i) (ha : s.access i = some a)
    (hret : a.retval = true) (hi : i < exaPrepareAuxDest) :
    (1 < a.count ∧
      exaFinishAccess s p = s.setAccess i (some { a with count := a.count - 1 })) ∨
    (a.count ≤ 1 ∧ ∃ mapping, exaFinishAccess s p = State.setAccess
      { s with mapping := mapping, lockDepth := s.lockDepth - lockCount s.config p i }
      i none) := by
  simp only [exaFinishAccess, hfind, ha]
  by_cases hcount : 1 < a.count
  · exact Or.inl ⟨hcount, if_pos (by omega)⟩
  · refine Or.inr ⟨by omega, ?_⟩
    rw [if_neg (by omega), hret, if_neg (by decide), if_neg (not_le.mpr hi)]
    exact lorieFinishAccess_eq (s.setAccess i none) p i

/-! ### The invariant -/

/-- The open brackets on a pixmap. -/
def bracketsOn (opened : List (ℕ × Index)) (p : ℕ) : ℕ := opened.countP (·.1 = p)

theorem bracketsOn_cons_self (opened : List (ℕ × Index)) (p : ℕ) (k : Index) :
    bracketsOn ((p, k) :: opened) p = bracketsOn opened p + 1 := by
  simp [bracketsOn]

theorem bracketsOn_cons_ne (opened : List (ℕ × Index)) {p q : ℕ} (k : Index) (h : q ≠ p) :
    bracketsOn ((p, k) :: opened) q = bracketsOn opened q := by
  simp [bracketsOn, Ne.symm h]

theorem bracketsOn_erase_self {opened : List (ℕ × Index)} {p : ℕ} {k : Index}
    (h : (p, k) ∈ opened) : bracketsOn (opened.erase (p, k)) p = bracketsOn opened p - 1 := by
  simp [bracketsOn, List.countP_erase, h]

theorem bracketsOn_erase_ne (opened : List (ℕ × Index)) {p q : ℕ} (k : Index) (h : q ≠ p) :
    bracketsOn (opened.erase (p, k)) q = bracketsOn opened q := by
  simp [bracketsOn, List.countP_erase, Ne.symm h]

theorem bracketsOn_pos {opened : List (ℕ × Index)} {p : ℕ} :
    0 < bracketsOn opened p ↔ ∃ o ∈ opened, o.1 = p := by
  simp [bracketsOn, List.countP_pos_iff]

/-- Each pixmap with open brackets has one slot, which counts them, and the lock is
held as often as the slots need it. -/
structure Inv (s : State) : Prop where
  aux : ∀ i, exaPrepareAuxDest ≤ i → s.access i = none
  slot : ∀ i a, s.access i = some a →
    a.retval = true ∧ 0 < a.count ∧ a.count = bracketsOn s.opened a.pixmap
  unique : ∀ i j a b, s.access i = some a → s.access j = some b → a.pixmap = b.pixmap → i = j
  covered : ∀ o ∈ s.opened, ∃ i a, s.access i = some a ∧ a.pixmap = o.1
  depth : s.lockDepth = heldLocks s.config s.access

theorem inv_initial (c : Config) (m : ℕ → Mapping) : Inv (initial c m) where
  aux _ _ := rfl
  slot i a h := by simp [initial] at h
  unique i j a b h := by simp [initial] at h
  covered o h := absurd h List.not_mem_nil
  depth := by simp [initial, heldLocks, slotLocks]

theorem Inv.find {s : State} (h : Inv s) {i : Index} {a : Access} {p : ℕ}
    (ha : s.access i = some a) (hp : a.pixmap = p) : findAccess s.access p = some i := by
  subst hp
  rcases hfind : findAccess s.access a.pixmap with _ | j
  · exact absurd rfl (findAccess_eq_none.mp hfind i a ha)
  · obtain ⟨b, hb, hp⟩ := findAccess_eq_some hfind
    rw [h.unique i j a b ha hb hp.symm]

theorem Inv.lt_aux {s : State} (h : Inv s) {i : Index} {a : Access} (ha : s.access i = some a) :
    i < exaPrepareAuxDest := by
  by_contra hi
  rw [h.aux i (not_lt.mp hi)] at ha
  simp at ha

/-- Writing the slot of one pixmap keeps the invariant if the slot counts the
brackets on it and those on the others stay. -/
theorem Inv.setAccess {s : State} (h : Inv s) {i : Index} {a : Access} {depth : ℕ}
    {mapping : ℕ → Mapping} {opened : List (ℕ × Index)} (hi : i < exaPrepareAuxDest)
    (hret : a.retval = true) (hpos : 0 < a.count)
    (hcount : a.count = bracketsOn opened a.pixmap)
    (hothers : ∀ p, p ≠ a.pixmap → bracketsOn opened p = bracketsOn s.opened p)
    (hmem : ∀ o ∈ opened, o.1 = a.pixmap ∨ o ∈ s.opened)
    (hslot : ∀ j b, s.access j = some b → (b.pixmap = a.pixmap ↔ j = i))
    (hdepth : depth = heldLocks s.config (Function.update s.access i (some a))) :
    Inv ⟨s.config, mapping, Function.update s.access i (some a), depth, opened⟩ where
  aux j hj := by
    show Function.update s.access i (some a) j = none
    have hji : j ≠ i := by
      rintro rfl
      exact absurd hi (not_lt.mpr hj)
    rw [Function.update_of_ne hji]
    exact h.aux j hj
  slot j b hb := by
    change Function.update s.access i (some a) j = some b at hb
    by_cases hji : j = i
    · subst hji
      rw [Function.update_self, Option.some_inj] at hb
      subst hb
      exact ⟨hret, hpos, hcount⟩
    · rw [Function.update_of_ne hji] at hb
      obtain ⟨hbret, hbpos, hbcount⟩ := h.slot j b hb
      exact ⟨hbret, hbpos, hbcount.trans (hothers _ fun hp => hji ((hslot j b hb).mp hp)).symm⟩
  unique j k b c hb hc hp := by
    change Function.update s.access i (some a) j = some b at hb
    change Function.update s.access i (some a) k = some c at hc
    -- no other slot has the pixmap of the one that is written
    by_cases hji : j = i <;> by_cases hki : k = i
    · rw [hji, hki]
    · subst hji
      rw [Function.update_self, Option.some_inj] at hb
      rw [Function.update_of_ne hki] at hc
      exact absurd ((hslot k c hc).mp (by rw [← hp, hb])) hki
    · subst hki
      rw [Function.update_self, Option.some_inj] at hc
      rw [Function.update_of_ne hji] at hb
      exact absurd ((hslot j b hb).mp (by rw [hp, hc])) hji
    · rw [Function.update_of_ne hji] at hb
      rw [Function.update_of_ne hki] at hc
      exact h.unique j k b c hb hc hp
  covered o ho := by
    rcases hmem o ho with hp | ho
    · exact ⟨i, a, Function.update_self i _ _, hp.symm⟩
    · obtain ⟨j, b, hb, hp⟩ := h.covered o ho
      by_cases hji : j = i
      · exact ⟨i, a, Function.update_self i _ _, by rw [← hp, (hslot j b hb).mpr hji]⟩
      · exact ⟨j, b, (Function.update_of_ne hji _ _).trans hb, hp⟩
  depth := hdepth

/-- Freeing the slot of a pixmap whose last bracket closes keeps the invariant. -/
theorem Inv.freeAccess {s : State} (h : Inv s) {i : Index} {a : Access} {depth : ℕ}
    {mapping : ℕ → Mapping} {opened : List (ℕ × Index)} (ha : s.access i = some a)
    (hclosed : bracketsOn opened a.pixmap = 0)
    (hothers : ∀ p, p ≠ a.pixmap → bracketsOn opened p = bracketsOn s.opened p)
    (hmem : ∀ o ∈ opened, o ∈ s.opened)
    (hdepth : depth = heldLocks s.config (Function.update s.access i none)) :
    Inv ⟨s.config, mapping, Function.update s.access i none, depth, opened⟩ := by
  have of_some : ∀ {j b}, Function.update s.access i none j = some b →
      j ≠ i ∧ s.access j = some b := by
    intro j b hb
    have hji : j ≠ i := by
      rintro rfl
      simp at hb
    rw [Function.update_of_ne hji] at hb
    exact ⟨hji, hb⟩
  refine ⟨fun j hj => ?_, fun j b hb => ?_, fun j k b c hb hc hp => ?_, fun o ho => ?_, hdepth⟩
  · by_cases hji : j = i
    · rw [hji]
      exact Function.update_self i _ _
    · exact (Function.update_of_ne hji _ _).trans (h.aux j hj)
  · obtain ⟨hji, hb⟩ := of_some hb
    obtain ⟨hret, hpos, hcount⟩ := h.slot j b hb
    exact ⟨hret, hpos, hcount.trans (hothers _ fun hp => hji (h.unique j i b a hb ha hp)).symm⟩
  · exact h.unique j k b c (of_some hb).2 (of_some hc).2 hp
  · obtain ⟨j, b, hb, hp⟩ := h.covered o (hmem o ho)
    have hji : j ≠ i := by
      rintro rfl
      obtain rfl := Option.some_inj.mp (ha.symm.trans hb)
      have hpos : 0 < bracketsOn opened a.pixmap := bracketsOn_pos.mpr ⟨o, ho, hp.symm⟩
      omega
    exact ⟨j, b, (Function.update_of_ne hji _ _).trans hb, hp⟩

theorem Inv.prepare {s s' : State} (h : Inv s) {p : ℕ} {k : Index} {lockError : Bool}
    (hprep : exaDoPrepareAccess s p k lockError = some s') :
    Inv { s' with opened := (p, k) :: s'.opened } := by
  rcases exaDoPrepareAccess_cases h.aux hprep with ⟨i, a, -, ha, rfl, rfl⟩ |
    ⟨hnone, hk, hlt, m, rfl⟩
  · obtain ⟨hret, -, hcount⟩ := h.slot i a ha
    refine h.setAccess (h.lt_aux ha) hret (Nat.succ_pos _) ?_ ?_ ?_ ?_ ?_
    · show a.count + 1 = bracketsOn ((a.pixmap, k) :: s.opened) a.pixmap
      rw [bracketsOn_cons_self, hcount]
    · exact fun q hq => bracketsOn_cons_ne s.opened k hq
    · intro o ho
      exact (List.mem_cons.mp ho).imp_left fun heq => by rw [heq]
    · exact fun j b hb => ⟨fun hp => h.unique j i b a hb ha hp, fun hji => by
        rw [hji, ha, Option.some_inj] at hb
        rw [← hb]⟩
    · -- the slot accounts for the same lock as before
      have hsum := heldLocks_update s.config s.access i (some { a with count := a.count + 1 })
      rw [ha] at hsum
      exact h.depth.trans (Nat.add_right_cancel hsum).symm
  · rw [findAccess_eq_none] at hnone
    refine h.setAccess hlt rfl Nat.one_pos ?_ ?_ ?_ ?_ ?_
    · have hzero : ¬ 0 < bracketsOn s.opened p := by
        rw [bracketsOn_pos]
        rintro ⟨o, ho, hp⟩
        obtain ⟨j, b, hb, hbp⟩ := h.covered o ho
        exact hnone j b hb (hbp.trans hp)
      show 1 = bracketsOn ((p, k) :: s.opened) p
      rw [bracketsOn_cons_self]
      omega
    · exact fun q hq => bracketsOn_cons_ne s.opened k hq
    · intro o ho
      exact (List.mem_cons.mp ho).imp_left fun heq => by rw [heq]
    · intro j b hb
      refine ⟨fun hp => absurd hp (hnone j b hb), fun hjk => ?_⟩
      rw [hjk, hk] at hb
      simp at hb
    · show s.lockDepth + _ = _
      rw [heldLocks_update_none hk, h.depth]

theorem Inv.finish {s : State} (h : Inv s) {p : ℕ} {k : Index} (hopen : (p, k) ∈ s.opened) :
    Inv { exaFinishAccess s p with opened := s.opened.erase (p, k) } := by
  obtain ⟨i, a, ha, hp⟩ := h.covered (p, k) hopen
  obtain rfl : a.pixmap = p := hp
  obtain ⟨hret, hpos, hcount⟩ := h.slot i a ha
  have hothers : ∀ q, q ≠ a.pixmap →
      bracketsOn (s.opened.erase (a.pixmap, k)) q = bracketsOn s.opened q :=
    fun q hq => bracketsOn_erase_ne s.opened k hq
  have hself := bracketsOn_erase_self hopen
  rcases exaFinishAccess_cases (h.find ha rfl) ha hret (h.lt_aux ha) with ⟨hmany, heq⟩ |
    ⟨hlast, mapping, heq⟩
  · rw [heq]
    refine h.setAccess (h.lt_aux ha) hret (Nat.sub_pos_of_lt hmany) ?_ hothers ?_ ?_ ?_
    · show a.count - 1 = _
      rw [hself, hcount]
    · exact fun o ho => Or.inr (List.mem_of_mem_erase ho)
    · exact fun j b hb => ⟨fun hp => h.unique j i b a hb ha hp, fun hji => by
        rw [hji, ha, Option.some_inj] at hb
        rw [← hb]⟩
    · have hsum := heldLocks_update s.config s.access i (some { a with count := a.count - 1 })
      rw [ha] at hsum
      exact h.depth.trans (Nat.add_right_cancel hsum).symm
  · rw [heq]
    refine h.freeAccess ha (by omega) hothers (fun o ho => List.mem_of_mem_erase ho) ?_
    have hsum := heldLocks_update s.config s.access i none
    rw [ha] at hsum
    show s.lockDepth - lockCount s.config a.pixmap i = _
    rw [h.depth]
    simp only [slotLocks] at hsum
    omega

theorem Inv.access_eq_none {s : State} (h : Inv s) (hclosed : s.opened = []) (i : Index) :
    s.access i = none := by
  rcases ha : s.access i with _ | a
  · rfl
  · obtain ⟨-, hpos, hcount⟩ := h.slot i a ha
    rw [hcount, hclosed] at hpos
    exact absurd hpos (Nat.lt_irrefl 0)

theorem heldLocks_eq_zero {c : Config} {access : Index → Option Access}
    (h : ∀ i, access i = none) : heldLocks c access = 0 :=
  Finset.sum_eq_zero fun i _ => by rw [h i]; rfl

theorem inv_step {s s' : State} {a : Action} (h : Inv s) (hstep : step s a = some s') :
    Inv s' := by
  cases a with
  | prepare p k lockError =>
    obtain ⟨t, hprep, rfl⟩ := Option.map_eq_some_iff.mp hstep
    exact h.prepare hprep
  | finish p k =>
    simp only [step] at hstep
    split at hstep <;> [skip; simp at hstep]
    next hopen =>
      obtain rfl := Option.some_inj.mp hstep
      exact h.finish hopen
  | between config mapping =>
    simp only [step] at hstep
    split at hstep <;> [skip; simp at hstep]
    next hclosed =>
      obtain rfl := Option.some_inj.mp hstep
      have hnone := h.access_eq_none hclosed
      refine ⟨h.aux, h.slot, h.unique, h.covered, ?_⟩
      show s.lockDepth = heldLocks config s.access
      rw [h.depth, heldLocks_eq_zero hnone, heldLocks_eq_zero hnone]

/-- While a bracket that writes the screen pixmap is open, the slot of the screen
pixmap needs the lock. -/
def WriteLocked (s : State) : Prop :=
  WritesScreen s → ∀ i, findAccess s.access s.config.screenPixmap = some i →
    lorieNeedsGpuLock s.config s.config.screenPixmap i = true

/-- A slot that needs the lock keeps it held. -/
theorem lockCount_le_lockDepth {s : State} (h : Inv s) {i : Index} {a : Access}
    (ha : s.access i = some a) : lockCount s.config a.pixmap i ≤ s.lockDepth := by
  have hsum := heldLocks_update s.config s.access i none
  rw [ha] at hsum
  simp only [slotLocks] at hsum
  rw [h.depth]
  omega

theorem Inv.locked {s : State} (h : Inv s) (hw : WriteLocked s) : Locked s where
  write hwrites := by
    obtain ⟨i, a, ha, hp⟩ := h.covered _ hwrites
    have hfind := h.find ha hp
    have hle := lockCount_le_lockDepth h ha
    rw [hp, lockCount, if_pos (hw hwrites i hfind)] at hle
    exact hle
  free hclosed := by
    rw [h.depth, heldLocks_eq_zero (h.access_eq_none hclosed)]

/-- Closing a bracket leaves each remaining slot to its pixmap. -/
theorem Inv.access_of_finish {s : State} (h : Inv s) {p : ℕ} {k j : Index} {b : Access}
    (hopen : (p, k) ∈ s.opened) (hb : (exaFinishAccess s p).access j = some b) :
    ∃ a, s.access j = some a ∧ a.pixmap = b.pixmap := by
  obtain ⟨i, a, ha, hp⟩ := h.covered (p, k) hopen
  obtain rfl : a.pixmap = p := hp
  have hslot : (exaFinishAccess s a.pixmap).access j = some b →
      ∃ x, (exaFinishAccess s a.pixmap).access = Function.update s.access i x ∧
        ∀ c, x = some c → c.pixmap = a.pixmap := by
    intro _
    rcases exaFinishAccess_cases (h.find ha rfl) ha (h.slot i a ha).1 (h.lt_aux ha) with ⟨-, heq⟩ |
      ⟨-, mapping, heq⟩
    · refine ⟨some { a with count := a.count - 1 }, by rw [heq]; rfl, fun c hc => ?_⟩
      rw [← Option.some_inj.mp hc]
    · exact ⟨none, by rw [heq]; rfl, fun c hc => by simp at hc⟩
  obtain ⟨x, hx, hpix⟩ := hslot hb
  rw [hx] at hb
  by_cases hji : j = i
  · subst hji
    rw [Function.update_self] at hb
    exact ⟨a, ha, (hpix b hb).symm⟩
  · rw [Function.update_of_ne hji] at hb
    exact ⟨b, hb, rfl⟩

theorem exaFinishAccess_config (s : State) (p : ℕ) :
    (exaFinishAccess s p).config = s.config := by
  simp only [exaFinishAccess]
  repeat' split
  all_goals first | rfl | skip
  obtain ⟨mapping, heq⟩ := lorieFinishAccess_eq (s.setAccess _ none) p _
  rw [heq]
  rfl

/-- A step that nests no write in an unlocked bracket keeps the screen's slot locked. -/
theorem writeLocked_step {s s' : State} {a : Action} (h : Inv s) (hw : WriteLocked s)
    (hok : NoUnlockedNesting s a) (hstep : step s a = some s') : WriteLocked s' := by
  have h' := inv_step h hstep
  cases a with
  | prepare p k lockError =>
    obtain ⟨t, hprep, rfl⟩ := Option.map_eq_some_iff.mp hstep
    rcases exaDoPrepareAccess_cases h.aux hprep with ⟨i, a, hfind, ha, hap, rfl⟩ |
      ⟨hnone, hk, hlt, m, rfl⟩
    · -- a bracket more on a pixmap that has its slot
      intro hwrites j hj
      obtain ⟨b, hb, hbp⟩ := findAccess_eq_some hj
      change Function.update s.access i (some { a with count := a.count + 1 }) j = some b at hb
      change b.pixmap = s.config.screenPixmap at hbp
      have hfind' : findAccess s.access s.config.screenPixmap = some j := by
        by_cases hji : j = i
        · subst hji
          rw [Function.update_self, Option.some_inj] at hb
          exact h.find ha (by rw [← hbp, ← hb])
        · rw [Function.update_of_ne hji] at hb
          exact h.find hb hbp
      rcases List.mem_cons.mp hwrites with heq | hwrites
      · obtain ⟨hp, hk⟩ := Prod.mk.inj heq
        have hneeds := hok hp.symm hk.symm j (by rw [← hp]; exact hfind')
        rwa [← hp] at hneeds
      · exact hw hwrites j hfind'
    · -- a pixmap that gets a slot, so none of its brackets was open
      rw [findAccess_eq_none] at hnone
      intro hwrites j hj
      obtain ⟨b, hb, hbp⟩ := findAccess_eq_some hj
      change Function.update s.access k (some ⟨p, 1, true⟩) j = some b at hb
      change b.pixmap = s.config.screenPixmap at hbp
      rcases List.mem_cons.mp hwrites with heq | hwrites
      · obtain ⟨hp, hk'⟩ := Prod.mk.inj heq
        have hjk : j = k := by
          by_contra hjk
          rw [Function.update_of_ne hjk] at hb
          exact hnone j b hb (hbp.trans hp)
        show lorieNeedsGpuLock s.config s.config.screenPixmap j = true
        rw [lorieNeedsGpuLock, if_pos rfl, hjk, ← hk']
        rfl
      · obtain ⟨i, a, ha, hap⟩ := h.covered _ hwrites
        have hjk : j ≠ k := by
          rintro rfl
          rw [Function.update_self, Option.some_inj] at hb
          refine hnone i a ha (hap.trans ?_)
          rw [← hb] at hbp
          exact hbp.symm
        rw [Function.update_of_ne hjk] at hb
        exact hw hwrites j (h.find hb hbp)
  | finish p k =>
    simp only [step] at hstep
    split at hstep <;> [skip; simp at hstep]
    next hopen =>
      obtain rfl := Option.some_inj.mp hstep
      have hconfig := exaFinishAccess_config s p
      intro hwrites j hj
      obtain ⟨b, hb, hbp⟩ := findAccess_eq_some hj
      obtain ⟨a, ha, hap⟩ := h.access_of_finish hopen hb
      simp only [WritesScreen, hconfig] at hwrites hbp ⊢
      exact hw (List.mem_of_mem_erase hwrites) j (h.find ha (hap.trans hbp))
  | between config mapping =>
    simp only [step] at hstep
    split at hstep <;> [skip; simp at hstep]
    next hclosed =>
      obtain rfl := Option.some_inj.mp hstep
      intro hwrites
      simp [WritesScreen, hclosed] at hwrites

/-! ### After a write nested in an unlocked bracket -/

/-- The screen pixmap is being written and its slot needs no lock. -/
structure UnlockedWrite (s : State) : Prop where
  writes : WritesScreen s
  unlocked : ∃ i, findAccess s.access s.config.screenPixmap = some i ∧
    lorieNeedsGpuLock s.config s.config.screenPixmap i = false

/-- Opening the nested bracket. -/
theorem unlockedWrite_of_nesting {s s' : State} {a : Action} (h : Inv s)
    (hok : ¬ NoUnlockedNesting s a) (hstep : step s a = some s') : UnlockedWrite s' := by
  have h' := inv_step h hstep
  cases a with
  | prepare p k lockError =>
    simp only [NoUnlockedNesting, not_forall, Bool.not_eq_true] at hok
    obtain ⟨hp, hk, i, hfind, hneeds⟩ := hok
    obtain ⟨t, hprep, rfl⟩ := Option.map_eq_some_iff.mp hstep
    rcases exaDoPrepareAccess_cases h.aux hprep with ⟨j, a, hfind', ha, hap, rfl⟩ | ⟨hnone, -⟩
    · obtain rfl := Option.some_inj.mp (hfind.symm.trans hfind')
      refine ⟨?_, i, ?_, hp ▸ hneeds⟩
      · rw [WritesScreen, ← hk]
        exact List.mem_cons.mpr (Or.inl (by rw [hp]; rfl))
      · have hslot : (s.setAccess i (some { a with count := a.count + 1 })).access i =
            some { a with count := a.count + 1 } := Function.update_self i _ _
        exact h'.find hslot (hap.trans hp)
    · rw [hfind] at hnone
      simp at hnone
  | finish p k => exact absurd trivial hok
  | between config mapping => exact absurd trivial hok

/-- The other brackets can be closed first, and then the lock is not held. -/
theorem unlockedWrite_reaches {n : ℕ} : ∀ {s : State}, Inv s → UnlockedWrite s →
    s.opened.countP (·.1 ≠ s.config.screenPixmap) = n →
    ∃ as t, run step s as = some t ∧ ¬ Locked t := by
  -- on the brackets of the other pixmaps
  induction n with
  | zero =>
    intro s h hu hn
    refine ⟨[], s, rfl, fun hlocked => ?_⟩
    have hpos := hlocked.write hu.writes
    obtain ⟨i, hfind, hneeds⟩ := hu.unlocked
    -- the slot of the screen pixmap is the only one left, and it holds no lock
    have hzero : heldLocks s.config s.access = 0 := by
      refine Finset.sum_eq_zero fun j _ => ?_
      rcases ha : s.access j with _ | a
      · rfl
      · obtain ⟨-, hpos, hcount⟩ := h.slot j a ha
        obtain ⟨o, ho, hop⟩ := bracketsOn_pos.mp (hcount ▸ hpos)
        have hp : o.1 = s.config.screenPixmap := by
          have := List.countP_eq_zero.mp hn o ho
          simpa using this
        have hfind' := h.find ha (hop.symm.trans hp)
        rw [hfind, Option.some_inj] at hfind'
        simp [slotLocks, lockCount, ← hop, hp, ← hfind', hneeds]
    rw [h.depth, hzero] at hpos
    exact absurd hpos (Nat.lt_irrefl 0)
  | succ n ih =>
    intro s h hu hn
    obtain ⟨⟨p, k⟩, ho, hp⟩ := List.countP_pos_iff.mp (by rw [hn]; exact Nat.succ_pos n)
    have hne : p ≠ s.config.screenPixmap := by simpa using hp
    have hstep : step s (.finish p k) =
        some { exaFinishAccess s p with opened := s.opened.erase (p, k) } := if_pos ho
    have hconfig := exaFinishAccess_config s p
    have h' := inv_step h hstep
    have hu' : UnlockedWrite { exaFinishAccess s p with opened := s.opened.erase (p, k) } := by
      obtain ⟨i, hfind, hneeds⟩ := hu.unlocked
      have hwrites : (s.config.screenPixmap, exaPrepareDest) ∈ s.opened.erase (p, k) :=
        (List.mem_erase_of_ne fun heq => hne (Prod.mk.inj heq).1.symm).mpr hu.writes
      refine ⟨?_, i, ?_, ?_⟩
      · simpa only [WritesScreen, hconfig] using hwrites
      · obtain ⟨j, b, hb, hbp⟩ := h'.covered _ hwrites
        obtain ⟨a, ha, hap⟩ := h.access_of_finish ho hb
        have hfind' := h.find ha (hap.trans hbp)
        rw [hfind, Option.some_inj] at hfind'
        rw [hfind']
        exact h'.find hb (hbp.trans (by rw [hconfig]))
      · simpa only [hconfig] using hneeds
    have hcount : (s.opened.erase (p, k)).countP
        (·.1 ≠ (exaFinishAccess s p).config.screenPixmap) = n := by
      rw [hconfig, List.countP_erase, hn]
      simp [ho, hne]
    obtain ⟨as, t, hrun, hbad⟩ := ih h' hu' hcount
    exact ⟨.finish p k :: as, t, run_cons_eq_some.mpr ⟨_, hstep, hrun⟩, hbad⟩

/-! ### When the screen pixmap is written under the lock -/

/-- In every run in which no bracket that writes the screen pixmap is opened inside
one on it that needed no lock, the screen pixmap is written under the lock and the
lock is given back at the end.  After any run, opening such a bracket can go on to
a write without the lock. -/
theorem screen_write_locked_unless_nested (c : Config) (m : ℕ → Mapping) (as : List Action)
    (s : State) (hrun : run step (initial c m) as = some s) :
    (Meets step NoUnlockedNesting (initial c m) as → Locked s) ∧
      ∀ a s', ¬ NoUnlockedNesting s a → step s a = some s' →
        ∃ bs t, run step s' bs = some t ∧ ¬ Locked t := by
  have hinv : Inv s := run_invariant_of_step (fun s a s' h hs => inv_step h hs)
    (inv_initial c m) hrun
  refine ⟨fun hmeets => hinv.locked ?_, fun a s' hok hstep => ?_⟩
  · have hboth : Inv s ∧ WriteLocked s :=
      run_invariant (I := fun s => Inv s ∧ WriteLocked s)
        (fun s a s' hs hok hstep => ⟨inv_step hs.1 hstep, writeLocked_step hs.1 hs.2 hok hstep⟩)
        ⟨inv_initial c m, fun hw => absurd hw List.not_mem_nil⟩ hmeets hrun
    exact hboth.2
  · exact unlockedWrite_reaches (inv_step hinv hstep) (unlockedWrite_of_nesting hinv hok hstep) rfl

/-- A screen on an `AHardwareBuffer`, pixmap 0, with no copy pending. -/
def idleScreen : Config where
  screenPixmap := 0
  rootGpuCopyPending := 0
  legacyDrawing := false
  buffer _ := some ⟨.ahardwarebuffer, 0⟩

def unmapped (_ : ℕ) : Mapping := ⟨false, false, false⟩

/-- The brackets `ExaCheckCopyArea` opens to copy from pixmap `src` to `dst`. -/
def copyArea (src dst : ℕ) : List Action :=
  [.prepare src exaPrepareSrc false, .prepare dst exaPrepareDest false]

/-- A copy within the screen opens the source first: it writes without the lock. -/
theorem copyArea_within_screen_not_locked :
    ∃ s, run step (initial idleScreen unmapped) (copyArea 0 0) = some s ∧ ¬ Locked s := by
  refine ⟨_, rfl, fun h => ?_⟩
  exact absurd (h.write List.mem_cons_self) (by decide)

/-- A copy from another pixmap to the screen writes under the lock. -/
theorem copyArea_to_screen_locked :
    ∃ s, run step (initial idleScreen unmapped) (copyArea 1 0) = some s ∧ Locked s := by
  obtain ⟨s, hrun⟩ : ∃ s, run step (initial idleScreen unmapped) (copyArea 1 0) = some s :=
    ⟨_, rfl⟩
  refine ⟨s, hrun, (screen_write_locked_unless_nested _ _ _ s hrun).1 ?_⟩
  refine ⟨fun h => absurd h (by decide), fun t ht => ⟨fun _ _ i hi => ?_, fun _ _ => trivial⟩⟩
  obtain rfl := Option.some_inj.mp ht
  exact absurd hi (by decide +revert)

end Lorie.ExaAccess
