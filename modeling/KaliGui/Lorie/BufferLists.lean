/-
The buffers of the renderer, between its two threads (`renderer.cpp`, lines 542 to 580, 734 to
757, 896 to 906 and 1062 to 1168, with the lists and references of `buffer.c`).

The activity's looper adds buffers and takes them away as the server tells it to; the
renderer's thread attaches the added ones to GL, looks buffers up and draws with them, and
releases those that were taken away.  What touches the lists is done with `bufferLock`
held, and is one step here; what is drawn with is used without the lock.

A buffer comes with a reference count that its sender wrote, whatever that is.

* `releaseAll`, `attachAll`, `removeBuffer`, `removeAllBuffers`, `findBuffer` — the code;
* `step` — what the two threads do, in any order;
* `Inv`, `inv_step` — where the buffers are that are not freed;
* `buffers_used_alive` — no buffer is used after it is freed, none is freed twice, and GL's
  are freed by GL's thread alone;
* `ended_frees_all` — the renderer's thread leaves no buffer behind.
-/
import KaliGui.Lib.Run
import KaliGui.Lib.Shelves
import Mathlib.Data.Nat.Notation

namespace Lorie.BufferLists

open Machine Shelves

/-! ### State -/

/-- The threads that run the code. -/
inductive Thread
  | looper
  /-- the one with the GL context -/
  | renderer
  deriving DecidableEq, Repr

inductive Which
  | added
  | buffers
  | removed
  deriving DecidableEq, Repr

/-- A `LorieBuffer`. -/
structure Buffer where
  id : ℕ
  refcount : BitVec 16
  /-- it has a texture -/
  attached : Bool := false
  deriving DecidableEq, Repr

/-- What must not happen. -/
inductive Misuse
  /-- memory that is freed is read, written or freed -/
  | freedUsed (a : ℕ)
  /-- a buffer with a texture is freed without the GL context -/
  | textureLeft (a : ℕ)
  /-- a buffer gets a second texture -/
  | attachedTwice (a : ℕ)
  deriving DecidableEq, Repr

/-- Where the renderer's thread is in `threadLoop`. -/
inductive Pc
  /-- before the added buffers are attached, waiting or not -/
  | top
  /-- after that, before the removed ones are released -/
  | drawing
  /-- past the loop and what is after it -/
  | ended
  deriving DecidableEq, Repr

/-- The thread and the looper, from where `initThread` has run `xorg_list_init` on the lists; the
code does not see to it that the looper's first call comes after that. -/
structure State where
  /-- the memory, by its addresses -/
  heap : ℕ → Option Buffer := fun _ => none
  /-- the buffers received so far -/
  received : ℕ := 0
  lists : Which → List ℕ := fun _ => []
  /-- in the order in which they were freed -/
  freed : List ℕ := []
  misuses : List Misuse := []
  /-- the pointers that the renderer's thread draws with -/
  held : List ℕ := []
  pc : Pc := .top
  stopping : Bool := false

def State.misuse (s : State) (m : Misuse) : State := { s with misuses := s.misuses ++ [m] }

/-! ### Buffers -/

/-- `__LorieBuffer_free` -/
def free (thread : Thread) (a : ℕ) (b : Buffer) (s : State) : State :=
  { s with
    heap := Function.update s.heap a none
    lists := del a s.lists
    freed := s.freed ++ [a]
    misuses := if b.attached ∧ thread ≠ .renderer then s.misuses ++ [.textureLeft a]
      else s.misuses }

/-- `LorieBuffer_release` -/
def release (thread : Thread) (a : ℕ) (s : State) : State :=
  match s.heap a with
  | none => { s.misuse (.freedUsed a) with lists := del a s.lists }
  | some b =>
    if b.refcount = 1 then free thread a b s
    else { s with heap := Function.update s.heap a (some { b with refcount := b.refcount - 1 }) }

/-- `LorieBuffer_addToList` -/
def addToList (l : Which) (a : ℕ) (s : State) : State := { s with lists := add l a s.lists }

/-- `LorieBuffer_attachToGL` -/
def attachToGL (a : ℕ) (s : State) : State :=
  match s.heap a with
  | none => s.misuse (.freedUsed a)
  | some b =>
    { s with
      heap := Function.update s.heap a (some { b with attached := true })
      misuses := if b.attached then s.misuses ++ [.attachedTwice a] else s.misuses }

/-- `LorieBufferList_findById`, which reads the buffers of the list up to the one it finds. -/
def findById (id : ℕ) : List ℕ → State → State × Option ℕ
  | [], s => (s, none)
  | a :: as, s =>
    match s.heap a with
    | none => (s.misuse (.freedUsed a), none)
    | some b => if b.id = id then (s, some a) else findById id as s

/-! ### Loops -/

/-- How often the first buffer of a list has to be released yet, less one. -/
def surplus (l : Which) (s : State) : ℕ :=
  (s.lists l).head?.elim 0 fun a => (s.heap a).elim 0 fun b => (b.refcount - 1).toNat

theorem release_lt {thread : Thread} {l : Which} {a : ℕ} {as : List ℕ} {s : State}
    (h : s.lists l = a :: as) :
    Prod.Lex (· < ·) (· < ·) (((release thread a s).lists l).length, surplus l (release thread a s))
      ((s.lists l).length, surplus l s) := by
  have hlength : (del a s.lists l).length < (s.lists l).length := by
    refine length_del_lt ?_
    rw [h]
    exact List.mem_cons_self
  rw [release]
  cases hb : s.heap a with
  | none => exact .left _ _ hlength
  | some b =>
    dsimp only
    split
    · exact .left _ _ hlength
    · rename_i hcount
      refine .right _ ?_
      simp only [surplus, h, hb, List.head?_cons, Option.elim_some, Function.update_self]
      bv_omega

/-- The loop that releases the first buffer of a list until there is none. -/
def releaseAll (thread : Thread) (l : Which) (s : State) : State :=
  match _h : s.lists l with
  | [] => s
  | a :: _ => releaseAll thread l (release thread a s)
termination_by ((s.lists l).length, surplus l s)
decreasing_by exact release_lt _h

theorem addToList_lt {l m : Which} {a : ℕ} {as : List ℕ} {s : State} (h : s.lists l = a :: as)
    (hne : l ≠ m) : ((addToList m a s).lists l).length < (s.lists l).length := by
  show (add m a s.lists l).length < (s.lists l).length
  rw [add_of_ne hne]
  refine length_del_lt ?_
  rw [h]
  exact List.mem_cons_self

theorem attachToGL_lists (a : ℕ) (s : State) : (attachToGL a s).lists = s.lists := by
  rw [attachToGL]
  split
  · rfl
  · rfl

/-- The loop of `threadLoop` that attaches the first of the added buffers until there is none. -/
def attachAll (s : State) : State :=
  match _h : s.lists .added with
  | [] => s
  | a :: _ => attachAll (addToList .buffers a (attachToGL a s))
termination_by (s.lists .added).length
decreasing_by
  have hlt := addToList_lt (s := attachToGL a s) ((congrFun (attachToGL_lists a s) _).trans _h)
    (show Which.added ≠ .buffers by decide)
  rwa [congrFun (attachToGL_lists a s) .added] at hlt

/-- The second loop of `removeAllBuffers`. -/
def retireAll (s : State) : State :=
  match _h : s.lists .buffers with
  | [] => s
  | a :: _ => retireAll (addToList .removed a s)
termination_by (s.lists .buffers).length
decreasing_by exact addToList_lt _h (by decide)

/-- What relates the end of a loop to its start, from the last buffer to the first. -/
theorem releaseAll_loop {thread : Thread} {l : Which} {R : State → State → Prop}
    (nil : ∀ s, s.lists l = [] → R s s)
    (cons : ∀ s a as t, s.lists l = a :: as → R (release thread a s) t → R s t) (s : State) :
    R s (releaseAll thread l s) := by
  induction s using releaseAll.induct thread l with
  | case1 s hnil =>
    rw [releaseAll, hnil]
    exact nil s hnil
  | case2 s a as hcons ih =>
    rw [releaseAll, hcons]
    exact cons s a as _ hcons ih

theorem attachAll_loop {R : State → State → Prop} (nil : ∀ s, s.lists .added = [] → R s s)
    (cons : ∀ s a as t, s.lists .added = a :: as →
      R (addToList .buffers a (attachToGL a s)) t → R s t) (s : State) :
    R s (attachAll s) := by
  induction s using attachAll.induct with
  | case1 s hnil =>
    rw [attachAll, hnil]
    exact nil s hnil
  | case2 s a as hcons ih =>
    rw [attachAll, hcons]
    exact cons s a as _ hcons ih

theorem retireAll_loop {R : State → State → Prop} (nil : ∀ s, s.lists .buffers = [] → R s s)
    (cons : ∀ s a as t, s.lists .buffers = a :: as → R (addToList .removed a s) t → R s t)
    (s : State) : R s (retireAll s) := by
  induction s using retireAll.induct with
  | case1 s hnil =>
    rw [retireAll, hnil]
    exact nil s hnil
  | case2 s a as hcons ih =>
    rw [retireAll, hcons]
    exact cons s a as _ hcons ih

/-! ### Looper and renderer -/

/-- `addBuffer`, of a buffer that was received just now. -/
def addBuffer (id : ℕ) (refcount : BitVec 16) (s : State) : State :=
  addToList .added s.received
    { s with
      heap := Function.update s.heap s.received (some { id, refcount })
      received := s.received + 1 }

def removeBuffer (id : ℕ) (s : State) : State :=
  let (s, found) := findById id (s.lists .added) s
  match found with
  | some a => release .looper a s
  | none =>
    let (s, found) := findById id (s.lists .buffers) s
    match found with
    | some a => addToList .removed a s
    | none => s

def removeAllBuffers (thread : Thread) (s : State) : State :=
  retireAll (releaseAll thread .added s)

/-- The renderer's thread keeps the pointer that it has found. -/
def State.hold (s : State) (found : Option ℕ) : State := { s with held := found.toList ++ s.held }

/-- What `findBufferWithRetry` does each time it has the lock, until it finds something. -/
def findBuffer (id : ℕ) (s : State) : State :=
  let (s, found) := findById id (s.lists .buffers) s
  match found with
  | some a => s.hold (some a)
  | none =>
    let (s, found) := findById id (s.lists .added) s
    match found with
    | some a => (addToList .buffers a (attachToGL a s)).hold (some a)
    | none => s

/-- What `redrawLocked` does with the lock: it also displays a removed buffer one last time. -/
def findRoot (id : ℕ) (s : State) : State :=
  let (s, found) := findById id (s.lists .buffers) s
  match found with
  | some a => s.hold (some a)
  | none =>
    let (s, found) := findById id (s.lists .removed) s
    s.hold found

/-- What is drawn reads the buffers it is drawn with. -/
def use (s : State) : State :=
  { s with misuses :=
      s.misuses ++ (s.held.filter fun a => (s.heap a).isNone).map Misuse.freedUsed }

/-! ### Steps -/

inductive Act
  | addBuffer (id : ℕ) (refcount : BitVec 16)
  | removeBuffer (id : ℕ)
  | removeAllBuffers
  /-- `destroy`; the looper waits for the renderer's thread from here on -/
  | destroy
  /-- the renderer's thread attaches what was added -/
  | attach
  | findBuffer (id : ℕ)
  | findRoot (id : ℕ)
  /-- it draws with what it has found -/
  | use
  /-- it releases what was removed, and goes back to the top of the loop -/
  | release
  /-- it leaves the loop, and frees what is left -/
  | exit
  deriving DecidableEq, Repr

def step (s : State) : Act → Option State
  | .addBuffer id refcount => if s.stopping then none else some (addBuffer id refcount s)
  | .removeBuffer id => if s.stopping then none else some (removeBuffer id s)
  | .removeAllBuffers => if s.stopping then none else some (removeAllBuffers .looper s)
  | .destroy => if s.stopping then none else some { s with stopping := true }
  | .attach =>
    if s.pc = .top ∧ s.stopping = false then some { attachAll s with pc := .drawing } else none
  | .findBuffer id => if s.pc = .drawing then some (findBuffer id s) else none
  | .findRoot id => if s.pc = .drawing then some (findRoot id s) else none
  | .use => if s.pc = .drawing then some (use s) else none
  | .release =>
    if s.pc = .drawing then
      some (releaseAll .renderer .removed { s with held := [], pc := .top })
    else none
  | .exit =>
    if s.pc = .top ∧ s.stopping = true then
      some { releaseAll .renderer .removed (removeAllBuffers .renderer s) with pc := .ended }
    else none

/-! ### Where the buffers are -/

/-- A buffer that is not freed is in one of the lists, those with a texture in one of the
last two; the renderer's thread draws with these. -/
structure Inv (s : State) : Prop where
  apart : Apart s.lists
  live : ∀ a, (s.heap a).isSome = true ↔ ∃ l, a ∈ s.lists l
  attached : ∀ a b, s.heap a = some b → (b.attached = true ↔ a ∉ s.lists .added)
  received : ∀ a, s.received ≤ a → s.heap a = none
  freed : s.freed.Nodup
  account : ∀ a, a ∈ s.freed ↔ a < s.received ∧ s.heap a = none
  held : ∀ a ∈ s.held, a ∈ s.lists .buffers ∨ a ∈ s.lists .removed
  resting : s.pc ≠ .drawing → s.held = []
  ended : s.pc = .ended → s.stopping = true ∧ ∀ l, s.lists l = []
  sound : s.misuses = []

theorem inv_initial : Inv {} where
  apart := ⟨fun _ => List.nodup_nil, fun _ _ _ h => absurd h List.not_mem_nil⟩
  live _ := by
    refine iff_of_false Bool.false_ne_true ?_
    rintro ⟨_, h⟩
    exact List.not_mem_nil h
  attached _ _ h := absurd h.symm (Option.some_ne_none _)
  received _ _ := rfl
  freed := List.nodup_nil
  account a := iff_of_false List.not_mem_nil fun h => absurd h.1 (Nat.not_lt_zero a)
  held _ h := absurd h List.not_mem_nil
  resting _ := rfl
  ended h := Pc.noConfusion h
  sound := rfl

variable {s s' : State} {thread : Thread} {l m : Which} {a c : ℕ} {b b' : Buffer}

theorem Inv.isSome (h : Inv s) (ha : a ∈ s.lists l) : (s.heap a).isSome = true :=
  (h.live a).mpr ⟨l, ha⟩

theorem Inv.lt (h : Inv s) (hb : s.heap a = some b) : a < s.received := by
  by_contra hge
  exact absurd (hb.symm.trans (h.received a (by omega))) (Option.some_ne_none b)

theorem Inv.not_ended (h : Inv s) (ha : a ∈ s.lists l) : s.pc ≠ .ended := by
  intro hpc
  have hempty := (h.ended hpc).2 l
  rw [hempty] at ha
  exact absurd ha List.not_mem_nil

/-- A buffer is freed that nobody draws with, by the renderer's thread if it has a texture. -/
theorem Inv.free (h : Inv s) (ha : a ∈ s.lists l) (hb : s.heap a = some b) (hheld : a ∉ s.held)
    (hthread : l = .added ∨ thread = .renderer) : Inv (free thread a b s) where
  apart := h.apart.del a
  live c := by
    show (Function.update s.heap a none c).isSome = true ↔ ∃ l, c ∈ del a s.lists l
    by_cases hc : c = a
    · subst hc
      rw [Function.update_self]
      refine iff_of_false Bool.false_ne_true ?_
      rintro ⟨_, hmem⟩
      exact (mem_del.mp hmem).2 rfl
    · rw [Function.update_of_ne hc, h.live c]
      refine exists_congr fun l => ?_
      rw [mem_del, and_iff_left hc]
  attached c b' hc := by
    have hca : c ≠ a := by
      rintro rfl
      exact absurd ((Function.update_self ..).symm.trans hc).symm (Option.some_ne_none b')
    have hold : s.heap c = some b' := (Function.update_of_ne hca ..).symm.trans hc
    show b'.attached = true ↔ c ∉ del a s.lists .added
    rw [mem_del, and_iff_left hca]
    exact h.attached c b' hold
  received c hc := by
    show Function.update s.heap a none c = none
    by_cases hca : c = a
    · rw [hca, Function.update_self]
    · rw [Function.update_of_ne hca]
      exact h.received c hc
  freed := by
    refine h.freed.append (List.nodup_singleton a) ?_
    intro x hx hxa
    rw [List.mem_singleton] at hxa
    have hnone := ((h.account x).mp hx).2
    rw [hxa, hb] at hnone
    exact Option.some_ne_none b hnone
  account c := by
    show c ∈ s.freed ++ [a] ↔ c < s.received ∧ Function.update s.heap a none c = none
    rw [List.mem_append, List.mem_singleton, h.account c]
    by_cases hca : c = a
    · subst hca
      rw [Function.update_self]
      exact iff_of_true (.inr rfl) ⟨h.lt hb, rfl⟩
    · rw [Function.update_of_ne hca, or_iff_left hca]
  held c hc := by
    have hca : c ≠ a := fun heq => hheld (heq ▸ hc)
    show c ∈ del a s.lists .buffers ∨ c ∈ del a s.lists .removed
    rw [mem_del, mem_del, and_iff_left hca, and_iff_left hca]
    exact h.held c hc
  resting := h.resting
  ended hpc := absurd hpc (h.not_ended ha)
  sound := by
    show (if b.attached ∧ thread ≠ .renderer then _ else s.misuses) = []
    -- the texture is deleted by the thread that has the context, or there is none
    rw [if_neg, h.sound]
    rintro ⟨hattached, hlooper⟩
    rcases hthread with rfl | hrenderer
    · exact (h.attached a b hb).mp hattached ha
    · exact hlooper hrenderer

/-- A buffer stays in its list, and as far as its texture goes as it was. -/
theorem Inv.set (h : Inv s) (hb : s.heap a = some b) (hsame : b'.attached = b.attached) :
    Inv { s with heap := Function.update s.heap a (some b') } where
  apart := h.apart
  live c := by
    rw [← h.live c]
    show (Function.update s.heap a (some b') c).isSome = true ↔ _
    by_cases hca : c = a
    · subst hca
      rw [Function.update_self, hb]
      exact iff_of_true rfl rfl
    · rw [Function.update_of_ne hca]
  attached c b'' hc := by
    have hnew : Function.update s.heap a (some b') c = some b'' := hc
    by_cases hca : c = a
    · subst hca
      rw [Function.update_self, Option.some_inj] at hnew
      rw [← hnew, hsame]
      exact h.attached c b hb
    · rw [Function.update_of_ne hca] at hnew
      exact h.attached c b'' hnew
  received c hc := by
    have hlt := h.lt hb
    have hle : s.received ≤ c := hc
    have hca : c ≠ a := by omega
    exact (Function.update_of_ne hca ..).trans (h.received c hle)
  freed := h.freed
  account c := by
    rw [h.account c]
    show _ ↔ c < s.received ∧ Function.update s.heap a (some b') c = none
    by_cases hca : c = a
    · subst hca
      rw [Function.update_self, hb]
      simp
    · rw [Function.update_of_ne hca]
  held := h.held
  resting := h.resting
  ended := h.ended
  sound := h.sound

/-- A buffer is put in a list, as that list has its buffers. -/
theorem Inv.place (h : Inv s) (hb : s.heap a = some b) (hattached : b'.attached = true ↔ l ≠ .added)
    (hheld : a ∈ s.held → l ≠ .added) :
    Inv { s with heap := Function.update s.heap a (some b'), lists := add l a s.lists } where
  apart := h.apart.add l a
  live c := by
    show (Function.update s.heap a (some b') c).isSome = true ↔ ∃ m, c ∈ add l a s.lists m
    -- the buffer itself, or one that the step does not touch
    by_cases hca : c = a
    · subst hca
      rw [Function.update_self]
      exact iff_of_true rfl ⟨l, mem_add.mpr (.inl ⟨rfl, rfl⟩)⟩
    · rw [Function.update_of_ne hca, h.live c]
      refine exists_congr fun m => ?_
      rw [mem_add, and_iff_left hca, or_iff_right fun hboth => hca hboth.1]
  attached c b'' hc := by
    show b''.attached = true ↔ c ∉ add l a s.lists .added
    have hnew : Function.update s.heap a (some b') c = some b'' := hc
    rw [mem_add]
    by_cases hca : c = a
    · subst hca
      rw [Function.update_self, Option.some_inj] at hnew
      rw [← hnew, hattached]
      simp [eq_comm]
    · rw [Function.update_of_ne hca] at hnew
      rw [and_iff_left hca, or_iff_right fun hboth => hca hboth.1]
      exact h.attached c b'' hnew
  received c hc := by
    have hlt := h.lt hb
    have hle : s.received ≤ c := hc
    have hca : c ≠ a := by omega
    exact (Function.update_of_ne hca ..).trans (h.received c hle)
  freed := h.freed
  account c := by
    rw [h.account c]
    show _ ↔ c < s.received ∧ Function.update s.heap a (some b') c = none
    by_cases hca : c = a
    · subst hca
      rw [Function.update_self, hb]
      simp
    · rw [Function.update_of_ne hca]
  held c hc := by
    show c ∈ add l a s.lists .buffers ∨ c ∈ add l a s.lists .removed
    rw [mem_add, mem_add]
    by_cases hca : c = a
    · subst hca
      cases l with
      | added => exact absurd rfl (hheld hc)
      | buffers => exact .inl (.inl ⟨rfl, rfl⟩)
      | removed => exact .inr (.inl ⟨rfl, rfl⟩)
    · rw [and_iff_left hca, and_iff_left hca]
      exact (h.held c hc).imp .inr .inr
  resting := h.resting
  ended hpc := by
    obtain ⟨m, hm⟩ := (h.live a).mp (Option.isSome_iff_exists.mpr ⟨b, hb⟩)
    exact absurd hpc (h.not_ended hm)
  sound := h.sound

/-- The buffers stay as they are. -/
theorem Inv.move (h : Inv s) {pc : Pc} {held : List ℕ} {stopping : Bool}
    (hheld : ∀ a ∈ held, a ∈ s.lists .buffers ∨ a ∈ s.lists .removed)
    (hresting : pc ≠ .drawing → held = [])
    (hended : pc = .ended → stopping = true ∧ ∀ l, s.lists l = []) :
    Inv { s with pc, held, stopping } where
  apart := h.apart
  live := h.live
  attached := h.attached
  received := h.received
  freed := h.freed
  account := h.account
  held := hheld
  resting := hresting
  ended := hended
  sound := h.sound

/-! ### What the operations keep -/

/-- What the renderer's thread is at does not change, and no list gains a buffer. -/
structure Shrinks (s s' : State) : Prop where
  held : s'.held = s.held
  pc : s'.pc = s.pc
  stopping : s'.stopping = s.stopping
  mem : ∀ l a, a ∈ s'.lists l → a ∈ s.lists l

theorem Shrinks.refl (s : State) : Shrinks s s := ⟨rfl, rfl, rfl, fun _ _ h => h⟩

theorem Shrinks.trans {s'' : State} (h : Shrinks s s') (h' : Shrinks s' s'') : Shrinks s s'' where
  held := h'.held.trans h.held
  pc := h'.pc.trans h.pc
  stopping := h'.stopping.trans h.stopping
  mem l a ha := h.mem l a (h'.mem l a ha)

theorem Shrinks.eq_nil (h : Shrinks s s') (hl : s.lists l = []) : s'.lists l = [] := by
  refine List.eq_nil_iff_forall_not_mem.mpr fun a ha => ?_
  have hmem := h.mem l a ha
  rw [hl] at hmem
  exact List.not_mem_nil hmem

theorem release_shrinks (thread : Thread) (a : ℕ) (s : State) :
    Shrinks s (release thread a s) := by
  rw [release]
  split
  · exact ⟨rfl, rfl, rfl, fun l c hc => (mem_del.mp hc).1⟩
  · split
    · exact ⟨rfl, rfl, rfl, fun l c hc => (mem_del.mp hc).1⟩
    · exact ⟨rfl, rfl, rfl, fun l c hc => hc⟩

theorem releaseAll_shrinks (thread : Thread) (l : Which) (s : State) :
    Shrinks s (releaseAll thread l s) := by
  refine releaseAll_loop (R := Shrinks) (fun s _ => .refl s) ?_ s
  intro s a as t _ ih
  exact (release_shrinks thread a s).trans ih

theorem releaseAll_eq_nil (thread : Thread) (l : Which) (s : State) :
    (releaseAll thread l s).lists l = [] := by
  refine releaseAll_loop (R := fun _ t => t.lists l = []) (fun s hnil => hnil) ?_ s
  intro s a as t _ ih
  exact ih

theorem Inv.release (h : Inv s) (ha : a ∈ s.lists l) (hheld : a ∉ s.held)
    (hthread : l = .added ∨ thread = .renderer) : Inv (release thread a s) := by
  obtain ⟨b, hb⟩ := Option.isSome_iff_exists.mp (h.isSome ha)
  rw [BufferLists.release, hb]
  dsimp only
  split
  · exact h.free ha hb hheld hthread
  · exact h.set hb rfl

theorem Inv.releaseAll (h : Inv s) (hheld : ∀ a ∈ s.lists l, a ∉ s.held)
    (hthread : l = .added ∨ thread = .renderer) : Inv (releaseAll thread l s) := by
  refine releaseAll_loop (R := fun s t => Inv s → (∀ a ∈ s.lists l, a ∉ s.held) → Inv t)
    (fun s _ h _ => h) ?_ s h hheld
  intro s a as t hcons ih h hheld
  have ha : a ∈ s.lists l := by
    rw [hcons]
    exact List.mem_cons_self
  have hshrinks := release_shrinks thread a s
  refine ih (h.release ha (hheld a ha) hthread) fun c hc => ?_
  rw [hshrinks.held]
  exact hheld c (hshrinks.mem l c hc)

/-- The renderer's thread does not draw with a buffer that was only added. -/
theorem Inv.notHeld (h : Inv s) (ha : a ∈ s.lists .added) : a ∉ s.held := by
  intro hheld
  rcases h.held a hheld with hmem | hmem
  · exact absurd (h.apart.same a _ _ ha hmem) (by decide)
  · exact absurd (h.apart.same a _ _ ha hmem) (by decide)

/-- A buffer that was added is attached, once. -/
theorem Inv.attach (h : Inv s) (ha : a ∈ s.lists .added) :
    Inv (addToList .buffers a (attachToGL a s)) := by
  obtain ⟨b, hb⟩ := Option.isSome_iff_exists.mp (h.isSome ha)
  have hnot : ¬b.attached = true := fun hattached => (h.attached a b hb).mp hattached ha
  have heq : addToList .buffers a (attachToGL a s) =
      { s with
        heap := Function.update s.heap a (some { b with attached := true })
        lists := add .buffers a s.lists } := by
    rw [addToList, attachToGL, hb]
    dsimp only
    rw [if_neg hnot]
  rw [heq]
  exact h.place hb (iff_of_true rfl (by decide)) fun _ => by decide

/-- A buffer with a texture goes to another list of these. -/
theorem Inv.relist (h : Inv s) (ha : a ∈ s.lists l) (hl : l ≠ .added) (hm : m ≠ .added) :
    Inv (addToList m a s) := by
  obtain ⟨b, hb⟩ := Option.isSome_iff_exists.mp (h.isSome ha)
  have hattached := (h.attached a b hb).mpr (h.apart.notMem ha hl.symm)
  have heq : addToList m a s =
      { s with heap := Function.update s.heap a (some b), lists := add m a s.lists } := by
    rw [addToList, ← hb, Function.update_eq_self]
  rw [heq]
  exact h.place hb (iff_of_true hattached hm) fun _ => hm

theorem Inv.attachAll (h : Inv s) :
    Inv (attachAll s) ∧ (attachAll s).held = s.held ∧ (attachAll s).stopping = s.stopping := by
  refine attachAll_loop
    (R := fun s t => Inv s → Inv t ∧ t.held = s.held ∧ t.stopping = s.stopping)
    (fun s _ h => ⟨h, rfl, rfl⟩) ?_ s h
  intro s a as t hcons ih h
  have ha : a ∈ s.lists .added := by
    rw [hcons]
    exact List.mem_cons_self
  obtain ⟨hinv, hheld, hstopping⟩ := ih (h.attach ha)
  refine ⟨hinv, hheld.trans ?_, hstopping.trans ?_⟩
  · rw [addToList, attachToGL]
    split <;> rfl
  · rw [addToList, attachToGL]
    split <;> rfl

theorem Inv.retireAll (h : Inv s) :
    Inv (retireAll s) ∧ (retireAll s).lists .buffers = [] ∧
      (s.lists .added = [] → (retireAll s).lists .added = []) ∧ (retireAll s).pc = s.pc ∧
      (retireAll s).held = s.held ∧ (retireAll s).stopping = s.stopping := by
  refine retireAll_loop
    (R := fun s t => Inv s → Inv t ∧ t.lists .buffers = [] ∧
      (s.lists .added = [] → t.lists .added = []) ∧ t.pc = s.pc ∧ t.held = s.held ∧
      t.stopping = s.stopping)
    (fun s hnil h => ⟨h, hnil, fun hadded => hadded, rfl, rfl, rfl⟩) ?_ s h
  intro s a as t hcons ih h
  have ha : a ∈ s.lists .buffers := by
    rw [hcons]
    exact List.mem_cons_self
  obtain ⟨hinv, hbuffers, hadded, hrest⟩ := ih (h.relist ha (by decide) (by decide))
  refine ⟨hinv, hbuffers, fun hnil => hadded ?_, hrest⟩
  show add .removed a s.lists .added = []
  rw [add_of_ne (by decide), del, hnil, List.filter_nil]

theorem Inv.removeAllBuffers (h : Inv s) (thread : Thread) :
    Inv (removeAllBuffers thread s) ∧ (removeAllBuffers thread s).lists .buffers = [] ∧
      (removeAllBuffers thread s).lists .added = [] ∧ (removeAllBuffers thread s).pc = s.pc ∧
      (removeAllBuffers thread s).held = s.held ∧
      (removeAllBuffers thread s).stopping = s.stopping := by
  have hshrinks := releaseAll_shrinks thread .added s
  have hreleased : Inv (BufferLists.releaseAll thread .added s) :=
    h.releaseAll (fun a ha => h.notHeld ha) (.inl rfl)
  obtain ⟨hinv, hbuffers, hadded, hpc, hheld, hstopping⟩ := hreleased.retireAll
  exact ⟨hinv, hbuffers, hadded (releaseAll_eq_nil thread .added s), hpc.trans hshrinks.pc,
    hheld.trans hshrinks.held, hstopping.trans hshrinks.stopping⟩

/-! ### Lookups -/

/-- What a buffer is asked for by. -/
def State.idOf (s : State) (a : ℕ) : Option ℕ := (s.heap a).map Buffer.id

theorem findById_eq {id : ℕ} {as : List ℕ} (h : ∀ a ∈ as, (s.heap a).isSome = true) :
    findById id as s = (s, as.find? fun a => s.idOf a = some id) := by
  induction as with
  | nil => rfl
  | cons a as ih =>
    obtain ⟨b, hb⟩ := Option.isSome_iff_exists.mp (h a List.mem_cons_self)
    have hid : s.idOf a = some b.id := by rw [State.idOf, hb, Option.map_some]
    rw [findById, hb]
    dsimp only
    by_cases hc : b.id = id
    · rw [if_pos hc, List.find?_cons_of_pos]
      rw [hid, hc, decide_eq_true_eq]
    · rw [if_neg hc, List.find?_cons_of_neg, ih fun c hmem => h c (List.mem_cons_of_mem a hmem)]
      rw [hid, decide_eq_true_eq, Option.some_inj]
      exact hc

/-- No buffer that is freed is read in a lookup. -/
theorem Inv.findById (h : Inv s) (id : ℕ) (l : Which) :
    findById id (s.lists l) s = (s, (s.lists l).find? fun a => s.idOf a = some id) :=
  findById_eq fun _ ha => h.isSome ha

theorem Inv.hold (h : Inv s) (hpc : s.pc = .drawing)
    (ha : a ∈ s.lists .buffers ∨ a ∈ s.lists .removed) : Inv (s.hold (some a)) := by
  show Inv { s with held := a :: s.held }
  refine h.move ?_ (fun hne => absurd hpc hne) h.ended
  intro c hc
  rcases List.mem_cons.mp hc with rfl | hmem
  · exact ha
  · exact h.held c hmem

/-! ### Steps keep the invariant -/

theorem Inv.addBuffer (h : Inv s) (hpc : s.pc ≠ .ended) (id : ℕ) (refcount : BitVec 16) :
    Inv (addBuffer id refcount s) := by
  have hnone := h.received s.received (Nat.le_refl _)
  have hnowhere : ∀ l, s.received ∉ s.lists l := by
    intro l hl
    have hsome := h.isSome hl
    rw [hnone] at hsome
    exact Bool.false_ne_true hsome
  -- the address is a new one, and in no list so far
  refine ⟨h.apart.add _ _, ?_, ?_, ?_, h.freed, ?_, ?_, h.resting, fun hended => absurd hended hpc,
    h.sound⟩
  · intro c
    show (Function.update s.heap s.received (some { id, refcount }) c).isSome = true ↔
      ∃ l, c ∈ add .added s.received s.lists l
    by_cases hca : c = s.received
    · rw [hca, Function.update_self]
      exact iff_of_true rfl ⟨.added, mem_add.mpr (.inl ⟨rfl, rfl⟩)⟩
    · rw [Function.update_of_ne hca, h.live c]
      refine exists_congr fun l => ?_
      rw [mem_add, and_iff_left hca, or_iff_right fun hboth => hca hboth.1]
  · intro c b hc
    have hnew : Function.update s.heap s.received (some { id, refcount }) c = some b := hc
    show b.attached = true ↔ c ∉ add .added s.received s.lists .added
    rw [mem_add]
    by_cases hca : c = s.received
    · rw [hca, Function.update_self, Option.some_inj] at hnew
      rw [← hnew]
      exact iff_of_false Bool.false_ne_true (not_not_intro (.inl ⟨hca, rfl⟩))
    · rw [Function.update_of_ne hca] at hnew
      rw [and_iff_left hca, or_iff_right fun hboth => hca hboth.1]
      exact h.attached c b hnew
  · intro c hc
    have hle : s.received + 1 ≤ c := hc
    have hca : c ≠ s.received := by omega
    exact (Function.update_of_ne hca ..).trans (h.received c (by omega))
  · intro c
    show c ∈ s.freed ↔ c < s.received + 1 ∧
      Function.update s.heap s.received (some { id, refcount }) c = none
    rw [h.account c]
    by_cases hca : c = s.received
    · rw [hca, Function.update_self]
      exact iff_of_false (fun hlt => Nat.lt_irrefl _ hlt.1) fun hnew => Option.some_ne_none _ hnew.2
    · rw [Function.update_of_ne hca]
      exact and_congr_left' (by omega)
  · intro c hc
    have hca : c ≠ s.received := by
      rintro rfl
      rcases h.held _ hc with hmem | hmem
      · exact hnowhere _ hmem
      · exact hnowhere _ hmem
    show c ∈ add .added s.received s.lists .buffers ∨ c ∈ add .added s.received s.lists .removed
    rw [mem_add, mem_add, and_iff_left hca, and_iff_left hca]
    exact (h.held c hc).imp .inr .inr

theorem Inv.removeBuffer (h : Inv s) (id : ℕ) : Inv (removeBuffer id s) := by
  rw [BufferLists.removeBuffer, h.findById]
  dsimp only
  split
  · rename_i a ha
    have hmem := List.mem_of_find?_eq_some ha
    exact h.release hmem (h.notHeld hmem) (.inl rfl)
  · rw [h.findById]
    dsimp only
    split
    · rename_i a ha
      exact h.relist (List.mem_of_find?_eq_some ha) (by decide) (by decide)
    · exact h

theorem Inv.findBuffer (h : Inv s) (hpc : s.pc = .drawing) (id : ℕ) : Inv (findBuffer id s) := by
  rw [BufferLists.findBuffer, h.findById]
  dsimp only
  split
  · rename_i a ha
    exact h.hold hpc (.inl (List.mem_of_find?_eq_some ha))
  · rw [h.findById]
    dsimp only
    split
    · rename_i a ha
      have hmem := List.mem_of_find?_eq_some ha
      refine (h.attach hmem).hold ?_ (.inl ?_)
      · rw [addToList, attachToGL]
        split <;> exact hpc
      · show a ∈ add .buffers a (attachToGL a s).lists .buffers
        rw [add_self]
        exact List.mem_cons_self
    · exact h

theorem Inv.findRoot (h : Inv s) (hpc : s.pc = .drawing) (id : ℕ) : Inv (findRoot id s) := by
  rw [BufferLists.findRoot, h.findById]
  dsimp only
  split
  · rename_i a ha
    exact h.hold hpc (.inl (List.mem_of_find?_eq_some ha))
  · rw [h.findById]
    dsimp only
    cases ha : (s.lists .removed).find? fun a => s.idOf a = some id with
    | none => exact h
    | some a => exact h.hold hpc (.inr (List.mem_of_find?_eq_some ha))

/-- What the renderer's thread draws with is there. -/
theorem Inv.use (h : Inv s) : use s = s := by
  have hnone : s.held.filter (fun a => (s.heap a).isNone) = [] := by
    refine List.filter_eq_nil_iff.mpr fun a ha => ?_
    have hsome : (s.heap a).isSome = true := by
      rcases h.held a ha with hmem | hmem
      · exact h.isSome hmem
      · exact h.isSome hmem
    rw [← Option.not_isSome, hsome]
    exact Bool.false_ne_true
  rw [BufferLists.use, hnone, List.map_nil, List.append_nil]

theorem inv_step (s : State) (act : Act) (s' : State) (h : Inv s) (hs : step s act = some s') :
    Inv s' := by
  have running : s.stopping = false → s.pc ≠ .ended := by
    intro hstopping hpc
    rw [(h.ended hpc).1] at hstopping
    exact Bool.noConfusion hstopping
  cases act with
  | addBuffer id refcount =>
    obtain ⟨hstopping, rfl⟩ := disabled_eq_some.mp hs
    exact h.addBuffer (running (Bool.eq_false_iff.mpr hstopping)) id refcount
  | removeBuffer id =>
    obtain ⟨-, rfl⟩ := disabled_eq_some.mp hs
    exact h.removeBuffer id
  | removeAllBuffers =>
    obtain ⟨-, rfl⟩ := disabled_eq_some.mp hs
    exact (h.removeAllBuffers .looper).1
  | destroy =>
    obtain ⟨-, rfl⟩ := disabled_eq_some.mp hs
    exact h.move h.held h.resting fun hpc => ⟨rfl, (h.ended hpc).2⟩
  | attach =>
    obtain ⟨-, rfl⟩ := enabled_eq_some.mp hs
    exact h.attachAll.1.move h.attachAll.1.held (fun hne => absurd rfl hne) Pc.noConfusion
  | findBuffer id =>
    obtain ⟨hpc, rfl⟩ := enabled_eq_some.mp hs
    exact h.findBuffer hpc id
  | findRoot id =>
    obtain ⟨hpc, rfl⟩ := enabled_eq_some.mp hs
    exact h.findRoot hpc id
  | use =>
    obtain ⟨-, rfl⟩ := enabled_eq_some.mp hs
    rw [h.use]
    exact h
  | release =>
    obtain ⟨-, rfl⟩ := enabled_eq_some.mp hs
    have hmove : Inv { s with held := [], pc := .top } :=
      h.move (fun _ hc => absurd hc List.not_mem_nil) (fun _ => rfl) Pc.noConfusion
    exact hmove.releaseAll (fun _ _ => List.not_mem_nil) (.inr rfl)
  | exit =>
    obtain ⟨⟨hpc, hstopping⟩, rfl⟩ := enabled_eq_some.mp hs
    obtain ⟨hinv, hbuffers, hadded, -, hheld, hstop⟩ := h.removeAllBuffers .renderer
    -- the thread holds nothing at the top of its loop
    have hnone : (removeAllBuffers .renderer s).held = [] := by
      rw [hheld, h.resting (by rw [hpc]; decide)]
    have hall :
        Inv (BufferLists.releaseAll .renderer .removed (removeAllBuffers .renderer s)) :=
      hinv.releaseAll (fun a _ => by rw [hnone]; exact List.not_mem_nil) (.inr rfl)
    have hshrinks := releaseAll_shrinks .renderer .removed (removeAllBuffers .renderer s)
    refine hall.move hall.held (fun _ => hshrinks.held.trans hnone) fun _ => ⟨?_, fun l => ?_⟩
    · exact hshrinks.stopping.trans (hstop.trans hstopping)
    · cases l with
      | added => exact hshrinks.eq_nil hadded
      | buffers => exact hshrinks.eq_nil hbuffers
      | removed => exact releaseAll_eq_nil .renderer .removed _

/-! ### Runs -/

theorem inv_run {acts : List Act} (hrun : run step {} acts = some s) : Inv s :=
  run_invariant_of_step inv_step inv_initial hrun

/-- Whatever the two threads do, in whatever order: memory that is freed is not touched, a
buffer is freed once and gets one texture, which GL's thread frees; what is drawn with is
there and has its texture, and a buffer that is there is in one list. -/
theorem buffers_used_alive {acts : List Act} (hrun : run step {} acts = some s) :
    s.misuses = [] ∧ s.freed.Nodup ∧
      (∀ a ∈ s.held, ∃ b, s.heap a = some b ∧ b.attached = true) ∧
      ∀ a b, s.heap a = some b → ∃! l, a ∈ s.lists l := by
  have h := inv_run hrun
  refine ⟨h.sound, h.freed, fun a ha => ?_, fun a b hb => ?_⟩
  · have hmem := h.held a ha
    obtain ⟨b, hb⟩ : ∃ b, s.heap a = some b := by
      rcases hmem with hl | hl
      · exact Option.isSome_iff_exists.mp (h.isSome hl)
      · exact Option.isSome_iff_exists.mp (h.isSome hl)
    refine ⟨b, hb, (h.attached a b hb).mpr fun hadded => ?_⟩
    exact h.notHeld hadded ha
  · obtain ⟨l, hl⟩ := (h.live a).mp (Option.isSome_iff_exists.mpr ⟨b, hb⟩)
    exact ⟨l, hl, fun m hm => h.apart.same a m l hm hl⟩

/-- A buffer is drawn with while the looper takes it away, and one is taken away that was not
attached yet. -/
def drawnRemoved : List Act :=
  [.addBuffer 7 1, .addBuffer 8 2, .attach, .findBuffer 7, .addBuffer 9 1, .removeBuffer 7,
    .removeBuffer 9, .use]

theorem drawnRemoved_alive : ∃ s, run step {} drawnRemoved = some s ∧
    s.held = [0] ∧ s.freed = [2] ∧ s.misuses = [] := by
  have heval : (run step {} drawnRemoved).map (fun s => (s.held, s.freed)) = some ([0], [2]) := by
    decide +kernel
  obtain ⟨s, hrun, hs⟩ := Option.map_eq_some_iff.mp heval
  rw [Prod.mk.injEq] at hs
  exact ⟨s, hrun, hs.1, hs.2, (buffers_used_alive hrun).1⟩

/-- When the renderer's thread has ended, every buffer that was received is freed. -/
theorem Inv.freed_perm (h : Inv s) (hpc : s.pc = .ended) :
    s.freed.Perm (List.range s.received) := by
  refine (List.perm_ext_iff_of_nodup h.freed List.nodup_range).mpr fun a => ?_
  rw [h.account a, List.mem_range]
  refine and_iff_left_of_imp fun _ => ?_
  rw [← Option.not_isSome_iff_eq_none, h.live a]
  rintro ⟨l, hl⟩
  exact h.not_ended hl hpc

theorem exit_of_stopping (h : s.pc = .top) (hstopping : s.stopping = true) :
    ∃ t, step s .exit = some t ∧ t.pc = .ended :=
  ⟨_, if_pos ⟨h, hstopping⟩, rfl⟩

theorem exit_of_top (h : s.pc = .top) :
    ∃ acts ⊆ [Act.release, .destroy, .exit], ∃ t, run step s acts = some t ∧ t.pc = .ended := by
  by_cases hstopping : s.stopping = true
  · obtain ⟨t, hexit, hpc⟩ := exit_of_stopping h hstopping
    exact ⟨[.exit], by simp, t, (run_singleton s _).trans hexit, hpc⟩
  · have hdestroy : step s .destroy = some { s with stopping := true } := if_neg hstopping
    obtain ⟨t, hexit, hpc⟩ := exit_of_stopping (s := { s with stopping := true }) h rfl
    refine ⟨[.destroy, .exit], by simp, t, ?_, hpc⟩
    rw [run_cons, hdestroy, Option.bind_some, run_singleton, hexit]

/-- Every run can be ended, by `destroy` and what the renderer's thread does by itself; then
every buffer that was received has been freed, and once. -/
theorem ended_frees_all {acts : List Act} (hrun : run step {} acts = some s) :
    (s.pc = .ended → s.freed.Perm (List.range s.received)) ∧
      ∃ acts' ⊆ [Act.release, .destroy, .exit], ∃ t,
        run step s acts' = some t ∧ t.pc = .ended ∧ t.freed.Perm (List.range t.received) := by
  refine ⟨(inv_run hrun).freed_perm, ?_⟩
  obtain ⟨acts', hsub, t, hrun', hpc⟩ : ∃ acts' ⊆ [Act.release, .destroy, .exit], ∃ t,
      run step s acts' = some t ∧ t.pc = .ended := by
    cases hpc : s.pc with
    | top => exact exit_of_top hpc
    | ended => exact ⟨[], List.nil_subset _, s, rfl, hpc⟩
    | drawing =>
      obtain ⟨s₁, hs, htop⟩ : ∃ s₁, step s .release = some s₁ ∧ s₁.pc = .top :=
        ⟨_, if_pos hpc, (releaseAll_shrinks ..).pc⟩
      obtain ⟨acts', hsub, t, hrun', hended⟩ := exit_of_top htop
      refine ⟨.release :: acts', List.cons_subset.mpr ⟨List.mem_cons_self, hsub⟩, t, ?_, hended⟩
      rw [run_cons, hs, Option.bind_some, hrun']
  have hinv := inv_run ((run_append_of_eq hrun).trans hrun')
  exact ⟨acts', hsub, t, hrun', hpc, hinv.freed_perm hpc⟩

theorem drawnRemoved_ends : ∃ s, run step {} drawnRemoved = some s ∧
    ∃ acts' ⊆ [Act.release, .destroy, .exit], ∃ t,
      run step s acts' = some t ∧ t.pc = .ended ∧ t.freed.Perm (List.range t.received) := by
  have heval : (run step {} drawnRemoved).isSome = true := by decide +kernel
  obtain ⟨s, hrun⟩ := Option.isSome_iff_exists.mp heval
  exact ⟨s, hrun, (ended_frees_all hrun).2⟩

end Lorie.BufferLists
