/-
What is looked up by the renderer's thread is what the server has registered.

A buffer goes from one list of the renderer to another, and out of it in the middle of a
frame; for who asks for one by its id there is only whether it is registered.

* `Registry.step` — what the messages of the server say is registered;
* `registered` — what the lists say;
* `registered_run` — these agree after every run;
* `lookups_find_registered` — a lookup finds a buffer if and only if it is registered.
-/
import KaliGui.Lorie.BufferLists
import Mathlib.Data.List.Induction
import Mathlib.Data.Multiset.AddSub

namespace Lorie.BufferLists

open Machine Shelves

/-- The ids of the registered buffers, each as often as there are buffers that have it. -/
def Registry.step (reg : Multiset ℕ) : Act → Multiset ℕ
  | .addBuffer id _ => id ::ₘ reg
  | .removeBuffer id => reg.erase id
  | .removeAllBuffers => 0
  | .exit => 0
  | _ => reg

/-- The ids of the buffers of a list. -/
def State.names (s : State) (l : Which) : Multiset ℕ := ((s.lists l).filterMap s.idOf : List ℕ)

def State.registered (s : State) : Multiset ℕ := s.names .added + s.names .buffers

/-- The receiver's count of references is the receiver's alone. -/
def Single (s : State) : Prop := ∀ a b, s.heap a = some b → b.refcount = 1

variable {s s' : State} {thread : Thread} {l m : Which} {a : ℕ} {b : Buffer} {id : ℕ}

/-! ### Lists and their ids -/

theorem mem_names : id ∈ s.names l ↔ ∃ a ∈ s.lists l, s.idOf a = some id := by
  rw [State.names, Multiset.mem_coe, List.mem_filterMap]

theorem names_eq_zero (h : s.lists l = []) : s.names l = 0 := by
  rw [State.names, h]
  rfl

theorem names_congr (hlists : s'.lists l = s.lists l)
    (hid : ∀ a ∈ s.lists l, s'.idOf a = s.idOf a) : s'.names l = s.names l := by
  rw [State.names, State.names, hlists, List.filterMap_congr hid]

/-- The ids of a list are those without a buffer of it, and that buffer's. -/
theorem names_cons (h : Apart s.lists) (ha : a ∈ s.lists l) (hid : s.idOf a = some id) :
    s.names l = id ::ₘ ((del a s.lists l).filterMap s.idOf : List ℕ) := by
  rw [State.names, Multiset.cons_coe, Multiset.coe_eq_coe]
  refine ((h.perm_del ha).filterMap s.idOf).trans (.of_eq ?_)
  rw [List.filterMap_cons_some hid]

theorem filterMap_del (hid : ∀ c ≠ a, s'.idOf c = s.idOf c) :
    (del a s.lists l).filterMap s'.idOf = (del a s.lists l).filterMap s.idOf :=
  List.filterMap_congr fun c hc => hid c (mem_del.mp hc).2

theorem names_del (h : Apart s.lists) (ha : a ∈ s.lists l) (hname : s.idOf a = some id)
    (hlists : s'.lists l = del a s.lists l) (hid : ∀ c ≠ a, s'.idOf c = s.idOf c) :
    s'.names l = (s.names l).erase id := by
  rw [names_cons h ha hname, Multiset.erase_cons_head, State.names, hlists, filterMap_del hid]

theorem names_del_of_notMem (ha : a ∉ s.lists l) (hlists : s'.lists l = del a s.lists l)
    (hid : ∀ c ≠ a, s'.idOf c = s.idOf c) : s'.names l = s.names l := by
  rw [State.names, hlists, filterMap_del hid, del_of_notMem ha, State.names]

theorem names_add (ha : a ∉ s.lists l) (hname : s'.idOf a = some id)
    (hlists : s'.lists l = a :: del a s.lists l) (hid : ∀ c ≠ a, s'.idOf c = s.idOf c) :
    s'.names l = id ::ₘ s.names l := by
  rw [State.names, hlists, List.filterMap_cons_some hname, filterMap_del hid, del_of_notMem ha,
    State.names, Multiset.cons_coe]

theorem idOf_update_of_ne {t : State} {o : Option Buffer}
    (h : t.heap = Function.update s.heap a o) :
    ∀ c ≠ a, t.idOf c = s.idOf c := by
  intro c hc
  rw [State.idOf, h, Function.update_of_ne hc, State.idOf]

theorem idOf_of_eq_some (hb : s.heap a = some b) : s.idOf a = some b.id := by
  rw [State.idOf, hb, Option.map_some]

/-! ### What the operations do to the ids -/

/-- Whoever attaches a buffer leaves it registered. -/
theorem Inv.attach_registered (h : Inv s) (ha : a ∈ s.lists .added) :
    (addToList .buffers a (attachToGL a s)).registered = s.registered := by
  obtain ⟨b, hb⟩ := Option.isSome_iff_exists.mp (h.isSome ha)
  have hname := idOf_of_eq_some hb
  have hmem : b.id ∈ s.names .added := mem_names.mpr ⟨a, ha, hname⟩
  have hlists : (addToList .buffers a (attachToGL a s)).lists = add .buffers a s.lists := by
    rw [addToList, attachToGL_lists]
  have hheap : (addToList .buffers a (attachToGL a s)).heap =
      Function.update s.heap a (some { b with attached := true }) := by
    rw [addToList, attachToGL, hb]
  have hid := idOf_update_of_ne hheap
  have hnew : (addToList .buffers a (attachToGL a s)).idOf a = some b.id := by
    rw [State.idOf, hheap, Function.update_self, Option.map_some]
  rw [State.registered, State.registered,
    names_del h.apart ha hname ((congrFun hlists _).trans (add_of_ne (by decide))) hid,
    names_add (h.apart.notMem ha (by decide)) hnew ((congrFun hlists _).trans add_self) hid,
    Multiset.add_cons, ← Multiset.cons_add, Multiset.cons_erase hmem]

theorem Inv.attachAll_registered (h : Inv s) :
    (BufferLists.attachAll s).registered = s.registered := by
  refine attachAll_loop (R := fun s t => Inv s → t.registered = s.registered)
    (fun s _ _ => rfl) ?_ s h
  intro s a as t hcons ih h
  have ha : a ∈ s.lists .added := by
    rw [hcons]
    exact List.mem_cons_self
  exact (ih (h.attach ha)).trans (h.attach_registered ha)

/-- A buffer that was taken away is released, and the registered ones are as they were. -/
theorem Inv.release_removed_registered (h : Inv s) (ha : a ∈ s.lists .removed) :
    (BufferLists.release thread a s).registered = s.registered := by
  obtain ⟨b, hb⟩ := Option.isSome_iff_exists.mp (h.isSome ha)
  have hadded := h.apart.notMem ha (show Which.added ≠ .removed by decide)
  have hbuffers := h.apart.notMem ha (show Which.buffers ≠ .removed by decide)
  rw [BufferLists.release, hb]
  dsimp only
  split
  · have hid := idOf_update_of_ne (t := BufferLists.free thread a b s) (s := s) rfl
    rw [State.registered, names_del_of_notMem hadded rfl hid,
      names_del_of_notMem hbuffers rfl hid, State.registered]
  · refine congrArg₂ (· + ·) (names_congr rfl fun c hc => ?_) (names_congr rfl fun c hc => ?_)
    · refine idOf_update_of_ne rfl c ?_
      rintro rfl
      exact hadded hc
    · refine idOf_update_of_ne rfl c ?_
      rintro rfl
      exact hbuffers hc

theorem Inv.releaseAll_registered (h : Inv s) (hheld : s.held = []) :
    (BufferLists.releaseAll .renderer .removed s).registered = s.registered := by
  refine releaseAll_loop (R := fun s t => Inv s → s.held = [] → t.registered = s.registered)
    (fun s _ _ _ => rfl) ?_ s h hheld
  intro s a as t hcons ih h hheld
  have ha : a ∈ s.lists .removed := by
    rw [hcons]
    exact List.mem_cons_self
  have hinv : Inv (BufferLists.release .renderer a s) :=
    h.release ha (by rw [hheld]; exact List.not_mem_nil) (.inr rfl)
  exact (ih hinv ((release_shrinks ..).held.trans hheld)).trans (h.release_removed_registered ha)

theorem find?_eq_none (h : (s.lists l).find? (fun a => s.idOf a = some id) = none) :
    id ∉ s.names l := by
  intro hmem
  obtain ⟨a, ha, hid⟩ := mem_names.mp hmem
  exact List.find?_eq_none.mp h a ha (decide_eq_true hid)

theorem find?_eq_some (h : (s.lists l).find? (fun a => s.idOf a = some id) = some a) :
    a ∈ s.lists l ∧ s.idOf a = some id := by
  have hid := List.find?_some h
  exact ⟨List.mem_of_find?_eq_some h, of_decide_eq_true hid⟩

/-- A message takes one buffer with its id away, from whichever list. -/
theorem Inv.removeBuffer_registered (h : Inv s) (hsingle : Single s) (id : ℕ) :
    (BufferLists.removeBuffer id s).registered = s.registered.erase id := by
  rw [BufferLists.removeBuffer, h.findById]
  dsimp only
  split
  · rename_i a hfound
    obtain ⟨ha, hname⟩ := find?_eq_some hfound
    obtain ⟨b, hb⟩ := Option.isSome_iff_exists.mp (h.isSome ha)
    have hid := idOf_update_of_ne (t := BufferLists.free .looper a b s) (s := s) rfl
    have hbuffers := h.apart.notMem ha (show Which.buffers ≠ .added by decide)
    rw [BufferLists.release, hb]
    dsimp only
    rw [if_pos (hsingle a b hb), State.registered, State.registered,
      names_del h.apart ha hname rfl hid, names_del_of_notMem hbuffers rfl hid,
      Multiset.erase_add_left_pos _ (mem_names.mpr ⟨a, ha, hname⟩)]
  · rename_i hnone
    have hadded := find?_eq_none hnone
    rw [h.findById]
    dsimp only
    rw [State.registered, State.registered, Multiset.erase_add_right_neg _ hadded]
    split
    · rename_i a hfound
      obtain ⟨ha, hname⟩ := find?_eq_some hfound
      have hnot := h.apart.notMem ha (show Which.added ≠ .buffers by decide)
      have hlists : ∀ l ≠ .removed, (addToList .removed a s).lists l = del a s.lists l :=
        fun l hl => add_of_ne hl
      rw [names_del_of_notMem hnot (hlists .added (by decide)) fun _ _ => rfl,
        names_del h.apart ha hname (hlists .buffers (by decide)) fun _ _ => rfl]
    · rename_i hnone
      rw [Multiset.erase_of_notMem (find?_eq_none hnone)]

/-! ### One reference -/

theorem Single.update (h : Single s) (hheap : s'.heap = Function.update s.heap a none) :
    Single s' := by
  intro c b hc
  rw [hheap] at hc
  by_cases hca : c = a
  · rw [hca, Function.update_self] at hc
    exact absurd hc.symm (Option.some_ne_none b)
  · rw [Function.update_of_ne hca] at hc
    exact h c b hc

theorem Single.update_some (h : Single s) (hheap : s'.heap = Function.update s.heap a (some b))
    (hone : b.refcount = 1) : Single s' := by
  intro c b' hc
  rw [hheap] at hc
  by_cases hca : c = a
  · rw [hca, Function.update_self, Option.some_inj] at hc
    rw [← hc, hone]
  · rw [Function.update_of_ne hca] at hc
    exact h c b' hc

theorem Single.release (h : Single s) : Single (release thread a s) := by
  rw [BufferLists.release]
  split
  · exact h
  · rename_i b hb
    rw [if_pos (h a b hb)]
    exact h.update rfl

theorem Single.releaseAll (h : Single s) : Single (releaseAll thread l s) := by
  refine releaseAll_loop (R := fun s t => Single s → Single t) (fun s _ h => h) ?_ s h
  intro s a as t _ ih h
  exact ih h.release

theorem Single.attach (h : Single s) : Single (addToList .buffers a (attachToGL a s)) := by
  rw [addToList, attachToGL]
  split
  · exact h
  · rename_i b hb
    exact h.update_some rfl (h a b hb)

theorem Single.attachAll (h : Single s) : Single (attachAll s) := by
  refine attachAll_loop (R := fun s t => Single s → Single t) (fun s _ h => h) ?_ s h
  intro s a as t _ ih h
  exact ih h.attach

theorem Single.retireAll (h : Single s) : Single (retireAll s) := by
  refine retireAll_loop (R := fun s t => Single s → Single t) (fun s _ h => h) ?_ s h
  intro s a as t _ ih h
  exact ih h

theorem Single.removeBuffer (h : Inv s) (hsingle : Single s) (id : ℕ) :
    Single (removeBuffer id s) := by
  rw [BufferLists.removeBuffer, h.findById]
  dsimp only
  split
  · exact hsingle.release
  · rw [h.findById]
    dsimp only
    split
    · exact hsingle
    · exact hsingle

theorem Single.findBuffer (h : Inv s) (hsingle : Single s) (id : ℕ) :
    Single (findBuffer id s) := by
  rw [BufferLists.findBuffer, h.findById]
  dsimp only
  split
  · exact hsingle
  · rw [h.findById]
    dsimp only
    split
    · exact hsingle.attach
    · exact hsingle

theorem Single.step {act : Act} (h : Inv s) (hsingle : Single s)
    (hone : ∀ id c, act = .addBuffer id c → c = 1) (hs : step s act = some s') : Single s' := by
  cases act with
  | addBuffer id refcount =>
    obtain ⟨-, rfl⟩ := disabled_eq_some.mp hs
    exact hsingle.update_some rfl (hone id refcount rfl)
  | removeBuffer id =>
    obtain ⟨-, rfl⟩ := disabled_eq_some.mp hs
    exact .removeBuffer h hsingle id
  | removeAllBuffers =>
    obtain ⟨-, rfl⟩ := disabled_eq_some.mp hs
    exact hsingle.releaseAll.retireAll
  | destroy =>
    obtain ⟨-, rfl⟩ := disabled_eq_some.mp hs
    exact hsingle
  | attach =>
    obtain ⟨-, rfl⟩ := enabled_eq_some.mp hs
    exact hsingle.attachAll
  | findBuffer id =>
    obtain ⟨-, rfl⟩ := enabled_eq_some.mp hs
    exact .findBuffer h hsingle id
  | findRoot id =>
    obtain ⟨-, rfl⟩ := enabled_eq_some.mp hs
    rw [findRoot, h.findById]
    dsimp only
    split
    · exact hsingle
    · rw [h.findById]
      exact hsingle
  | use =>
    obtain ⟨-, rfl⟩ := enabled_eq_some.mp hs
    exact hsingle
  | release =>
    obtain ⟨-, rfl⟩ := enabled_eq_some.mp hs
    have hmove : Single { s with held := [], pc := .top } := hsingle
    exact hmove.releaseAll
  | exit =>
    obtain ⟨-, rfl⟩ := enabled_eq_some.mp hs
    exact hsingle.releaseAll.retireAll.releaseAll

/-! ### Runs -/

/-- Each step changes what the lists say as it changes what the messages say. -/
theorem registered_step {act : Act} (h : Inv s) (hsingle : Single s) (hs : step s act = some s') :
    s'.registered = Registry.step s.registered act := by
  cases act with
  | addBuffer id refcount =>
    obtain ⟨-, rfl⟩ := disabled_eq_some.mp hs
    -- the buffer is a new one, so it is on no list yet
    have hnone := h.received s.received (Nat.le_refl _)
    have hnot : ∀ l, s.received ∉ s.lists l := by
      intro l hl
      have hsome := h.isSome hl
      rw [hnone] at hsome
      exact Bool.false_ne_true hsome
    have hid := idOf_update_of_ne (t := addBuffer id refcount s) (s := s) rfl
    have hname : (addBuffer id refcount s).idOf s.received = some id :=
      idOf_of_eq_some (b := { id, refcount }) (Function.update_self ..)
    have hlists : (addBuffer id refcount s).lists = add .added s.received s.lists := rfl
    rw [State.registered, names_add (hnot .added) hname ((congrFun hlists _).trans add_self) hid,
      names_del_of_notMem (hnot .buffers) ((congrFun hlists _).trans (add_of_ne (by decide))) hid,
      Multiset.cons_add, Registry.step, State.registered]
  | removeBuffer id =>
    obtain ⟨-, rfl⟩ := disabled_eq_some.mp hs
    exact h.removeBuffer_registered hsingle id
  | removeAllBuffers =>
    obtain ⟨-, rfl⟩ := disabled_eq_some.mp hs
    obtain ⟨-, hbuffers, hadded, -⟩ := h.removeAllBuffers .looper
    rw [State.registered, names_eq_zero hbuffers, names_eq_zero hadded]
    rfl
  | destroy =>
    obtain ⟨-, rfl⟩ := disabled_eq_some.mp hs
    rfl
  | attach =>
    obtain ⟨-, rfl⟩ := enabled_eq_some.mp hs
    exact h.attachAll_registered
  | findBuffer id =>
    obtain ⟨-, rfl⟩ := enabled_eq_some.mp hs
    rw [findBuffer, h.findById]
    dsimp only
    split
    · rfl
    · rw [h.findById]
      dsimp only
      split
      · rename_i a hfound
        exact h.attach_registered (find?_eq_some hfound).1
      · rfl
  | findRoot id =>
    obtain ⟨-, rfl⟩ := enabled_eq_some.mp hs
    rw [findRoot, h.findById]
    dsimp only
    split
    · rfl
    · rw [h.findById]
      rfl
  | use =>
    obtain ⟨-, rfl⟩ := enabled_eq_some.mp hs
    rfl
  | release =>
    obtain ⟨-, rfl⟩ := enabled_eq_some.mp hs
    have hmove : Inv { s with held := [], pc := .top } :=
      h.move (fun _ hc => absurd hc List.not_mem_nil) (fun _ => rfl) Pc.noConfusion
    exact hmove.releaseAll_registered rfl
  | exit =>
    obtain ⟨-, rfl⟩ := enabled_eq_some.mp hs
    -- the thread ends: it empties both lists, whatever was on them
    obtain ⟨-, hbuffers, hadded, -⟩ := h.removeAllBuffers .renderer
    have hshrinks := releaseAll_shrinks .renderer .removed (removeAllBuffers .renderer s)
    have hzero : (releaseAll .renderer .removed (removeAllBuffers .renderer s)).registered = 0 := by
      rw [State.registered, names_eq_zero (hshrinks.eq_nil hbuffers),
        names_eq_zero (hshrinks.eq_nil hadded)]
      rfl
    exact hzero

theorem registered_run {acts : List Act} (hone : ∀ id c, Act.addBuffer id c ∈ acts → c = 1)
    (hrun : run step {} acts = some s) :
    Single s ∧ s.registered = acts.foldl Registry.step 0 := by
  induction acts using List.reverseRecOn generalizing s with
  | nil =>
    rw [run_nil, Option.some_inj] at hrun
    rw [← hrun]
    exact ⟨fun _ _ h => absurd h.symm (Option.some_ne_none _), rfl⟩
  | append_singleton acts act ih =>
    obtain ⟨s₁, hrun₁, hs⟩ := run_concat_eq_some.mp hrun
    obtain ⟨hsingle, hreg⟩ := ih (fun id c hmem => hone id c (List.mem_append_left _ hmem)) hrun₁
    have hinv := inv_run hrun₁
    refine ⟨hsingle.step hinv (fun id c heq => ?_) hs, ?_⟩
    · exact hone id c (List.mem_append_right _ (List.mem_singleton.mpr heq.symm))
    · rw [registered_step hinv hsingle hs, hreg, List.foldl_concat]

/-- A lookup of the renderer's thread, at any time, gives a buffer that has the id and its
texture if the id is registered, and otherwise does nothing; provided that each buffer
arrives with one reference. -/
theorem lookups_find_registered {acts : List Act}
    (hone : ∀ id c, Act.addBuffer id c ∈ acts → c = 1) (hrun : run step {} acts = some s)
    (id : ℕ) :
    (id ∈ acts.foldl Registry.step 0 → ∃ a b, (findBuffer id s).held = a :: s.held ∧
      (findBuffer id s).heap a = some b ∧ b.id = id ∧ b.attached = true) ∧
    (id ∉ acts.foldl Registry.step 0 → findBuffer id s = s) := by
  have h := inv_run hrun
  rw [← (registered_run hone hrun).2, State.registered, Multiset.mem_add, findBuffer, h.findById]
  dsimp only
  cases hbuffers : (s.lists .buffers).find? fun a => s.idOf a = some id with
  | some a =>
    obtain ⟨ha, hname⟩ := find?_eq_some hbuffers
    obtain ⟨b, hb⟩ := Option.isSome_iff_exists.mp (h.isSome ha)
    have hid := hname
    rw [idOf_of_eq_some hb, Option.some_inj] at hid
    refine ⟨fun _ => ⟨a, b, rfl, hb, hid, ?_⟩, fun hnot => ?_⟩
    · exact (h.attached a b hb).mpr (h.apart.notMem ha (by decide))
    · exact absurd (.inr (mem_names.mpr ⟨a, ha, hname⟩)) hnot
  | none =>
    dsimp only
    rw [h.findById]
    dsimp only
    cases hadded : (s.lists .added).find? fun a => s.idOf a = some id with
    | some a =>
      obtain ⟨ha, hname⟩ := find?_eq_some hadded
      obtain ⟨b, hb⟩ := Option.isSome_iff_exists.mp (h.isSome ha)
      have hid := hname
      rw [idOf_of_eq_some hb, Option.some_inj] at hid
      have hattach : attachToGL a s = { s with
          heap := Function.update s.heap a (some { b with attached := true })
          misuses := if b.attached then s.misuses ++ [.attachedTwice a] else s.misuses } := by
        rw [attachToGL, hb]
      dsimp only
      rw [hattach]
      refine ⟨fun _ => ⟨a, { b with attached := true }, rfl, ?_, hid, rfl⟩, fun hnot => ?_⟩
      · exact Function.update_self ..
      · exact absurd (.inl (mem_names.mpr ⟨a, ha, hname⟩)) hnot
    | none =>
      refine ⟨fun hmem => ?_, fun _ => rfl⟩
      exact absurd hmem (not_or.mpr ⟨find?_eq_none hadded, find?_eq_none hbuffers⟩)

/-- One of two buffers with an id is taken away, and the other is found. -/
theorem addedTwice_found : ∃ s, run step {} [.addBuffer 7 1, .attach, .addBuffer 7 1,
    .removeBuffer 7] = some s ∧ ∃ a b, (findBuffer 7 s).held = a :: s.held ∧
      (findBuffer 7 s).heap a = some b ∧ b.id = 7 ∧ b.attached = true := by
  have heval : (run step {} [.addBuffer 7 1, .attach, .addBuffer 7 1,
      .removeBuffer 7]).isSome = true := by
    decide +kernel
  obtain ⟨s, hrun⟩ := Option.isSome_iff_exists.mp heval
  exact ⟨s, hrun, (lookups_find_registered (by simp) hrun 7).1 (by decide)⟩

end Lorie.BufferLists
