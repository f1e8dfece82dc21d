/-
The queue of vblanks (`InitOutput.c`).

Present queues a vblank for an msc; after every count `loriePerformVblanks` goes through the
queue and notifies those that are due.  A vblank is added at the head of the queue, so the
newest comes first.  What is notified may queue vblanks and flip, which counts, before the
loop goes on with the next element, which it has saved.

* `loriePresentQueueVblank`, `loriePresentAbortVblank`, `loriePerformVblanks` — the code;
* `Delivered` — each vblank once, on time, and in the order of the mscs;
* `delivered_of_inOrder` — what the queue must be like for that;
* `not_delivered_of_not_inOrder` — that a pass goes wrong if it is not.
-/
import KaliGui.Lorie.PresentClock
import Mathlib.Data.List.Perm.Basic

namespace Lorie.VblankQueue

open Machine
open PresentClock (flippedMsc)

/-! ### State -/

/-- `struct vblank`, with the number of the call that made it. -/
structure Vblank where
  serial : ℕ
  id : ℕ
  msc : UInt64
  deriving DecidableEq

/-- A call of `loriePerformVblanks` that is under way. -/
structure Pass where
  /-- what its loop still comes to -/
  ahead : List Vblank
  /-- the number of vblanks made before it began -/
  start : ℕ
  /-- what it has notified, in order -/
  notified : List Vblank

structure State where
  currentMsc : UInt64 := 0
  vblankQueue : List Vblank := []
  pass : Option Pass := none
  /-- the number of vblanks made -/
  made : ℕ := 0
  /-- all that were notified, with the counter at that time -/
  notified : List (Vblank × UInt64) := []
  aborted : List Vblank := []

/-! ### The code -/

/-- `loriePresentQueueVblank`; `allocates` is the answer of `calloc`. -/
def loriePresentQueueVblank (allocates : Bool) (id : ℕ) (msc : UInt64) (s : State) : State :=
  if allocates then
    { s with vblankQueue := ⟨s.made, id, msc⟩ :: s.vblankQueue, made := s.made + 1 }
  else s

/-- `loriePresentAbortVblank` -/
def loriePresentAbortVblank (id : ℕ) (s : State) : State :=
  match s.vblankQueue.find? (·.id = id) with
  | none => s
  | some v => { s with vblankQueue := s.vblankQueue.erase v, aborted := s.aborted ++ [v] }

/-- `loriePerformVblanks` comes to the head of the queue. -/
def beginPass (s : State) : State := { s with pass := some ⟨s.vblankQueue, s.made, []⟩ }

/-- `loriePerformVblanks` notifies an element if it is due, and removes it.  What the
notification leads to are the steps after this one: it can see the element in the queue,
but does nothing with it. -/
def visit (v : Vblank) (rest : List Vblank) (p : Pass) (s : State) : State :=
  if v.msc ≤ s.currentMsc then
    { s with
      vblankQueue := s.vblankQueue.erase v
      pass := some { p with ahead := rest, notified := p.notified ++ [v] }
      notified := s.notified ++ [(v, s.currentMsc)] }
  else { s with pass := some { p with ahead := rest } }

/-- The loop of `loriePerformVblanks`: one element, or the end. -/
def loriePerformVblanks (s : State) : Option State :=
  s.pass.map fun p =>
    match p.ahead with
    | [] => { s with pass := none }
    | v :: rest => visit v rest p s

/-- `loriePresentAfterFlip` -/
def loriePresentAfterFlip (targetMsc : UInt64) (s : State) : State :=
  { s with currentMsc := flippedMsc s.currentMsc targetMsc }

inductive Act
  | queueVblank (allocates : Bool) (id : ℕ) (msc : UInt64)
  /-- of a window that is destroyed, which no notification does -/
  | abortVblank (id : ℕ)
  /-- `lorieRedraw` counts, and calls `loriePerformVblanks` -/
  | redraw
  /-- `lorieRRScreenSetSize` calls it without -/
  | rrScreenSetSize
  | perform
  /-- of a request, or of what was notified -/
  | flip (targetMsc : UInt64)

def step (s : State) : Act → Option State
  | .queueVblank allocates id msc => some (loriePresentQueueVblank allocates id msc s)
  | .abortVblank id => if s.pass.isNone then some (loriePresentAbortVblank id s) else none
  | .redraw =>
    if s.pass.isNone then some (beginPass { s with currentMsc := s.currentMsc + 1 }) else none
  | .rrScreenSetSize => if s.pass.isNone then some (beginPass s) else none
  | .perform => loriePerformVblanks s
  | .flip targetMsc => some (loriePresentAfterFlip targetMsc s)

/-! ### Delivery -/

/-- Of two vblanks the one with the lower msc comes first, or the one that was queued
first. -/
def Precedes (v w : Vblank) : Prop := v.msc < w.msc ∨ v.msc = w.msc ∧ v.serial < w.serial

/-- What Present expects of the queue. -/
structure Delivered (s : State) : Prop where
  /-- each vblank is queued, or was notified or aborted, and only one of these, and once -/
  once : ((s.vblankQueue ++ s.notified.map Prod.fst ++ s.aborted).map Vblank.serial).Perm
    (List.range s.made)
  notEarly : ∀ n ∈ s.notified, n.1.msc ≤ n.2
  /-- of the vblanks that were queued when a pass began, it leaves none behind that is due -/
  onTime : ∀ p ∈ s.pass, ∀ v ∈ s.vblankQueue, v.serial < p.start → v ∉ p.ahead →
    s.currentMsc < v.msc
  inOrder : ∀ p ∈ s.pass, p.notified.Pairwise Precedes
  /-- a pass comes to its end -/
  ends : ∀ p ∈ s.pass, ∃ t,
    run step s (List.replicate (p.ahead.length + 1) .perform) = some t ∧ t.pass = none

/-- When a pass notifies a vblank, all that it still comes to are for a later msc; and a
flip in it takes the counter to none that it has gone by. -/
def InOrder (s : State) : Act → Prop
  | .perform => ∀ p ∈ s.pass, ∀ v ∈ p.ahead.head?, v.msc ≤ s.currentMsc →
    ∀ w ∈ p.ahead.tail, v.msc < w.msc
  | .flip targetMsc => ∀ p ∈ s.pass, ∀ v ∈ s.vblankQueue, v.serial < p.start → v ∉ p.ahead →
    s.currentMsc + 1 < v.msc ∨ targetMsc < v.msc
  | _ => True

instance (s : State) (a : Act) : Decidable (InOrder s a) :=
  match a with
  | .perform => inferInstanceAs (Decidable (∀ p ∈ s.pass, _))
  | .flip _ => inferInstanceAs (Decidable (∀ p ∈ s.pass, _))
  | .queueVblank .. => inferInstanceAs (Decidable True)
  | .abortVblank _ => inferInstanceAs (Decidable True)
  | .redraw => inferInstanceAs (Decidable True)
  | .rrScreenSetSize => inferInstanceAs (Decidable True)

/-! ### What every run keeps -/

variable {s s' : State} {a : Act} {p : Pass} {v w : Vblank} {rest : List Vblank}

/-- Every vblank is somewhere, and the queue is from the newest to the oldest. -/
structure Ledger (s : State) : Prop where
  once : ((s.vblankQueue ++ s.notified.map Prod.fst ++ s.aborted).map Vblank.serial).Perm
    (List.range s.made)
  newestFirst : s.vblankQueue.Pairwise fun v w => w.serial < v.serial
  notEarly : ∀ n ∈ s.notified, n.1.msc ≤ n.2
  ahead : ∀ p ∈ s.pass, p.ahead.Sublist s.vblankQueue
  start_le : ∀ p ∈ s.pass, p.start ≤ s.made
  newer : ∀ p ∈ s.pass, ∀ v ∈ p.notified, ∀ w ∈ p.ahead, w.serial < v.serial

theorem Ledger.initial : Ledger {} where
  once := List.Perm.refl _
  newestFirst := .nil
  notEarly := nofun
  ahead := nofun
  start_le := nofun
  newer := nofun

theorem Ledger.lt_made (h : Ledger s) (hv : v ∈ s.vblankQueue) : v.serial < s.made := by
  refine List.mem_range.mp (h.once.mem_iff.mp (List.mem_map_of_mem ?_))
  exact List.mem_append_left _ (List.mem_append_left _ hv)

theorem Ledger.nodup (h : Ledger s) : s.vblankQueue.Nodup :=
  h.newestFirst.imp fun hlt heq => absurd (heq ▸ hlt) (Nat.lt_irrefl _)

theorem Ledger.queueVblank (h : Ledger s) (allocates : Bool) (id : ℕ) (msc : UInt64) :
    Ledger (loriePresentQueueVblank allocates id msc s) := by
  rw [loriePresentQueueVblank]
  split
  · refine ⟨?_, ?_, h.notEarly, fun p hp => (h.ahead p hp).cons _,
      fun p hp => Nat.le_succ_of_le (h.start_le p hp), h.newer⟩
    · -- the new serial is the number of those before it
      dsimp only
      rw [List.range_succ]
      exact (h.once.cons s.made).trans (List.perm_append_singleton s.made _).symm
    · exact List.pairwise_cons.mpr ⟨fun w hw => h.lt_made hw, h.newestFirst⟩
  · exact h

theorem Ledger.abortVblank (h : Ledger s) (hpass : s.pass.isNone) (id : ℕ) :
    Ledger (loriePresentAbortVblank id s) := by
  have hnone : s.pass = none := Option.isNone_iff_eq_none.mp hpass
  rw [loriePresentAbortVblank]
  split
  · exact h
  · next v hfind =>
    have hv : v ∈ s.vblankQueue := List.mem_of_find?_eq_some hfind
    refine ⟨?_, h.newestFirst.sublist List.erase_sublist, h.notEarly, ?_, ?_, ?_⟩
    · refine List.Perm.trans (List.Perm.map _ ?_) h.once
      rw [← List.append_assoc]
      refine List.perm_append_comm.trans ?_
      rw [List.singleton_append, ← List.cons_append, ← List.cons_append]
      exact ((List.perm_cons_erase hv).symm.append_right _).append_right _
    · exact fun p hp => absurd (hnone ▸ hp) nofun
    · exact fun p hp => absurd (hnone ▸ hp) nofun
    · exact fun p hp => absurd (hnone ▸ hp) nofun

theorem Ledger.beginPass (h : Ledger s) : Ledger (beginPass s) := by
  refine ⟨h.once, h.newestFirst, h.notEarly, ?_, ?_, ?_⟩
  · rintro p ⟨⟩
    exact List.Sublist.refl _
  · rintro p ⟨⟩
    exact Nat.le_refl _
  · rintro p ⟨⟩
    exact nofun

theorem Ledger.visit (h : Ledger s) (hp : s.pass = some p) (hahead : p.ahead = v :: rest) :
    Ledger (visit v rest p s) := by
  have hsub : (v :: rest).Sublist s.vblankQueue := hahead ▸ h.ahead p hp
  have hv : v ∈ s.vblankQueue := hsub.subset List.mem_cons_self
  have hnewer : ∀ x ∈ p.notified, ∀ w ∈ rest, w.serial < x.serial := fun x hx w hw =>
    h.newer p hp x hx w (hahead ▸ List.mem_cons_of_mem v hw)
  rw [VblankQueue.visit]
  split
  · next hdue =>
    refine ⟨?_, h.newestFirst.sublist List.erase_sublist, ?_, ?_, ?_, ?_⟩
    · refine List.Perm.trans (List.Perm.map _ (List.Perm.append_right _ ?_)) h.once
      rw [List.map_append, List.map_singleton, ← List.append_assoc]
      refine (List.perm_append_singleton v _).trans ?_
      rw [← List.cons_append]
      exact (List.perm_cons_erase hv).symm.append_right _
    · intro n hn
      rcases List.mem_append.mp hn with hn | hn
      · exact h.notEarly n hn
      · rw [List.mem_singleton.mp hn]
        exact hdue
    · rintro q ⟨⟩
      have hrest := hsub.erase v
      rwa [List.erase_cons_head] at hrest
    · rintro q ⟨⟩
      exact h.start_le p hp
    · rintro q ⟨⟩ x hx w hw
      rcases List.mem_append.mp hx with hx | hx
      · exact hnewer x hx w hw
      · -- the rest of the queue is older than the element
        rw [List.mem_singleton.mp hx]
        exact List.rel_of_pairwise_cons (h.newestFirst.sublist hsub) hw
  · refine ⟨h.once, h.newestFirst, h.notEarly, ?_, ?_, ?_⟩
    · rintro q ⟨⟩
      exact (List.sublist_cons_self v rest).trans hsub
    · rintro q ⟨⟩
      exact h.start_le p hp
    · rintro q ⟨⟩
      exact hnewer

theorem Ledger.endPass (h : Ledger s) : Ledger { s with pass := none } :=
  ⟨h.once, h.newestFirst, h.notEarly, nofun, nofun, nofun⟩

/-- What a step of the loop is. -/
theorem loriePerformVblanks_eq_some (h : loriePerformVblanks s = some s') :
    ∃ p, s.pass = some p ∧
      (p.ahead = [] ∧ s' = { s with pass := none } ∨
        ∃ v rest, p.ahead = v :: rest ∧ s' = visit v rest p s) := by
  obtain ⟨p, hp, rfl⟩ := Option.map_eq_some_iff.mp h
  refine ⟨p, hp, ?_⟩
  cases hahead : p.ahead with
  | nil => exact .inl ⟨rfl, rfl⟩
  | cons v rest => exact .inr ⟨v, rest, rfl, rfl⟩

theorem Ledger.step (h : Ledger s) (hstep : step s a = some s') : Ledger s' := by
  cases a with
  | queueVblank allocates id msc =>
    cases hstep
    exact h.queueVblank allocates id msc
  | abortVblank id =>
    obtain ⟨hpass, ⟨⟩⟩ := Option.ite_none_right_eq_some.mp hstep
    exact h.abortVblank hpass id
  | redraw =>
    obtain ⟨-, ⟨⟩⟩ := Option.ite_none_right_eq_some.mp hstep
    exact Ledger.beginPass ⟨h.once, h.newestFirst, h.notEarly, h.ahead, h.start_le, h.newer⟩
  | rrScreenSetSize =>
    obtain ⟨-, ⟨⟩⟩ := Option.ite_none_right_eq_some.mp hstep
    exact h.beginPass
  | perform =>
    obtain ⟨p, hp, ⟨-, rfl⟩ | ⟨v, rest, hahead, rfl⟩⟩ := loriePerformVblanks_eq_some hstep
    · exact h.endPass
    · exact h.visit hp hahead
  | flip targetMsc =>
    cases hstep
    exact ⟨h.once, h.newestFirst, h.notEarly, h.ahead, h.start_le, h.newer⟩

/-- The loop looks at each element that it has to come to, and is over then. -/
theorem run_perform : ∀ {ahead : List Vblank} {s : State} {p : Pass}, s.pass = some p →
    p.ahead = ahead → ∃ t,
      run step s (List.replicate (ahead.length + 1) .perform) = some t ∧ t.pass = none := by
  intro ahead
  induction ahead with
  | nil =>
    intro s p hp hahead
    refine ⟨{ s with pass := none }, ?_, rfl⟩
    change run step s [.perform] = _
    rw [run_singleton, VblankQueue.step, loriePerformVblanks, hp, Option.map_some, hahead]
  | cons v rest ih =>
    intro s p hp hahead
    have hstep : step s .perform = some (VblankQueue.visit v rest p s) := by
      rw [step, loriePerformVblanks, hp, Option.map_some, hahead]
    have hnext : ∃ p', (VblankQueue.visit v rest p s).pass = some p' ∧ p'.ahead = rest := by
      rw [VblankQueue.visit]
      split
      · exact ⟨_, rfl, rfl⟩
      · exact ⟨_, rfl, rfl⟩
    obtain ⟨p', hp', hrest⟩ := hnext
    obtain ⟨t, hrun, ht⟩ := ih hp' hrest
    exact ⟨t, run_cons_eq_some.mpr ⟨_, hstep, hrun⟩, ht⟩

/-! ### What the condition keeps -/

/-- A pass has notified vblanks of rising mscs, all of them before those that it still
comes to; and nothing that it has gone by is due. -/
structure Rising (s : State) : Prop where
  onTime : ∀ p ∈ s.pass, ∀ v ∈ s.vblankQueue, v.serial < p.start → v ∉ p.ahead →
    s.currentMsc < v.msc
  notified : ∀ p ∈ s.pass, p.notified.Pairwise fun v w => v.msc < w.msc
  ahead : ∀ p ∈ s.pass, ∀ v ∈ p.notified, ∀ w ∈ p.ahead, v.msc < w.msc

theorem Rising.of_idle (h : s.pass = none) : Rising s := by
  refine ⟨?_, ?_, ?_⟩
  · exact fun p hp => absurd (h ▸ hp) nofun
  · exact fun p hp => absurd (h ▸ hp) nofun
  · exact fun p hp => absurd (h ▸ hp) nofun

/-- A pass begins with the whole queue ahead. -/
theorem Rising.beginPass (s : State) : Rising (beginPass s) := by
  refine ⟨?_, ?_, ?_⟩
  · rintro p ⟨⟩ v hv - hnot
    exact absurd hv hnot
  · rintro p ⟨⟩
    exact .nil
  · rintro p ⟨⟩
    exact nofun

theorem Rising.queueVblank (h : Rising s) (hledger : Ledger s) (allocates : Bool) (id : ℕ)
    (msc : UInt64) : Rising (loriePresentQueueVblank allocates id msc s) := by
  rw [loriePresentQueueVblank]
  split
  · refine ⟨fun p hp v hv hstart hnot => ?_, h.notified, h.ahead⟩
    rcases List.mem_cons.mp hv with rfl | hv
    · -- it was made after the pass began
      exact absurd (hledger.start_le p hp) (Nat.not_le_of_lt hstart)
    · exact h.onTime p hp v hv hstart hnot
  · exact h

theorem Rising.visit (h : Rising s) (hledger : Ledger s) (hp : s.pass = some p)
    (hahead : p.ahead = v :: rest) (hlater : v.msc ≤ s.currentMsc → ∀ w ∈ rest, v.msc < w.msc) :
    Rising (visit v rest p s) := by
  -- what the pass has gone by before is still not due
  have hold : ∀ w ∈ s.vblankQueue, w.serial < p.start → w ≠ v → w ∉ rest →
      s.currentMsc < w.msc := by
    intro w hw hstart hne hnot
    refine h.onTime p hp w hw hstart ?_
    rw [hahead, List.mem_cons, not_or]
    exact ⟨hne, hnot⟩
  have hrest : ∀ x ∈ p.notified, ∀ w ∈ rest, x.msc < w.msc := fun x hx w hw =>
    h.ahead p hp x hx w (hahead ▸ List.mem_cons_of_mem v hw)
  have hhead : ∀ x ∈ p.notified, x.msc < v.msc := fun x hx =>
    h.ahead p hp x hx v (hahead ▸ List.mem_cons_self)
  rw [VblankQueue.visit]
  split
  · next hdue =>
    refine ⟨?_, ?_, ?_⟩
    · -- the one that is taken out is due, so it is not among these
      rintro q ⟨⟩ w hw hstart hnot
      obtain ⟨hne, hmem⟩ := hledger.nodup.mem_erase_iff.mp hw
      exact hold w hmem hstart hne hnot
    · rintro q ⟨⟩
      refine List.pairwise_append.mpr ⟨h.notified p hp, List.pairwise_singleton _ _, ?_⟩
      intro x hx w hw
      rw [List.mem_singleton.mp hw]
      exact hhead x hx
    · rintro q ⟨⟩ x hx w hw
      rcases List.mem_append.mp hx with hx | hx
      · exact hrest x hx w hw
      · rw [List.mem_singleton.mp hx]
        exact hlater hdue w hw
  · next hnotDue =>
    refine ⟨?_, ?_, ?_⟩
    · rintro q ⟨⟩ w hw hstart hnot
      by_cases hne : w = v
      · rw [hne]
        exact UInt64.not_le.mp hnotDue
      · exact hold w hw hstart hne hnot
    · rintro q ⟨⟩
      exact h.notified p hp
    · rintro q ⟨⟩
      exact hrest

/-- A flip that goes to no vblank that the pass has gone by. -/
theorem Rising.flip (h : Rising s) {targetMsc : UInt64} (hok : InOrder s (.flip targetMsc)) :
    Rising (loriePresentAfterFlip targetMsc s) := by
  refine ⟨fun p hp v hv hstart hnot => ?_, h.notified, h.ahead⟩
  have hlt := hok p hp v hv hstart hnot
  change flippedMsc s.currentMsc targetMsc < v.msc
  rw [flippedMsc]
  split
  · next hcount =>
    rcases hlt with hlt | hlt
    · exact hlt
    · exact UInt64.lt_trans hcount hlt
  · next htarget =>
    rcases hlt with hlt | hlt
    · exact UInt64.lt_of_le_of_lt (UInt64.not_lt.mp htarget) hlt
    · exact hlt

theorem Rising.step (h : Rising s) (hledger : Ledger s) (hok : InOrder s a)
    (hstep : step s a = some s') : Rising s' := by
  cases a with
  | queueVblank allocates id msc =>
    cases hstep
    exact h.queueVblank hledger allocates id msc
  | abortVblank id =>
    obtain ⟨hpass, ⟨⟩⟩ := Option.ite_none_right_eq_some.mp hstep
    refine .of_idle ?_
    rw [loriePresentAbortVblank]
    split
    · exact Option.isNone_iff_eq_none.mp hpass
    · exact Option.isNone_iff_eq_none.mp hpass
  | redraw =>
    obtain ⟨-, ⟨⟩⟩ := Option.ite_none_right_eq_some.mp hstep
    exact Rising.beginPass _
  | rrScreenSetSize =>
    obtain ⟨-, ⟨⟩⟩ := Option.ite_none_right_eq_some.mp hstep
    exact Rising.beginPass s
  | perform =>
    obtain ⟨p, hp, ⟨-, rfl⟩ | ⟨v, rest, hahead, rfl⟩⟩ := loriePerformVblanks_eq_some hstep
    · exact .of_idle rfl
    · refine h.visit hledger hp hahead fun hdue w hw => ?_
      exact hok p hp v (hahead ▸ rfl) hdue w (hahead ▸ hw)
  | flip targetMsc =>
    cases hstep
    exact h.flip hok

theorem Rising.delivered (h : Rising s) (hledger : Ledger s) : Delivered s where
  once := hledger.once
  notEarly := hledger.notEarly
  onTime := h.onTime
  inOrder p hp := (h.notified p hp).imp .inl
  ends _ hp := run_perform hp rfl

/-- In every run in which each pass finds the older vblanks to be for the later mscs, the
vblanks are delivered once, on time and in order. -/
theorem delivered_of_inOrder (as : List Act) (h : Meets step InOrder {} as) :
    Always step Delivered {} as := by
  have hstep : ∀ s a s', Ledger s ∧ Rising s → InOrder s a → step s a = some s' →
      Ledger s' ∧ Rising s' := fun s a s' h hok hstep =>
    ⟨h.1.step hstep, h.2.step h.1 hok hstep⟩
  exact Always.of_invariant (fun s h => h.2.delivered h.1) hstep ⟨.initial, .of_idle rfl⟩ h

/-- A vblank for msc 2, one for msc 1, and a redraw for each. -/
def lastFirst : List Act :=
  [.queueVblank true 1 2, .queueVblank true 2 1, .redraw, .perform, .perform, .perform,
   .redraw, .perform, .perform]

theorem lastFirst_delivered : Always step Delivered {} lastFirst :=
  delivered_of_inOrder lastFirst (by decide)

/-- Two vblanks for msc 1. -/
def oneFrame : List Act :=
  [.queueVblank true 1 1, .queueVblank true 2 1, .redraw, .perform, .perform]

/-- The second is notified first. -/
theorem oneFrame_not_delivered : ¬ ∀ as, Always step Delivered {} as := by
  intro h
  have hdelivered : Delivered _ := (h oneFrame).of_run (show run step {} oneFrame = some _ from rfl)
  have hfirst : Precedes ⟨1, 2, 1⟩ ⟨0, 1, 1⟩ :=
    List.rel_of_pairwise_cons (hdelivered.inOrder _ rfl) (List.mem_singleton.mpr rfl)
  rcases hfirst with hlt | ⟨-, hlt⟩
  · exact absurd hlt (by decide)
  · exact absurd hlt (by decide)

/-! ### A pass that goes wrong -/

/-- What is ahead of a pass and due is notified, after what has been. -/
theorem sublist_notified : ∀ {ahead : List Vblank} {s : State} {p : Pass}, s.pass = some p →
    p.ahead = ahead → v ∈ p.notified → w ∈ ahead → w.msc ≤ s.currentMsc →
    ∃ n t p', run step s (List.replicate n .perform) = some t ∧ t.pass = some p' ∧
      [v, w].Sublist p'.notified := by
  intro ahead
  induction ahead with
  | nil => exact fun _ _ _ hw => absurd hw List.not_mem_nil
  | cons x rest ih =>
    intro s p hp hahead hv hw hdue
    have hstep : step s .perform = some (VblankQueue.visit x rest p s) := by
      rw [step, loriePerformVblanks, hp, Option.map_some, hahead]
    rcases List.mem_cons.mp hw with rfl | hw
    · refine ⟨1, _, { p with ahead := rest, notified := p.notified ++ [w] },
        (run_singleton s _).trans hstep, ?_, ?_⟩
      · rw [VblankQueue.visit, if_pos hdue]
      · exact (List.singleton_sublist.mpr hv).append (List.Sublist.refl [w])
    · have hnext : ∃ p', (VblankQueue.visit x rest p s).pass = some p' ∧ p'.ahead = rest ∧
          v ∈ p'.notified := by
        rw [VblankQueue.visit]
        split
        · exact ⟨_, rfl, rfl, List.mem_append_left _ hv⟩
        · exact ⟨_, rfl, rfl, hv⟩
      obtain ⟨p', hp', hrest, hv'⟩ := hnext
      have hcounter : (VblankQueue.visit x rest p s).currentMsc = s.currentMsc := by
        rw [VblankQueue.visit]
        split
        · rfl
        · rfl
      obtain ⟨n, t, q, hrun, hq, hsub⟩ := ih hp' hrest hv' hw (hcounter ▸ hdue)
      exact ⟨n + 1, t, q, run_cons_eq_some.mpr ⟨_, hstep, hrun⟩, hq, hsub⟩

/-- After a step that is not in order, the vblanks are not delivered as expected, or will
not be in the rest of the pass. -/
theorem not_delivered_of_not_inOrder (h : Ledger s) (hnot : ¬ InOrder s a)
    (hstep : step s a = some s') :
    ∃ n, ¬ Always step Delivered s' (List.replicate n .perform) := by
  cases a with
  | queueVblank allocates id msc => exact absurd trivial hnot
  | abortVblank id => exact absurd trivial hnot
  | redraw => exact absurd trivial hnot
  | rrScreenSetSize => exact absurd trivial hnot
  | perform =>
    simp only [InOrder, not_forall] at hnot
    obtain ⟨p, hp, v, hv, hdue, w, hw, hlt⟩ := hnot
    obtain ⟨rest, hahead⟩ : ∃ rest, p.ahead = v :: rest := List.head?_eq_some_iff.mp hv
    rw [hahead, List.tail_cons] at hw
    have hle : w.msc ≤ v.msc := UInt64.not_lt.mp hlt
    have holder : w.serial < v.serial :=
      List.rel_of_pairwise_cons (h.newestFirst.sublist (hahead ▸ h.ahead p hp)) hw
    -- `v` is notified now, and `w`, which is older and not due later, only afterwards
    have hpass : ∃ p', s'.pass = some p' ∧ p'.ahead = rest ∧ v ∈ p'.notified ∧
        s'.currentMsc = s.currentMsc := by
      rw [step, loriePerformVblanks, hp, Option.map_some, hahead] at hstep
      obtain rfl : visit v rest p s = s' := Option.some.inj hstep
      rw [visit, if_pos hdue]
      exact ⟨_, rfl, rfl, List.mem_append_right _ List.mem_cons_self, rfl⟩
    obtain ⟨p', hp', hrest, hnotified, hcounter⟩ := hpass
    have hdue' : w.msc ≤ s'.currentMsc := hcounter ▸ UInt64.le_trans hle hdue
    obtain ⟨n, t, q, hrun, hq, hsub⟩ := sublist_notified hp' hrest hnotified hw hdue'
    refine ⟨n, fun halways => ?_⟩
    have hprecedes : Precedes v w := List.rel_of_pairwise_cons
      (((halways.of_run hrun).inOrder q hq).sublist hsub) List.mem_cons_self
    rcases hprecedes with hmsc | ⟨-, hserial⟩
    · exact hlt hmsc
    · exact absurd hserial (Nat.not_lt_of_lt holder)
  | flip targetMsc =>
    simp only [InOrder, not_forall, not_or, UInt64.not_lt] at hnot
    obtain ⟨p, hp, v, hv, hstart, hpast, hcount, htarget⟩ := hnot
    cases hstep
    refine ⟨0, fun hdelivered => ?_⟩
    -- the pass has gone by `v`, which the flip makes due
    have hlt : flippedMsc s.currentMsc targetMsc < v.msc :=
      Delivered.onTime hdelivered p hp v hv hstart hpast
    rw [flippedMsc] at hlt
    split at hlt
    · exact UInt64.not_lt.mpr hcount hlt
    · exact UInt64.not_lt.mpr htarget hlt

end Lorie.VblankQueue
