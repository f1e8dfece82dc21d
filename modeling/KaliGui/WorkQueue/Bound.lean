/-
How many steps a call of `ProcessWorkQueue` takes (`workqueue.cpp`).

Every step of the server's thread brings a call nearer to its end, and every step of another
thread, or of a function that queues, brings it at most 26 steps further away: it may claim
a position that is still to be counted, or one that `requeue` is after, or link in a node.

* `State.cost` — the steps of the server's thread that are still to come at most;
* `Due` — how many nodes its walk still comes to;
* `Inv.pays_step` — what a step does to the cost;
* `steps_le` — how many steps a call takes;
* `no_selfLock_iff` — when no thread waits for itself, and calls end.
-/
import KaliGui.WorkQueue.Reentrant
import Mathlib.Algebra.BigOperators.Ring.List
import Mathlib.Algebra.Ring.Nat

namespace WorkQueue

open Links Machine

variable {s s' : State} {ns ns' : List ℕ} {a : Act} {th : Thread} {z : Bool} {l : ℕ}

/-! ### The list -/

/-- What a pushing thread makes of the list. -/
theorem Inv.nodes_pushStep (h : Inv s ns) (h' : Inv s' ns') {spurious : Bool}
    (hstep : pushStep s th spurious = some s') :
    ns' = ns ∨ ∃ item node, s.push th = .link item node ∧ ns' = ns ++ [node] := by
  rcases pushStep_next hstep with ⟨item, node, hpc, -⟩ | hnext | hnext
  · refine .inr ⟨item, node, hpc, ?_⟩
    simp only [pushStep, hpc, Option.some_inj] at hstep
    subst hstep
    exact h'.list.chain.unique (h.link hpc).list.chain
  · exact .inl (h'.list.chain.unique (hnext ▸ h.list.chain))
  · left
    refine h'.list.chain.unique ?_
    rw [hnext]
    refine h.list.chain.update_of_notMem (by simp) fun n hn heq => ?_
    exact absurd (Option.some_inj.mp heq) (Nat.ne_of_gt (h.list.lt n hn))

/-- The running call still comes to `l` nodes. -/
def Due (ns : List ℕ) (l : ℕ) : Server → Prop
  | .idle | .setLast _ | .unlock => l = 0
  | .next _ p => ∃ post, AtPointer ns p post ∧ l = post.length
  | .unlockNode p q | .callNode p q | .zombieNode p q | .relock p q _ | .remove _ p q =>
    ∃ post, AtPointer ns p (q :: post) ∧ l = post.length
  | _ => l = ns.length

/-- The pushing threads put at most one node at the end. -/
theorem Due.append {pc : Server} (h : Due ns l pc) (node : ℕ) :
    ∃ l' ≤ l + 1, Due (ns ++ [node]) l' pc := by
  have hpost : ∀ post : List ℕ, (post ++ [node]).length = post.length + 1 := fun post => by
    rw [List.length_append, List.length_singleton]
  cases pc with
  | idle => exact ⟨l, Nat.le_succ l, h⟩
  | setLast p => exact ⟨l, Nat.le_succ l, h⟩
  | unlock => exact ⟨l, Nat.le_succ l, h⟩
  | next z p =>
    obtain ⟨post, hat, rfl⟩ := h
    exact ⟨_, Nat.le_refl _, post ++ [node], hat.mono [node], (hpost post).symm⟩
  | unlockNode p q =>
    obtain ⟨post, hat, rfl⟩ := h
    exact ⟨_, Nat.le_refl _, post ++ [node], hat.mono [node], (hpost post).symm⟩
  | callNode p q =>
    obtain ⟨post, hat, rfl⟩ := h
    exact ⟨_, Nat.le_refl _, post ++ [node], hat.mono [node], (hpost post).symm⟩
  | zombieNode p q =>
    obtain ⟨post, hat, rfl⟩ := h
    exact ⟨_, Nat.le_refl _, post ++ [node], hat.mono [node], (hpost post).symm⟩
  | relock p q result =>
    obtain ⟨post, hat, rfl⟩ := h
    exact ⟨_, Nat.le_refl _, post ++ [node], hat.mono [node], (hpost post).symm⟩
  | remove z p q =>
    obtain ⟨post, hat, rfl⟩ := h
    exact ⟨_, Nat.le_refl _, post ++ [node], hat.mono [node], (hpost post).symm⟩
  | _ => exact ⟨_, Nat.le_refl _, h ▸ (hpost ns).symm⟩

/-! ### The cost -/

/-- The steps that a push still takes, and those for the node that it may link in; some more
if the position it is after is gone. -/
def Push.cost (enqueuePos : ℕ) : Push → ℕ
  | .idle => 0
  | .load _ => 12
  | .sequence _ pos => if pos < enqueuePos then 14 else 11
  | .cas _ pos => if pos < enqueuePos then 12 else 10
  | .function _ _ => 9
  | .client _ _ => 8
  | .closure _ _ => 7
  | .publish _ _ => 6
  | .alloc _ => 10
  | .lock _ _ => 9
  | .link _ _ => 8
  | .setLast _ => 2
  | .unlock => 1

/-- The steps of the server's thread until its call returns, if no other thread steps, and
`l` nodes are to come. -/
def State.cost (s : State) (l : ℕ) : ℕ :=
  match s.server with
  | .idle => 0
  | .countTail _ => 21 * (s.enqueuePos - s.dequeuePos) + 5 * l + 7
  | .countHead _ _ => 21 * (s.enqueuePos - s.dequeuePos) + 5 * l + 6
  | .scan _ remaining => 21 * remaining + 5 * l + 5
  | .sequence _ remaining _ => 21 * remaining + 5 * l + 25
  | .cas _ remaining _ => 21 * remaining + 5 * l + 24
  | .function _ remaining _ => 21 * remaining + 5 * l + 23
  | .client _ remaining _ _ => 21 * remaining + 5 * l + 22
  | .closure _ remaining _ _ _ => 21 * remaining + 5 * l + 21
  | .release _ remaining _ _ => 21 * remaining + 5 * l + 20
  | .call _ remaining _ => 21 * remaining + 5 * l + 19
  | .requeue _ remaining => 21 * remaining + 5 * l + 6 + (s.push none).cost s.enqueuePos
  | .lock _ => 5 * l + 4
  | .next _ _ => 5 * l + 3
  | .unlockNode _ _ => 5 * l + 7
  | .callNode _ _ => 5 * l + 6
  | .relock _ _ _ => 5 * l + 5
  | .zombieNode _ _ => 5 * l + 7
  | .remove _ _ _ => 5 * l + 4
  | .setLast _ => 2
  | .unlock => 1

/-- A step of the server's thread; a swap that fails for no reason is none. -/
def Act.own : Act → ℕ
  | .push none false | .server _ false => 1
  | _ => 0

/-- A step of any other kind. -/
def Act.other (a : Act) : ℕ := 1 - a.own

theorem Act.own_le (a : Act) : a.own ≤ 1 := by
  rw [Act.own.eq_def]
  split <;> decide

/-- What a step does to the cost. -/
def Pays (a : Act) (cost cost' : ℕ) : Prop := cost' + a.own ≤ cost + 26 * a.other

theorem pays_of_lt {cost cost' : ℕ} (h : cost' + 1 ≤ cost) : Pays a cost cost' := by
  have hown := a.own_le
  rw [Pays]
  omega

theorem pays_of_other {cost cost' : ℕ} (hother : a.own = 0) (h : cost' ≤ cost + 26) :
    Pays a cost cost' := by
  rw [Pays, Act.other, hother]
  omega

/-! ### The pushing threads -/

theorem Push.cost_le (pc : Push) (e e' : ℕ) : pc.cost e' ≤ pc.cost e + 3 := by
  cases pc with
  | sequence item pos =>
    rw [Push.cost, Push.cost]
    split_ifs <;> omega
  | cas item pos =>
    rw [Push.cost, Push.cost]
    split_ifs <;> omega
  | _ => exact Nat.le_add_right _ 3

/-- A step of another thread. -/
theorem cost_of_frame (hserver : s'.server = s.server) (hdeq : s'.dequeuePos = s.dequeuePos)
    (hpush : s'.push none = s.push none) (hle : s.enqueuePos ≤ s'.enqueuePos)
    (hle' : s'.enqueuePos ≤ s.enqueuePos + 1) {l' : ℕ} (hl : l' ≤ l + 1) :
    s'.cost l' ≤ s.cost l + 26 := by
  have hcost := (s.push none).cost_le s.enqueuePos s'.enqueuePos
  rw [State.cost, State.cost, hserver, hdeq, hpush]
  cases s.server <;> dsimp only <;> omega

/-- The cell of the next position to be claimed is free, or the ring is full. -/
theorem Inv.sequence_enqueuePos (h : Inv s ns) :
    SameWord (s.cellAt s.enqueuePos).sequence s.enqueuePos ∨
      NegDiff (s.cellAt s.enqueuePos).sequence s.enqueuePos := by
  by_cases hroom : s.enqueuePos < s.released + ringSize
  · rw [h.ring.free s.enqueuePos (Nat.le_refl _) hroom]
    exact .inl rfl
  · -- its cell is that of the first position that is not over
    have hfull : s.enqueuePos = s.released + ringSize :=
      Nat.le_antisymm h.ring.room (Nat.not_lt.mp hroom)
    have hcell : s.cellAt s.enqueuePos = s.cellAt s.released := by
      rw [hfull]
      exact cellAt_add_ringSize s s.released
    have hlt : s.released < s.enqueuePos := by
      rw [hfull, ringSize]
      omega
    right
    rw [hcell]
    by_cases hclaimed : s.Claimed s.released
    · rw [(h.claimed hclaimed).sequence, hfull, NegDiff, ringSize, wordSize]
      omega
    · rw [h.ring.taken s.released (Nat.le_refl _) hlt hclaimed, hfull, NegDiff, ringSize, wordSize]
      omega

/-- A step of `requeue`. -/
theorem Inv.cost_requeue (h : Inv s ns)
    (hstep : pushStep s none false = some s') :
    (s'.push none).cost s'.enqueuePos + 1 ≤ (s.push none).cost s.enqueuePos ∧
      ((∃ item node, s.push none = .link item node) →
        (s'.push none).cost s'.enqueuePos + 6 ≤ (s.push none).cost s.enqueuePos) := by
  have hok := h.push none
  cases hpc : s.push none with
  | idle => simp [pushStep, hpc] at hstep
  | load item =>
    simp only [pushStep, hpc, Option.some_inj] at hstep
    subst hstep
    exact ⟨by simp [State.setPush, Push.cost], by rintro ⟨_, _, ⟨⟩⟩⟩
  | sequence item pos =>
    rw [hpc] at hok
    simp only [pushStep, hpc] at hstep
    refine ⟨?_, by rintro ⟨_, _, ⟨⟩⟩⟩
    by_cases hstale : pos < s.enqueuePos
    · rw [Push.cost, if_pos hstale]
      split at hstep
      · obtain rfl := Option.some_inj.mp hstep
        rw [setPush_push_self, Push.cost]
        split <;> omega
      · split at hstep <;> obtain rfl := Option.some_inj.mp hstep <;>
          rw [setPush_push_self, Push.cost] <;> omega
    · -- it has loaded the position that is to be claimed
      obtain rfl : pos = s.enqueuePos := Nat.le_antisymm hok (Nat.not_lt.mp hstale)
      split at hstep
      · obtain rfl := Option.some_inj.mp hstep
        simp [State.setPush, Push.cost]
      · next hne =>
        rw [if_pos (h.sequence_enqueuePos.resolve_left hne)] at hstep
        obtain rfl := Option.some_inj.mp hstep
        simp [State.setPush, Push.cost]
  | cas item pos =>
    rw [hpc] at hok
    simp only [pushStep, hpc] at hstep
    refine ⟨?_, by rintro ⟨_, _, ⟨⟩⟩⟩
    split at hstep
    · obtain rfl := Option.some_inj.mp hstep
      rw [setPush_push_self, Push.cost, Push.cost]
      split <;> omega
    · next hfails =>
      -- the swap fails because of others: the position is gone
      have hstale : pos < s.enqueuePos := by
        refine Nat.lt_of_le_of_ne hok.1 fun heq => hfails ⟨?_, Bool.false_ne_true⟩
        rw [heq]
        exact rfl
      obtain rfl := Option.some_inj.mp hstep
      simp [State.setPush, Push.cost, hstale]
  | lock item node =>
    simp only [pushStep, hpc] at hstep
    split at hstep
    · obtain rfl := Option.some_inj.mp hstep
      exact ⟨by simp [State.setPush, Push.cost], by rintro ⟨_, _, ⟨⟩⟩⟩
    · simp at hstep
  | link item node =>
    simp only [pushStep, hpc, Option.some_inj] at hstep
    subst hstep
    exact ⟨by simp [State.setPush, Push.cost], fun _ => by simp [State.setPush, Push.cost]⟩
  | _ =>
    simp only [pushStep, hpc, Option.some_inj] at hstep
    subst hstep
    refine ⟨?_, by rintro ⟨_, _, ⟨⟩⟩⟩
    simp [State.setPush, State.setItem, State.setSequence, State.setCell, Push.cost]

/-- A swap that fails for no reason goes back to the sequence. -/
theorem pushStep_spurious (hstep : pushStep s th true = some s') :
    (∃ item pos, s.push th = .cas item pos ∧ s' = s.setPush th (.sequence item s.enqueuePos)) ∨
      pushStep s th false = some s' := by
  cases hpc : s.push th with
  | cas item pos =>
    simp only [pushStep, hpc, not_true_eq_false, and_false, if_false, Option.some_inj] at hstep
    exact .inl ⟨item, pos, rfl, hstep.symm⟩
  | _ =>
    simp only [pushStep, hpc] at hstep ⊢
    exact .inr hstep

theorem serverStep_spurious {result : Bool} (hstep : serverStep s result true = some s') :
    (∃ z remaining pos, s.server = .cas z remaining pos ∧
        s' = s.setServer (.sequence z remaining s.dequeuePos)) ∨
      serverStep s result false = some s' := by
  cases hpc : s.server with
  | cas z remaining pos =>
    simp only [serverStep, hpc, not_true_eq_false, and_false, if_false, Option.some_inj] at hstep
    exact .inl ⟨z, remaining, pos, rfl, hstep.symm⟩
  | call z remaining item =>
    cases z <;> simp only [serverStep, hpc] at hstep ⊢ <;> exact .inr hstep
  | _ =>
    simp only [serverStep, hpc] at hstep ⊢
    exact .inr hstep

/-! ### The server's thread -/

/-- The cell of the next position to be popped is published, or nothing is. -/
theorem Inv.sequence_dequeuePos (h : Inv s ns) (hpopping : s.server.popping = none) :
    SameWord (s.cellAt s.dequeuePos).sequence (s.dequeuePos + 1) ∨
      NegDiff (s.cellAt s.dequeuePos).sequence (s.dequeuePos + 1) := by
  have hrel : s.released = s.dequeuePos := by rw [State.released, hpopping, Option.getD_none]
  have hneg : NegDiff s.dequeuePos (s.dequeuePos + 1) := by
    rw [NegDiff, wordSize]
    omega
  rcases Nat.lt_or_eq_of_le h.ring.le with hlt | hempty
  · by_cases hclaimed : s.Claimed s.dequeuePos
    · rw [(h.claimed hclaimed).sequence]
      exact .inr hneg
    · rw [h.ring.taken s.dequeuePos (Nat.le_of_eq hrel) hlt hclaimed]
      exact .inl rfl
  · rw [h.ring.free s.dequeuePos (Nat.le_of_eq hempty.symm) (by rw [hrel, ringSize]; omega)]
    exact .inr hneg

/-- A step of `ringCount` or of `ringPop`, or between them. -/
theorem Inv.cost_ringStep (h : Inv s ns) {result : Bool} (hring : s.server.InRingPop)
    (hdue : Due ns l s.server) (hstep : serverStep s result false = some s') :
    Due ns l s'.server ∧ s'.cost l + 1 ≤ s.cost l := by
  have hok := h.server
  cases hpc : s.server with
  | countTail z =>
    simp only [serverStep, hpc, Option.some_inj] at hstep
    subst hstep
    rw [hpc] at hdue
    refine ⟨hdue, ?_⟩
    rw [State.cost, State.cost, hpc]
    exact Nat.le_refl _
  | countHead z tail =>
    rw [hpc] at hok hdue
    obtain rfl : tail = s.dequeuePos := hok
    simp only [serverStep, hpc, Option.some_inj, h.ring.count_eq] at hstep
    subst hstep
    refine ⟨hdue, ?_⟩
    rw [State.cost, State.cost, hpc]
    exact Nat.le_refl _
  | scan z remaining =>
    rw [hpc] at hdue
    simp only [serverStep, hpc] at hstep
    rw [State.cost, State.cost, hpc]
    split at hstep <;> obtain rfl := Option.some_inj.mp hstep <;> refine ⟨hdue, ?_⟩ <;>
      dsimp only [State.setServer] <;> omega
  | sequence z remaining pos =>
    rw [hpc] at hok hdue
    obtain rfl : pos = s.dequeuePos := hok
    simp only [serverStep, hpc] at hstep
    rw [State.cost, State.cost, hpc]
    split at hstep
    · obtain rfl := Option.some_inj.mp hstep
      exact ⟨hdue, Nat.le_refl _⟩
    · next hne =>
      rw [if_pos ((h.sequence_dequeuePos (by rw [hpc]; rfl)).resolve_left hne)] at hstep
      obtain rfl := Option.some_inj.mp hstep
      refine ⟨hdue, ?_⟩
      dsimp only [State.setServer]
      omega
  | cas z remaining pos =>
    rw [hpc] at hok hdue
    obtain rfl : pos = s.dequeuePos := hok.1
    simp only [serverStep, hpc] at hstep
    rw [State.cost, State.cost, hpc]
    -- no other thread pops
    rw [if_pos ⟨rfl, Bool.false_ne_true⟩] at hstep
    obtain rfl := Option.some_inj.mp hstep
    exact ⟨hdue, Nat.le_refl _⟩
  | function z remaining pos =>
    rw [hpc] at hdue
    simp only [serverStep, hpc, Option.some_inj] at hstep
    subst hstep
    rw [State.cost, State.cost, hpc]
    exact ⟨hdue, Nat.le_refl _⟩
  | client z remaining pos f =>
    rw [hpc] at hdue
    simp only [serverStep, hpc, Option.some_inj] at hstep
    subst hstep
    rw [State.cost, State.cost, hpc]
    exact ⟨hdue, Nat.le_refl _⟩
  | closure z remaining pos f c =>
    rw [hpc] at hdue
    simp only [serverStep, hpc, Option.some_inj] at hstep
    subst hstep
    rw [State.cost, State.cost, hpc]
    exact ⟨hdue, Nat.le_refl _⟩
  | requeue z remaining =>
    have hidle := h.idle_of_serverStep hstep
    rw [hpc] at hdue
    simp only [serverStep, hpc, hidle, Option.some_inj] at hstep
    subst hstep
    rw [State.cost, State.cost, hpc, hidle]
    exact ⟨hdue, Nat.le_refl _⟩
  | _ =>
    rw [hpc] at hring
    exact hring.elim

/-- A call of an item's function, which `requeue` may follow. -/
theorem cost_callStep {remaining : ℕ} {item : WorkItem} (hpc : s.server = .call z remaining item)
    (hdue : Due ns l s.server) {result : Bool} (hstep : serverStep s result false = some s') :
    s'.next = s.next ∧ Due ns l s'.server ∧ s'.cost l + 1 ≤ s.cost l := by
  rw [hpc] at hdue
  have hs : s.cost l = 21 * remaining + 5 * l + 19 := by rw [State.cost, hpc]
  have hscan : 21 * remaining + 5 * l + 5 + 1 ≤ s.cost l := by omega
  have hrequeue : 21 * remaining + 5 * l + 6 + 12 + 1 ≤ s.cost l := by omega
  have hpush : ∀ (t : State), ((t.setPush none (.load item)).setServer
      (.requeue z remaining)).cost l = 21 * remaining + 5 * l + 6 + 12 := fun t => by
    simp [State.cost, State.setServer, State.setPush, Push.cost]
  cases z <;> simp only [serverStep, hpc] at hstep <;> split at hstep <;>
    obtain rfl := Option.some_inj.mp hstep <;> refine ⟨rfl, hdue, ?_⟩ <;> first
      | exact hscan
      | exact (hpush _).symm ▸ hrequeue

/-- The finished node is taken out; it had been counted when the walk came to it. -/
theorem Inv.cost_remove (h : Inv s ns) (h' : Inv s' ns') {p : Option ℕ} {q : ℕ}
    (hpc : s.server = .remove z p q) (hdue : Due ns l s.server) {result : Bool}
    (hstep : serverStep s result false = some s') :
    ∃ l', Due ns' l' s'.server ∧ s'.cost l' + 1 ≤ s.cost l := by
  rw [hpc] at hdue
  obtain ⟨post, ⟨pre, rfl, rfl⟩, rfl⟩ := hdue
  simp only [serverStep, hpc, Option.some_inj] at hstep
  subst hstep
  have hnodes : ns' = pre ++ post := by
    refine h'.list.chain.unique ?_
    exact h.list.chain.remove h.list.nodup (by simp)
  rw [State.cost.eq_def s, hpc, hnodes]
  exact ⟨post.length, ⟨post, ⟨pre, rfl, rfl⟩, rfl⟩, Nat.le_refl _⟩

/-- A step of the walk. -/
theorem Inv.cost_listStep (h : Inv s ns) (h' : Inv s' ns') {result : Bool}
    (hring : ¬ s.server.InRingPop) (hdue : Due ns l s.server)
    (hstep : serverStep s result false = some s') :
    ∃ l', Due ns' l' s'.server ∧ s'.cost l' + 1 ≤ s.cost l := by
  -- a node ahead costs a whole turn; a step spends one of those of the turn it is in
  cases hpc : s.server with
  | idle => simp [serverStep, hpc] at hstep
  | release z remaining pos item =>
    rw [hpc] at hdue
    simp only [serverStep, hpc, Option.some_inj] at hstep
    subst hstep
    obtain rfl := h.nodes_eq h' rfl
    refine ⟨l, hdue, ?_⟩
    rw [State.cost, State.cost, hpc]
    exact Nat.le_refl _
  | call z remaining item =>
    obtain ⟨hnext, hdue', hlt⟩ := cost_callStep hpc hdue hstep
    obtain rfl := h.nodes_eq h' hnext
    exact ⟨l, hdue', hlt⟩
  | lock z =>
    rw [hpc] at hdue
    simp only [serverStep, hpc] at hstep
    split at hstep
    · obtain rfl := Option.some_inj.mp hstep
      obtain rfl := h.nodes_eq h' rfl
      obtain rfl : l = ns'.length := hdue
      refine ⟨ns'.length, ⟨ns', ⟨[], rfl, rfl⟩, rfl⟩, ?_⟩
      rw [State.cost, State.cost, hpc]
      exact Nat.le_refl _
    · simp at hstep
  | next z p =>
    rw [hpc] at hdue
    obtain ⟨post, hat, rfl⟩ := hdue
    simp only [serverStep, hpc, h.next_eq hat] at hstep
    rw [State.cost.eq_def s, hpc]
    cases post with
    | nil =>
      obtain rfl := Option.some_inj.mp hstep
      exact ⟨0, rfl, Nat.le_refl _⟩
    | cons q post =>
      obtain rfl := Option.some_inj.mp hstep
      obtain rfl := h.nodes_eq h' rfl
      cases z with
      | false => exact ⟨post.length, ⟨post, hat, rfl⟩, Nat.le_refl _⟩
      | true => exact ⟨post.length, ⟨post, hat, rfl⟩, Nat.le_refl _⟩
  | unlockNode p q =>
    rw [hpc] at hdue
    simp only [serverStep, hpc, Option.some_inj] at hstep
    subst hstep
    obtain rfl := h.nodes_eq h' rfl
    refine ⟨l, hdue, ?_⟩
    rw [State.cost, State.cost, hpc]
    exact Nat.le_refl _
  | callNode p q =>
    rw [hpc] at hdue
    simp only [serverStep, hpc, Option.some_inj] at hstep
    subst hstep
    obtain rfl := h.nodes_eq h' rfl
    refine ⟨l, hdue, ?_⟩
    rw [State.cost, State.cost, hpc]
    exact Nat.le_refl _
  | relock p q r =>
    rw [hpc] at hdue
    obtain ⟨post, hat, rfl⟩ := hdue
    simp only [serverStep, hpc] at hstep
    split at hstep
    · obtain rfl := Option.some_inj.mp hstep
      obtain rfl := h.nodes_eq h' rfl
      rw [State.cost.eq_def s, hpc]
      cases r with
      | true => exact ⟨post.length, ⟨post, hat, rfl⟩, Nat.le_refl _⟩
      | false =>
        refine ⟨post.length, ⟨post, hat.pass, rfl⟩, ?_⟩
        dsimp [State.cost, State.setServer]
        omega
    · simp at hstep
  | zombieNode p q =>
    rw [hpc] at hdue
    obtain ⟨post, hat, rfl⟩ := hdue
    simp only [serverStep, hpc] at hstep
    rw [State.cost.eq_def s, hpc]
    -- the client of the node is the one that is gone, or the walk passes it
    split at hstep <;> obtain rfl := Option.some_inj.mp hstep <;> obtain rfl := h.nodes_eq h' rfl
    · exact ⟨post.length, ⟨post, hat, rfl⟩, by dsimp [State.cost, State.setServer]; omega⟩
    · exact ⟨post.length, ⟨post, hat.pass, rfl⟩, by dsimp [State.cost, State.setServer]; omega⟩
  | remove z p q => exact h.cost_remove h' hpc hdue hstep
  | setLast p =>
    simp only [serverStep, hpc, Option.some_inj] at hstep
    subst hstep
    rw [State.cost.eq_def s, hpc]
    exact ⟨0, rfl, Nat.le_refl _⟩
  | unlock =>
    simp only [serverStep, hpc, Option.some_inj] at hstep
    subst hstep
    rw [State.cost.eq_def s, hpc]
    exact ⟨0, rfl, Nat.le_refl _⟩
  | _ =>
    rw [hpc] at hring
    exact absurd trivial hring

/-! ### Every step -/

/-- A step of `requeue` in the call. -/
theorem Inv.cost_pushNone (h : Inv s ns) (h' : Inv s' ns') (hdue : Due ns l s.server)
    (hserver : s'.server = s.server) (hstep : pushStep s none false = some s') :
    ∃ l', Due ns' l' s'.server ∧ s'.cost l' + 1 ≤ s.cost l := by
  obtain ⟨z, remaining, hpc⟩ := server_of_pushing h.own (pushStep_busy hstep)
  obtain ⟨hcost, hlink⟩ := h.cost_requeue hstep
  have hs : s.cost l = 21 * remaining + 5 * l + 6 + (s.push none).cost s.enqueuePos := by
    rw [State.cost, hpc]
  have hs' : ∀ l', s'.cost l' =
      21 * remaining + 5 * l' + 6 + (s'.push none).cost s'.enqueuePos := fun l' => by
    rw [State.cost, hserver, hpc]
  rw [hpc] at hdue
  obtain rfl : l = ns.length := hdue
  rw [hserver, hpc]
  rcases h.nodes_pushStep h' hstep with rfl | ⟨item, node, hpush, rfl⟩
  · refine ⟨ns'.length, rfl, ?_⟩
    rw [hs, hs']
    omega
  · have hlength : (ns ++ [node]).length = ns.length + 1 := List.length_append
    have hlinked := hlink ⟨item, node, hpush⟩
    refine ⟨_, rfl, ?_⟩
    rw [hs, hs', hlength]
    omega

/-- A step of a pushing thread. -/
theorem Inv.pays_pushStep (h : Inv s ns) (hdue : Due ns l s.server) {spurious : Bool}
    (hwrap : NoFullWrap s (.push th spurious)) (hstep : pushStep s th spurious = some s') :
    ∃ ns' l', Inv s' ns' ∧ Due ns' l' s'.server ∧
      Pays (.push th spurious) (s.cost l) (s'.cost l') := by
  obtain ⟨ns', -, h'⟩ := h.of_pushStep hwrap hstep
  have hframe := h.frame_pushStep hwrap hstep
  cases th with
  | some i =>
    have hpush : s'.push none = s.push none := pushStep_push_of_ne hstep (by simp)
    obtain ⟨-, -, henq⟩ := pushStep_log hstep
    obtain ⟨l', hl, hdue'⟩ : ∃ l' ≤ l + 1, Due ns' l' s.server := by
      rcases h.nodes_pushStep h' hstep with rfl | ⟨item, node, -, rfl⟩
      · exact ⟨l, Nat.le_succ l, hdue⟩
      · exact hdue.append node
    exact ⟨ns', l', h', hframe.server ▸ hdue', pays_of_other rfl
      (cost_of_frame hframe.server hframe.dequeuePos hpush hframe.enqueuePos henq hl)⟩
  | none =>
    have hstrict : pushStep s none false = some s' → ∃ l', Due ns' l' s'.server ∧
        s'.cost l' + 1 ≤ s.cost l :=
      h.cost_pushNone h' hdue hframe.server
    cases spurious with
    | false =>
      obtain ⟨l', hdue', hlt⟩ := hstrict hstep
      exact ⟨ns', l', h', hdue', pays_of_lt hlt⟩
    | true =>
      rcases pushStep_spurious hstep with ⟨item, pos, hpc, rfl⟩ | hstep'
      · obtain rfl := h'.list.chain.unique h.list.chain
        obtain ⟨z, remaining, hserver⟩ := server_of_pushing h.own (pushStep_busy hstep)
        refine ⟨ns', l, h', hdue, pays_of_other rfl ?_⟩
        rw [State.cost, State.cost, hserver, hpc]
        simp [State.setPush, hserver, Push.cost]
        split <;> omega
      · obtain ⟨l', hdue', hlt⟩ := hstrict hstep'
        exact ⟨ns', l', h', hdue', pays_of_lt hlt⟩

theorem Inv.pays_serverStep (h : Inv s ns) (hdue : Due ns l s.server) {result spurious : Bool}
    (hstep : serverStep s result spurious = some s') :
    ∃ ns' l', Inv s' ns' ∧ Due ns' l' s'.server ∧
      Pays (.server result spurious) (s.cost l) (s'.cost l') := by
  obtain ⟨ns', h'⟩ := h.of_serverStep hstep
  have hstrict : serverStep s result false = some s' → ∃ l', Due ns' l' s'.server ∧
      s'.cost l' + 1 ≤ s.cost l := by
    intro hstep
    by_cases hring : s.server.InRingPop
    · obtain rfl := h'.list.chain.unique (h.of_ringStep hring hstep).list.chain
      exact ⟨l, h.cost_ringStep hring hdue hstep⟩
    · exact h.cost_listStep h' hring hdue hstep
  cases spurious with
  | false =>
    obtain ⟨l', hdue', hlt⟩ := hstrict hstep
    exact ⟨ns', l', h', hdue', pays_of_lt hlt⟩
  | true =>
    rcases serverStep_spurious hstep with ⟨z, remaining, pos, hpc, rfl⟩ | hstep
    · obtain rfl := h'.list.chain.unique h.list.chain
      rw [hpc] at hdue
      refine ⟨ns', l, h', hdue, pays_of_other rfl ?_⟩
      rw [State.cost.eq_def s, hpc]
      dsimp [State.cost, State.setServer]
      omega
    · obtain ⟨l', hdue', hlt⟩ := hstrict hstep
      exact ⟨ns', l', h', hdue', pays_of_lt hlt⟩

/-- A step while no call is begun. -/
theorem Inv.pays_step (h : Inv s ns) (hdue : Due ns l s.server) (hwrap : NoFullWrap s a)
    (hcall : ∀ z, a ≠ .processWorkQueue z) (hstep : WorkQueue.step s a = some s') :
    ∃ ns' l', Inv s' ns' ∧ Due ns' l' s'.server ∧ Pays a (s.cost l) (s'.cost l') := by
  cases a with
  | queueWorkProc i =>
    obtain ⟨ns', h'⟩ := h.of_step hwrap hstep
    obtain ⟨hidle, rfl⟩ := step_queueWorkProc hstep
    obtain rfl := h'.list.chain.unique h.list.chain
    have hpush : ({ s with queued := s.queued + 1 }.setPush (some i)
        (.load (.of s.queued))).push none = s.push none := setPush_push_of_ne _ (by simp) _
    exact ⟨ns', l, h', hdue, pays_of_other rfl
      (cost_of_frame rfl rfl hpush (Nat.le_refl _) (Nat.le_succ _) (Nat.le_succ l))⟩
  | push th spurious => exact h.pays_pushStep hdue hwrap hstep
  | processWorkQueue z => exact absurd rfl (hcall z)
  | server result spurious => exact h.pays_serverStep hdue hstep
  | clientGone tag =>
    obtain ⟨ns', h'⟩ := h.of_step hwrap hstep
    obtain rfl := Option.some_inj.mp hstep
    obtain rfl := h'.list.chain.unique h.list.chain
    exact ⟨ns', l, h', hdue, pays_of_other rfl (Nat.le_add_right _ 26)⟩

/-- The steps of the server's thread in a run. -/
def ownSteps (as : List Act) : ℕ := (as.map Act.own).sum

/-- The steps of the others, and those of the functions. -/
def otherSteps (as : List Act) : ℕ := (as.map Act.other).sum

/-- What is left of the running call, in a state of a run. -/
def Costs (s : State) (k : ℕ) : Prop := ∃ ns l, Inv s ns ∧ Due ns l s.server ∧ s.cost l = k

theorem Costs.step {k : ℕ} (h : Costs s k) (hwrap : NoFullWrap s a)
    (hcall : ∀ z, a ≠ .processWorkQueue z) (hstep : Reentrant.step s a = some s') :
    ∃ k', Costs s' k' ∧ k' + a.own ≤ k + 26 * a.other := by
  obtain ⟨ns, l, hinv, hdue, rfl⟩ := h
  obtain ⟨ns', l', hinv', hdue', hpays⟩ :=
    hinv.pays_step hdue hwrap hcall (Reentrant.step_eq_some.mp hstep).2
  exact ⟨s'.cost l', ⟨ns', l', hinv', hdue', rfl⟩, hpays⟩

/-- A call takes no more steps than the items that it finds, and the steps of others in
between, make necessary. -/
theorem steps_le (h : Inv s ns) {bs : List Act}
    (hwrap : Meets Reentrant.step NoFullWrap s (.processWorkQueue z :: bs))
    (hcall : ∀ a ∈ bs, ∀ z, a ≠ .processWorkQueue z)
    (hrun : run Reentrant.step s (.processWorkQueue z :: bs) = some s') :
    ownSteps bs ≤
      21 * (s.enqueuePos - s.dequeuePos) + 5 * ns.length + 7 + 26 * otherSteps bs := by
  obtain ⟨s₁, hbegin, hrest⟩ := run_cons_eq_some.mp hrun
  have hok := (hwrap.of_step hbegin).and (meets_of_forall_mem hcall s₁)
  obtain ⟨-, hstep⟩ := Reentrant.step_eq_some.mp hbegin
  obtain ⟨ns₁, h₁⟩ := h.of_step hwrap.1 hstep
  obtain ⟨-, rfl⟩ := step_processWorkQueue hstep
  obtain rfl := h₁.list.chain.unique h.list.chain
  -- what the call may cost when it begins pays for its steps
  have hbegun : Costs (s.setServer (.countTail z))
      (21 * (s.enqueuePos - s.dequeuePos) + 5 * ns₁.length + 7) := ⟨ns₁, _, h₁, rfl, rfl⟩
  have hpays : ∃ k, Costs s' k ∧ k + (bs.map Act.own).sum ≤
      21 * (s.enqueuePos - s.dequeuePos) + 5 * ns₁.length + 7 +
        (bs.map fun a => 26 * a.other).sum :=
    run_pays (fun _ _ _ _ hcosts hok => hcosts.step hok.1 hok.2) hbegun hok hrest
  obtain ⟨k, -, hle⟩ := hpays
  have hsum : (bs.map fun a => 26 * a.other).sum = 26 * otherSteps bs :=
    List.sum_map_mul_left bs Act.other 26
  rw [ownSteps]
  omega

/-! ### Going on -/

/-- A step of the server's thread, or of the thread that has the lock. -/
def State.Moves (s : State) : Act → Prop
  | .server _ _ => True
  | .push th _ => th = none ∨ th = some 0 ∨ s.overflowLock = some th
  | _ => False

/-- A push goes on, or waits for the lock. -/
theorem pushStep_enabled (hbusy : (s.push th).busy = true) :
    (∃ s', pushStep s th false = some s') ∨
      ∃ th', (s.push th).locking = true ∧ s.overflowLock = some th' := by
  cases hpc : s.push th with
  | idle =>
    rw [hpc] at hbusy
    exact absurd hbusy Bool.false_ne_true
  | sequence item pos =>
    left
    simp only [pushStep, hpc]
    split
    · exact ⟨_, rfl⟩
    · split <;> exact ⟨_, rfl⟩
  | cas item pos =>
    left
    simp only [pushStep, hpc]
    split <;> exact ⟨_, rfl⟩
  | lock item node =>
    cases hlock : s.overflowLock with
    | none =>
      left
      simp only [pushStep, hpc, hlock, if_true]
      exact ⟨_, rfl⟩
    | some th' => exact .inr ⟨th', rfl, rfl⟩
  | _ =>
    left
    simp only [pushStep, hpc]
    exact ⟨_, rfl⟩

/-- So does a call that pushes nothing. -/
theorem serverStep_enabled (hbusy : s.server ≠ .idle) (hidle : s.push none = .idle) :
    (∃ s', serverStep s true false = some s') ∨
      ∃ th', s.server.locking = true ∧ s.overflowLock = some th' := by
  cases hpc : s.server with
  | idle => exact absurd hpc hbusy
  | lock z =>
    cases hlock : s.overflowLock with
    | none =>
      left
      simp only [serverStep, hpc, hlock, if_true]
      exact ⟨_, rfl⟩
    | some th' => exact .inr ⟨th', rfl, rfl⟩
  | relock p q result =>
    cases hlock : s.overflowLock with
    | none =>
      left
      simp only [serverStep, hpc, hlock, if_true]
      exact ⟨_, rfl⟩
    | some th' => exact .inr ⟨th', rfl, rfl⟩
  | requeue z remaining =>
    -- it has put the item back
    left
    simp only [serverStep, hpc, hidle]
    exact ⟨_, rfl⟩
  | scan z remaining =>
    left
    simp only [serverStep, hpc]
    split <;> exact ⟨_, rfl⟩
  | sequence z remaining pos =>
    left
    simp only [serverStep, hpc]
    split
    · exact ⟨_, rfl⟩
    · split <;> exact ⟨_, rfl⟩
  | cas z remaining pos =>
    left
    simp only [serverStep, hpc]
    split <;> exact ⟨_, rfl⟩
  | call z remaining item =>
    left
    cases z <;> simp only [serverStep, hpc] <;> split <;> exact ⟨_, rfl⟩
  | next z p =>
    left
    simp only [serverStep, hpc]
    split <;> exact ⟨_, rfl⟩
  | zombieNode p q =>
    left
    simp only [serverStep, hpc]
    split <;> exact ⟨_, rfl⟩
  | _ =>
    left
    simp only [serverStep, hpc]
    exact ⟨_, rfl⟩

/-- While a call is under way, its thread can go on, or waits for one that can. -/
def GoesOn (s : State) : Prop :=
  s.server ≠ .idle → ∃ a s', s.Moves a ∧ Reentrant.step s a = some s'

theorem Nested.goesOn (h : Nested s) (hspared : Spared s) : GoesOn s := by
  intro hbusy
  have hfree := h.not_selfLock hspared
  -- whoever has the lock the thread waits for is another one, and can go on
  have hother : ∀ th', s.overflowLock = some th' → s.Locking 0 →
      ∃ a s', s.Moves a ∧ Reentrant.step s a = some s' := by
    intro th' hlock hlocking
    cases th' with
    | none => exact absurd ⟨none, hlock, hlocking⟩ hfree
    | some i =>
      have hlocked : (s.push (some i)).locked = true := by
        rcases (h.lock.lock (some i)).mpr hlock with hheld | ⟨hnone, -⟩
        · exact hheld
        · exact nomatch hnone
      rcases pushStep_enabled (Push.busy_of_locked hlocked) with ⟨s', hs'⟩ | ⟨_, hwaits, -⟩
      · exact ⟨.push (some i) false, s', .inr (.inr hlock), Reentrant.step_eq_some.mpr ⟨rfl, hs'⟩⟩
      · exact absurd hlocked (Bool.eq_false_iff.mp (Push.of_locking hwaits).2)
  have hpushing : ∀ th, th = none ∨ th = some 0 → (s.push th).busy = true →
      ∃ a s', s.Moves a ∧ Reentrant.step s a = some s' := by
    intro th hth hpush
    rcases pushStep_enabled hpush with ⟨s', hs'⟩ | ⟨th', hlocking, hlock⟩
    · exact ⟨.push th false, s', hth.imp_right .inl, Reentrant.step_eq_some.mpr ⟨rfl, hs'⟩⟩
    · refine hother th' hlock (.inl ⟨th, ?_, hlocking⟩)
      rcases hth with rfl | rfl <;> rfl
  by_cases hfunction : (s.push (some 0)).busy = true
  · exact hpushing (some 0) (.inr rfl) hfunction
  · by_cases hrequeue : (s.push none).busy = true
    · exact hpushing none (.inl rfl) hrequeue
    · have hidle : s.push none = .idle := Push.busy_eq_false.mp (Bool.eq_false_iff.mpr hrequeue)
      have hready : s.ready (.server true false) = true := by
        rw [State.ready, Bool.eq_false_iff.mpr hfunction]
        rfl
      rcases serverStep_enabled hbusy hidle with ⟨s', hs'⟩ | ⟨th', hlocking, hlock⟩
      · exact ⟨.server true false, s', trivial, Reentrant.step_eq_some.mpr ⟨hready, hs'⟩⟩
      · exact hother th' hlock (.inr ⟨rfl, hlocking⟩)

/-! ### Self-deadlock -/

/-- A call that is begun now takes at most so many steps, if no thread is suspended for a whole
wrap of `enqueuePos`. -/
def Bounded (s : State) : Prop :=
  ∃ ns, Chain s.next none ns ∧ ∀ z bs s',
    Meets Reentrant.step NoFullWrap s (.processWorkQueue z :: bs) →
    (∀ a ∈ bs, ∀ z, a ≠ .processWorkQueue z) →
    run Reentrant.step s (.processWorkQueue z :: bs) = some s' →
    ownSteps bs ≤
      21 * (s.enqueuePos - s.dequeuePos) + 5 * ns.length + 7 + 26 * otherSteps bs

theorem Inv.bounded (h : Inv s ns) : Bounded s :=
  ⟨ns, h.list.chain, fun _ _ _ hwrap hcall hrun => steps_le h hwrap hcall hrun⟩

/-- In any run no thread waits for itself exactly if no function that is called by the walk of
`ProcessWorkQueueZombies` queues while the ring is full.  Then calls end when their functions do:
they always go on, and take so many steps at most. -/
theorem no_selfLock_iff {as : List Act} (hrun : run Reentrant.step initial as = some s) :
    (Always Reentrant.step (fun s => ¬ SelfLock s) initial as ↔
      Meets Reentrant.step Spares initial as) ∧
    (Meets Reentrant.step Spares initial as → Always Reentrant.step GoesOn initial as) ∧
    (Meets Reentrant.step NoFullWrap initial as → Always Reentrant.step Bounded initial as) := by
  have hstep : ∀ s a s', Nested s ∧ Spared s → Spares s a → Reentrant.step s a = some s' →
      Nested s' ∧ Spared s' :=
    fun s a s' ⟨h, hspared⟩ hok hs => ⟨h.of_step hs, hspared.of_step hok hs⟩
  have hinitial : Nested initial ∧ Spared initial := ⟨.initial, .initial⟩
  refine ⟨always_iff_meets (fun s ⟨h, hspared⟩ => h.not_selfLock hspared) ?_ hstep hinitial hrun,
    Always.of_invariant (fun s ⟨h, hspared⟩ => h.goesOn hspared) hstep hinitial, fun hwrap => ?_⟩
  · rintro s a s' ⟨h, hspared⟩ hs
    constructor
    · intro hok
      obtain ⟨h', hspared'⟩ := hstep s a s' ⟨h, hspared⟩ hok hs
      exact h'.not_selfLock hspared'
    · intro hfree
      by_contra hnot
      exact hfree (h.selfLock_of_not_spares hnot hs)
  · exact Always.of_invariant (I := fun s => ∃ ns, Inv s ns) (fun s ⟨ns, h⟩ => h.bounded)
      (fun s a s' ⟨ns, h⟩ hok hs => h.of_step hok (Reentrant.step_eq_some.mp hs).2)
      ⟨[], .initial⟩ hwrap

theorem Reentrant.noFullWrap_of_short {as : List Act} (h : s.enqueuePos + as.length < wordSize) :
    Meets Reentrant.step NoFullWrap s as :=
  (WorkQueue.noFullWrap_of_short h).of_sub fun _ _ _ hs => (step_eq_some.mp hs).2

theorem zombieCall_no_selfLock : ∃ s,
    run Reentrant.step initial (queueMany ++ firstCall ++ clientsGo ++ zombieCall) = some s ∧
    Always Reentrant.step (fun s => ¬ SelfLock s) initial
      (queueMany ++ firstCall ++ clientsGo ++ zombieCall) ∧ GoesOn s ∧ Bounded s := by
  have hrun : (run (restrict Reentrant.step Spares) initial
      (queueMany ++ firstCall ++ clientsGo ++ zombieCall)).isSome = true := by decide +kernel
  obtain ⟨s, hs⟩ := Option.isSome_iff_exists.mp hrun
  obtain ⟨hs, hok⟩ := run_restrict_eq_some hs
  have hwrap : Meets Reentrant.step NoFullWrap initial
      (queueMany ++ firstCall ++ clientsGo ++ zombieCall) :=
    Reentrant.noFullWrap_of_short (by decide +kernel)
  obtain ⟨hiff, hgoesOn, hbounded⟩ := no_selfLock_iff hs
  exact ⟨s, hs, hiff.mpr hok, (hgoesOn hok).of_run hs, (hbounded hwrap).of_run hs⟩

/-- A call of `QueueWorkProc` by a producer. -/
def queueBy (i : ℕ) : List Act := .queueWorkProc i :: List.replicate 7 (.push (some i) false)

/-- `ProcessWorkQueueZombies` has counted an empty ring when a producer queues 129 items and the
client of the last one, which is in the list, goes.  Its function is called, and queues. -/
def zombieQueues : List Act :=
  Act.processWorkQueue true :: List.replicate 2 (Act.server false false) ++
    (List.replicate 129 (queueBy 1)).flatten ++ Act.clientGone 128 ::
    (List.replicate 3 (Act.server false false) ++
      Act.queueWorkProc 0 :: List.replicate 3 (Act.push (some 0) false))

/-- The server's thread waits for the lock that it has taken for the walk. -/
theorem zombieQueues_selfLock : ∃ as s, run Reentrant.step initial as = some s ∧ SelfLock s := by
  have hrun : (run Reentrant.step initial zombieQueues).map
      (fun s => (s.overflowLock, (s.push (some 0)).locking)) = some (some none, true) := by
    decide +kernel
  obtain ⟨s, hs, heq⟩ := Option.map_eq_some_iff.mp hrun
  obtain ⟨hlock, hlocking⟩ := Prod.mk.inj heq
  exact ⟨zombieQueues, s, hs, none, hlock, .inl ⟨some 0, rfl, hlocking⟩⟩

end WorkQueue
