/-
Functions that queue work (`workqueue.cpp`).

A function that `ProcessWorkQueue` or its zombie sibling calls may call `QueueWorkProc`, and
so may the server's thread between two such calls.  What it queues is pushed as by producer
0, and the server's thread goes on when its function has returned: the runs here are those
runs of the queue in which it does not go on before.

* `Reentrant.step` — the steps that are left;
* `LockInv` — the thread that has the lock is where the code holds it;
* `SelfLock` — a thread waits for the lock that it has;
* `Nested.not_selfLock`, `Nested.selfLock_of_not_spares` — only one that a function called by
  the zombie sibling's walk of the list queues from.
-/
import KaliGui.Lib.SpinLock
import KaliGui.WorkQueue.ExactlyOnce

namespace WorkQueue

open Machine SpinLock

/-! ### The functions -/

/-- Not idle. -/
def Push.busy : Push → Bool
  | .idle => false
  | _ => true

theorem Push.busy_eq_false {pc : Push} : pc.busy = false ↔ pc = .idle := by
  cases pc <;> simp [Push.busy]

/-- The server's thread is in an item's function, or in no call of `ProcessWorkQueue`. -/
def State.mayQueue (s : State) : Bool :=
  match s.server with
  | .idle | .call false _ _ | .callNode _ _ => true
  | .call true _ item => s.gone item.client
  | .zombieNode _ q => s.gone (s.nodeItem q).client
  | _ => false

/-- What the server's thread queues, it queues from a function, and goes on afterwards. -/
def State.ready (s : State) : Act → Bool
  | .queueWorkProc i => i ≠ 0 || s.mayQueue
  | .processWorkQueue _ | .server _ _ => !(s.push (some 0)).busy
  | .push _ _ | .clientGone _ => true

namespace Reentrant

/-- One step of one thread, the server's thread being in one function at a time. -/
def step (s : State) (a : Act) : Option State := if s.ready a then WorkQueue.step s a else none

end Reentrant

variable {s s' : State} {ns ns' : List ℕ} {a : Act} {th : Thread}

theorem Reentrant.step_eq_some :
    Reentrant.step s a = some s' ↔ s.ready a = true ∧ WorkQueue.step s a = some s' :=
  Option.ite_none_right_eq_some

/-! ### The lock -/

/-- In `overflowPush`, with the lock. -/
def Push.locked : Push → Bool
  | .link _ _ | .setLast _ | .unlock => true
  | _ => false

/-- In the walk of the list, with the lock. -/
def Server.locked : Server → Bool
  | .next _ _ | .unlockNode _ _ | .zombieNode _ _ | .remove _ _ _ | .setLast _ | .unlock => true
  | _ => false

/-- The thread is where it has the lock. -/
def State.InLock (s : State) (th : Thread) : Prop :=
  (s.push th).locked = true ∨ th = none ∧ s.server.locked = true

/-- What a step of a pushing thread does with the lock. -/
theorem pushStep_lock {spurious : Bool} (hstep : pushStep s th spurious = some s') :
    Change th ((s.push th).locked = true) ((s'.push th).locked = true) s.overflowLock
      s'.overflowLock := by
  cases hpc : s.push th with
  | lock item node =>
    simp only [pushStep, hpc] at hstep
    split at hstep
    · next hfree =>
      obtain rfl := Option.some_inj.mp hstep
      rw [hfree, setPush_push_self]
      exact .acquire rfl
    · simp at hstep
  | unlock =>
    simp only [pushStep, hpc, Option.some_inj] at hstep
    subst hstep
    rw [setPush_push_self]
    exact .release rfl Bool.false_ne_true
  | _ =>
    simp only [pushStep, hpc] at hstep
    repeat' split at hstep
    all_goals first
      | (obtain rfl := Option.some_inj.mp hstep
         rw [setPush_push_self]
         exact .keep Iff.rfl)
      | (exact absurd hstep (by simp))

/-- What a step of the server's thread does with it. -/
theorem serverStep_lock {result spurious : Bool} (hstep : serverStep s result spurious = some s') :
    Change (T := Thread) none (s.server.locked = true) (s'.server.locked = true) s.overflowLock
      s'.overflowLock := by
  cases hpc : s.server with
  | lock z =>
    simp only [serverStep, hpc] at hstep
    split at hstep
    · next hfree =>
      obtain rfl := Option.some_inj.mp hstep
      rw [hfree]
      exact .acquire rfl
    · simp at hstep
  | relock p q r =>
    simp only [serverStep, hpc] at hstep
    split at hstep
    · next hfree =>
      obtain rfl := Option.some_inj.mp hstep
      rw [hfree]
      cases r <;> exact .acquire rfl
    · simp at hstep
  | unlockNode p q =>
    simp only [serverStep, hpc, Option.some_inj] at hstep
    subst hstep
    exact .release rfl Bool.false_ne_true
  | unlock =>
    simp only [serverStep, hpc, Option.some_inj] at hstep
    subst hstep
    exact .release rfl Bool.false_ne_true
  | next z p =>
    simp only [serverStep, hpc] at hstep
    split at hstep <;> obtain rfl := Option.some_inj.mp hstep
    · exact .keep Iff.rfl
    · cases z <;> exact .keep Iff.rfl
  | call z remaining item =>
    cases z <;> simp only [serverStep, hpc] at hstep <;> split at hstep <;>
      obtain rfl := Option.some_inj.mp hstep <;> exact .keep Iff.rfl
  | _ =>
    simp only [serverStep, hpc] at hstep
    repeat' split at hstep
    all_goals first
      | (obtain rfl := Option.some_inj.mp hstep; exact .keep Iff.rfl)
      | (exact absurd hstep (by simp))

/-! ### Nodes -/

/-- What a pushing thread leaves as it is. -/
theorem pushStep_frame {spurious : Bool} (hstep : pushStep s th spurious = some s') :
    s'.server = s.server ∧ s'.gone = s.gone ∧ s.nodes ≤ s'.nodes ∧
      ∀ n < s.nodes, s'.nodeItem n = s.nodeItem n := by
  cases hpc : s.push th with
  | alloc item =>
    simp only [pushStep, hpc, Option.some_inj] at hstep
    subst hstep
    exact ⟨rfl, rfl, Nat.le_succ _, fun n hn => Function.update_of_ne (Nat.ne_of_lt hn) ..⟩
  | _ =>
    simp only [pushStep, hpc] at hstep
    repeat' split at hstep
    all_goals first
      | (obtain rfl := Option.some_inj.mp hstep; exact ⟨rfl, rfl, Nat.le_refl _, fun _ _ => rfl⟩)
      | (exact absurd hstep (by simp))

/-- Only `*overflowLast = node` changes which nodes are in the list. -/
theorem pushStep_next {spurious : Bool} (hstep : pushStep s th spurious = some s') :
    (∃ item node, s.push th = .link item node ∧
        s'.next = Function.update s.next s.overflowLast (some node)) ∨
      s'.next = s.next ∨ s'.next = Function.update s.next (some s.nodes) none := by
  cases hpc : s.push th <;> simp only [pushStep, hpc] at hstep <;> repeat' split at hstep
  all_goals first
    | (obtain rfl := Option.some_inj.mp hstep; exact .inl ⟨_, _, rfl, rfl⟩)
    | (obtain rfl := Option.some_inj.mp hstep; exact .inr (.inl rfl))
    | (obtain rfl := Option.some_inj.mp hstep; exact .inr (.inr rfl))
    | (exact absurd hstep (by simp))

/-- The node that a thread has allocated. -/
theorem pushStep_node {spurious : Bool} (hstep : pushStep s th spurious = some s') {n : ℕ}
    (hnode : (s'.push th).node = some n) : (s.push th).node = some n ∨ n < s'.nodes := by
  cases hpc : s.push th with
  | alloc item =>
    simp only [pushStep, hpc, Option.some_inj] at hstep
    subst hstep
    rw [setPush_push_self] at hnode
    obtain rfl : s.nodes = n := Option.some_inj.mp hnode
    exact .inr (Nat.lt_succ_self _)
  | lock item node =>
    simp only [pushStep, hpc] at hstep
    split at hstep
    · obtain rfl := Option.some_inj.mp hstep
      rw [setPush_push_self] at hnode
      exact .inl hnode
    · simp at hstep
  | _ =>
    simp only [pushStep, hpc] at hstep
    repeat' split at hstep
    all_goals first
      | (obtain rfl := Option.some_inj.mp hstep
         rw [setPush_push_self] at hnode
         exact absurd hnode (by simp [Push.node]))
      | (exact absurd hstep (by simp))

/-- What a step of the server's thread leaves as it is, and what it makes of the list. -/
theorem serverStep_next {result spurious : Bool} (hstep : serverStep s result spurious = some s') :
    s'.nodes = s.nodes ∧
      (s'.next = s.next ∨ ∃ p q, s'.next = Function.update s.next p (s.next (some q))) := by
  cases hpc : s.server <;> simp only [serverStep, hpc] at hstep <;> repeat' split at hstep
  all_goals first
    | (obtain rfl := Option.some_inj.mp hstep; exact ⟨rfl, .inl rfl⟩)
    | (obtain rfl := Option.some_inj.mp hstep; exact ⟨rfl, .inr ⟨_, _, rfl⟩⟩)
    | (exact absurd hstep (by simp))

/-- The walk of the zombies comes to a node through a pointer to it. -/
theorem serverStep_zombieNode {result spurious : Bool}
    (hstep : serverStep s result spurious = some s') {p : Option ℕ} {q : ℕ}
    (hpc' : s'.server = .zombieNode p q) : s.next p = some q := by
  cases hpc : s.server with
  | next z p' =>
    simp only [serverStep, hpc] at hstep
    split at hstep <;> obtain rfl := Option.some_inj.mp hstep
    · cases hpc'
    · next q' hq =>
      cases z with
      | true =>
        obtain ⟨rfl, rfl⟩ := Server.zombieNode.inj hpc'
        exact hq
      | false => cases hpc'
  | relock p' q' r =>
    simp only [serverStep, hpc] at hstep
    split at hstep
    · obtain rfl := Option.some_inj.mp hstep
      cases r <;> cases hpc'
    · simp at hstep
  | call z remaining item =>
    cases z <;> simp only [serverStep, hpc] at hstep <;> split at hstep <;>
      obtain rfl := Option.some_inj.mp hstep <;> cases hpc'
  | _ =>
    simp only [serverStep, hpc] at hstep
    repeat' split at hstep
    all_goals first
      | (obtain rfl := Option.some_inj.mp hstep; cases hpc')
      | (exact absurd hstep (by simp))

/-- What the server's thread puts back, it puts back in `requeue`. -/
theorem serverStep_none {result spurious : Bool} (hstep : serverStep s result spurious = some s') :
    s'.push none = s.push none ∨
      ∃ item z remaining, s'.push none = .load item ∧ s'.server = .requeue z remaining := by
  have hloaded : ∀ (t : State) (item : WorkItem) (pc : Server),
      ((t.setPush none (.load item)).setServer pc).push none = .load item :=
    fun t item _ => setPush_push_self t none (.load item)
  cases hpc : s.server <;> simp only [serverStep, hpc] at hstep <;> repeat' split at hstep
  all_goals first
    | (obtain rfl := Option.some_inj.mp hstep; exact .inl rfl)
    | (obtain rfl := Option.some_inj.mp hstep; exact .inr ⟨_, _, _, hloaded .., rfl⟩)
    | (exact absurd hstep (by simp))

/-! ### The invariant -/

/-- What the lock needs: who has it is where the code holds it, and the nodes that are pointed
to are there. -/
structure LockInv (s : State) : Prop where
  own : (∀ z remaining, s.server ≠ .requeue z remaining) → s.push none = .idle
  lock : Exact s.InLock s.overflowLock
  next : ∀ p q, s.next p = some q → q < s.nodes
  node : ∀ th n, (s.push th).node = some n → n < s.nodes
  zombie : ∀ p q, s.server = .zombieNode p q → q < s.nodes

theorem LockInv.initial : LockInv initial where
  own _ := rfl
  lock th := iff_of_false (by rintro (h | ⟨-, h⟩) <;> exact Bool.false_ne_true h) nofun
  next _ _ := nofun
  node _ _ := nofun
  zombie _ _ := nofun

/-- The server's thread itself pushes in `requeue`. -/
theorem server_of_pushing
    (hown : (∀ z remaining, s.server ≠ .requeue z remaining) → s.push none = .idle)
    (hbusy : (s.push none).busy = true) : ∃ z remaining, s.server = .requeue z remaining := by
  by_contra hnot
  push Not at hnot
  rw [hown hnot] at hbusy
  exact nomatch hbusy

theorem pushStep_busy {spurious : Bool} (hstep : pushStep s th spurious = some s') :
    (s.push th).busy = true := by
  cases hpc : s.push th with
  | idle => simp [pushStep, hpc] at hstep
  | _ => rfl

theorem LockInv.of_pushStep (h : LockInv s) {spurious : Bool}
    (hstep : pushStep s th spurious = some s') : LockInv s' := by
  obtain ⟨hserver, -, hnodes, -⟩ := pushStep_frame hstep
  have hothers : ∀ th', th' ≠ th → s'.push th' = s.push th' := fun th' hth =>
    pushStep_push_of_ne hstep hth
  -- the server's thread pushes in `requeue`, without the lock
  have hself : ∀ (t : State), t.server = s.server → (t.InLock th ↔ (t.push th).locked = true) := by
    refine fun t ht => or_iff_left ?_
    rintro ⟨rfl, hlocked⟩
    obtain ⟨z, remaining, hpc⟩ := server_of_pushing h.own (pushStep_busy hstep)
    rw [ht, hpc] at hlocked
    exact nomatch hlocked
  refine ⟨fun hreq => ?_, ?_, fun p q hq => ?_, fun th' n hn => ?_, fun p q hq => ?_⟩
  · have hidle : s.push none = .idle := h.own (hserver ▸ hreq)
    rw [hothers none, hidle]
    rintro rfl
    have hbusy := pushStep_busy hstep
    rw [hidle] at hbusy
    exact nomatch hbusy
  · refine h.lock.change ((pushStep_lock hstep).congr (hself s rfl) (hself s' hserver))
      fun th' hth => ?_
    rw [State.InLock, State.InLock, hothers th' hth, hserver]
  · rcases pushStep_next hstep with ⟨item, node, hpc, hnext⟩ | hnext | hnext <;>
      rw [hnext] at hq
    · rw [Function.update_apply] at hq
      split at hq
      · refine Nat.lt_of_lt_of_le (h.node th q ?_) hnodes
        rw [hpc]
        exact hq
      · exact Nat.lt_of_lt_of_le (h.next p q hq) hnodes
    · exact Nat.lt_of_lt_of_le (h.next p q hq) hnodes
    · rw [Function.update_apply] at hq
      split at hq
      · exact nomatch hq
      · exact Nat.lt_of_lt_of_le (h.next p q hq) hnodes
  · by_cases hth : th' = th
    · subst hth
      exact (pushStep_node hstep hn).elim
        (fun hold => Nat.lt_of_lt_of_le (h.node th' n hold) hnodes) id
    · exact Nat.lt_of_lt_of_le (h.node th' n (hothers th' hth ▸ hn)) hnodes
  · exact Nat.lt_of_lt_of_le (h.zombie p q (hserver ▸ hq)) hnodes

theorem LockInv.of_serverStep (h : LockInv s) {result spurious : Bool}
    (hstep : serverStep s result spurious = some s') : LockInv s' := by
  have hidle : s.push none = .idle := idle_of_serverStep h.own hstep
  have hnone := serverStep_none hstep
  rw [hidle] at hnone
  have hfree : (s'.push none).locked = false ∧ (s'.push none).node = none := by
    rcases hnone with hnone | ⟨item, z, remaining, hnone, -⟩ <;> rw [hnone] <;> exact ⟨rfl, rfl⟩
  have hself : s.InLock none ↔ s.server.locked = true := by
    rw [State.InLock, hidle]
    simp [Push.locked]
  have hself' : s'.InLock none ↔ s'.server.locked = true := by
    rw [State.InLock, hfree.1]
    simp
  obtain ⟨hnodes, hnext⟩ := serverStep_next hstep
  refine ⟨fun hreq => ?_, ?_, fun p q hq => ?_, fun th n hn => ?_, fun p q hq => ?_⟩
  · rcases hnone with hnone | ⟨item, z, remaining, -, hpc⟩
    · exact hnone
    · exact absurd hpc (hreq z remaining)
  · refine h.lock.change ((serverStep_lock hstep).congr hself hself') fun th hth => ?_
    cases th with
    | none => exact absurd rfl hth
    | some i =>
      rw [State.InLock, State.InLock, serverStep_push hstep i]
      exact or_congr_right (iff_of_false (fun hin => nomatch hin.1) fun hin => nomatch hin.1)
  · rw [hnodes]
    rcases hnext with hnext | ⟨p', q', hnext⟩ <;> rw [hnext] at hq
    · exact h.next p q hq
    · rw [Function.update_apply] at hq
      split at hq <;> exact h.next _ q hq
  · rw [hnodes]
    cases th with
    | none => exact nomatch hfree.2.symm.trans hn
    | some i => exact h.node (some i) n (serverStep_push hstep i ▸ hn)
  · rw [hnodes]
    exact h.next p q (serverStep_zombieNode hstep hq)

theorem LockInv.of_step (h : LockInv s) (hstep : WorkQueue.step s a = some s') : LockInv s' := by
  cases a with
  | queueWorkProc i =>
    obtain ⟨hidle, rfl⟩ := step_queueWorkProc hstep
    have hpush : ∀ th, th ≠ some i → ({ s with queued := s.queued + 1 }.setPush (some i)
        (.load (.of s.queued))).push th = s.push th := fun th hth => setPush_push_of_ne _ hth _
    refine ⟨fun hreq => (hpush none nofun).trans (h.own hreq), h.lock.congr fun th => ?_, h.next,
      fun th n hn => ?_, h.zombie⟩
    · by_cases hth : th = some i
      · subst hth
        rw [State.InLock, State.InLock, setPush_push_self, hidle]
        exact Iff.rfl
      · rw [State.InLock, State.InLock, hpush th hth]
        exact Iff.rfl
    · by_cases hth : th = some i
      · subst hth
        rw [setPush_push_self] at hn
        exact nomatch hn
      · exact h.node th n (hpush th hth ▸ hn)
  | push th spurious => exact h.of_pushStep hstep
  | processWorkQueue z =>
    obtain ⟨hpc, rfl⟩ := step_processWorkQueue hstep
    refine ⟨fun _ => h.own (by simp [hpc]), h.lock.congr fun th => ?_, h.next, h.node, nofun⟩
    rw [State.InLock, State.InLock, hpc]
    exact Iff.rfl
  | server result spurious => exact h.of_serverStep hstep
  | clientGone tag =>
    obtain rfl := Option.some_inj.mp hstep
    exact ⟨h.own, h.lock, h.next, h.node, h.zombie⟩

/-! ### A thread that waits for itself -/

/-- About to take the lock. -/
def Push.locking : Push → Bool
  | .lock _ _ => true
  | _ => false

def Server.locking : Server → Bool
  | .lock _ | .relock _ _ _ => true
  | _ => false

/-- A thread is about to take the lock; the server's is number 0. -/
def State.Locking (s : State) (n : ℕ) : Prop :=
  (∃ th, th.getD 0 = n ∧ (s.push th).locking = true) ∨ n = 0 ∧ s.server.locking = true

/-- A thread is about to take the lock that it has. -/
def SelfLock (s : State) : Prop := ∃ th, s.overflowLock = some th ∧ s.Locking (th.getD 0)

/-- Has found the ring full. -/
def Push.spilling : Push → Bool
  | .alloc _ => true
  | _ => false

/-- In the walk of `ProcessWorkQueueZombies`, at a node. -/
def Server.zombieWalk : Server → Bool
  | .zombieNode _ _ => true
  | _ => false

/-- No function that is called by the walk of `ProcessWorkQueueZombies` goes on to
`overflowPush`, the ring being full when it queues. -/
def Spares (s : State) : Act → Prop
  | .push th _ => th = some 0 → ¬ ((s.push th).spilling = true ∧ s.server.zombieWalk = true)
  | _ => True

instance (s : State) (a : Act) : Decidable (Spares s a) :=
  match a with
  | .push _ _ => inferInstanceAs (Decidable (_ → _))
  | .queueWorkProc _ => inferInstanceAs (Decidable True)
  | .processWorkQueue _ => inferInstanceAs (Decidable True)
  | .server _ _ => inferInstanceAs (Decidable True)
  | .clientGone _ => inferInstanceAs (Decidable True)

/-- What the server's thread queues besides `requeue`, it queues from a function. -/
structure Nested (s : State) : Prop where
  lock : LockInv s
  mayQueue : (s.push (some 0)).busy = true → s.mayQueue = true

theorem Nested.initial : Nested initial := ⟨.initial, nofun⟩

/-- No function that the walk of the zombies has called is about to take the lock. -/
def Spared (s : State) : Prop :=
  (s.push (some 0)).locking = true → s.server.zombieWalk = false

theorem Spared.initial : Spared initial := nofun

/-- Who is about to take the lock comes from where the ring was full. -/
theorem pushStep_locking {spurious : Bool} (hstep : pushStep s th spurious = some s')
    (hlock : (s'.push th).locking = true) : (s.push th).spilling = true := by
  cases hpc : s.push th <;> simp only [pushStep, hpc] at hstep <;> repeat' split at hstep
  all_goals first
    | rfl
    | (obtain rfl := Option.some_inj.mp hstep
       rw [setPush_push_self] at hlock
       exact absurd hlock Bool.false_ne_true)
    | (exact absurd hstep (by simp))

/-- A step of a pushing thread lets the server's go on queueing. -/
theorem Nested.mayQueue_pushStep (h : Nested s) {spurious : Bool}
    (hstep : pushStep s th spurious = some s') : s'.mayQueue = s.mayQueue := by
  obtain ⟨hserver, hgone, -, hitem⟩ := pushStep_frame hstep
  rw [State.mayQueue, State.mayQueue, hserver]
  cases hpc : s.server with
  | call z remaining item =>
    cases z with
    | true => exact congrFun hgone _
    | false => rfl
  | zombieNode p q =>
    dsimp only
    rw [hitem q (h.lock.zombie p q hpc), hgone]
  | _ => rfl

/-- The server's thread queues nothing while it goes on. -/
theorem Nested.of_idle (hlock : LockInv s) (hidle : s.push (some 0) = .idle) : Nested s := by
  refine ⟨hlock, fun hbusy => ?_⟩
  rw [hidle] at hbusy
  exact nomatch hbusy

theorem Spared.of_idle (hidle : s.push (some 0) = .idle) : Spared s := by
  intro hlock
  rw [hidle] at hlock
  exact nomatch hlock

theorem Nested.of_pushStep (h : Nested s) {spurious : Bool}
    (hstep : pushStep s th spurious = some s') : Nested s' := by
  refine ⟨h.lock.of_pushStep hstep, fun hbusy => ?_⟩
  rw [h.mayQueue_pushStep hstep]
  refine h.mayQueue ?_
  by_cases hth : some 0 = th
  · exact hth ▸ pushStep_busy hstep
  · exact pushStep_push_of_ne hstep hth ▸ hbusy

theorem Spared.of_pushStep (hs : Spared s) {spurious : Bool} (hok : Spares s (.push th spurious))
    (hstep : pushStep s th spurious = some s') : Spared s' := by
  intro hlock
  rw [(pushStep_frame hstep).1]
  by_cases hth : some 0 = th
  · subst hth
    exact Bool.eq_false_iff.mpr fun hwalk => hok rfl ⟨pushStep_locking hstep hlock, hwalk⟩
  · exact hs (pushStep_push_of_ne hstep hth ▸ hlock)

/-- The function that the server's thread was in has returned when it goes on. -/
theorem idle_of_ready (hready : (!(s.push (some 0)).busy) = true) : s.push (some 0) = .idle :=
  Push.busy_eq_false.mp (Bool.not_eq_true' _ ▸ hready)

theorem Nested.of_step (h : Nested s) (hstep : Reentrant.step s a = some s') : Nested s' := by
  obtain ⟨hready, hstep⟩ := Reentrant.step_eq_some.mp hstep
  have hlock : LockInv s' := h.lock.of_step hstep
  cases a with
  | queueWorkProc i =>
    obtain ⟨hidle, rfl⟩ := step_queueWorkProc hstep
    refine ⟨hlock, fun hbusy => ?_⟩
    change s.mayQueue = true
    -- the server's thread calls it only from a function, or between two calls
    by_cases hi : i = 0
    · subst hi
      exact hready
    · refine h.mayQueue ?_
      rwa [setPush_push_of_ne _ (by simpa using Ne.symm hi)] at hbusy
  | push th spurious => exact h.of_pushStep hstep
  | processWorkQueue z =>
    obtain ⟨-, rfl⟩ := step_processWorkQueue hstep
    exact .of_idle hlock (idle_of_ready hready)
  | server result spurious =>
    exact .of_idle hlock ((serverStep_push hstep 0).trans (idle_of_ready hready))
  | clientGone tag =>
    obtain rfl := Option.some_inj.mp hstep
    refine ⟨hlock, fun hbusy => ?_⟩
    have hmay := h.mayQueue hbusy
    -- a client that is gone does not come back
    have hgoes : ∀ t, s.gone t = true → Function.update s.gone tag true t = true := by
      intro t ht
      rw [Function.update_apply]
      split
      · rfl
      · exact ht
    rw [State.mayQueue] at hmay ⊢
    dsimp only
    cases hpc : s.server with
    | call z remaining item =>
      rw [hpc] at hmay
      cases z with
      | true => exact hgoes _ hmay
      | false => rfl
    | zombieNode p q =>
      rw [hpc] at hmay
      exact hgoes _ hmay
    | _ => simp_all

theorem Spared.of_step (hs : Spared s) (hok : Spares s a)
    (hstep : Reentrant.step s a = some s') : Spared s' := by
  obtain ⟨hready, hstep⟩ := Reentrant.step_eq_some.mp hstep
  cases a with
  | queueWorkProc i =>
    obtain ⟨hidle, rfl⟩ := step_queueWorkProc hstep
    intro hlock
    by_cases hi : i = 0
    · subst hi
      rw [setPush_push_self] at hlock
      exact nomatch hlock
    · rw [setPush_push_of_ne _ (by simpa using Ne.symm hi)] at hlock
      exact hs hlock
  | push th spurious => exact hs.of_pushStep hok hstep
  | processWorkQueue z =>
    obtain ⟨-, rfl⟩ := step_processWorkQueue hstep
    exact .of_idle (idle_of_ready hready)
  | server result spurious =>
    exact .of_idle ((serverStep_push hstep 0).trans (idle_of_ready hready))
  | clientGone tag =>
    obtain rfl := Option.some_inj.mp hstep
    exact hs

/-- Where the server's thread is in a function or in no call, it waits for nothing. -/
theorem not_locking_of_mayQueue (h : s.mayQueue = true) : s.server.locking = false := by
  rw [State.mayQueue] at h
  cases hpc : s.server <;> rw [hpc] at h <;>
    first | rfl | exact absurd h Bool.false_ne_true

/-- There the thread has the lock only at a node of the zombies. -/
theorem zombieWalk_of_mayQueue (h : s.mayQueue = true) (hlocked : s.server.locked = true) :
    s.server.zombieWalk = true := by
  rw [State.mayQueue] at h
  cases hpc : s.server <;> rw [hpc] at h hlocked <;>
    first | rfl | exact absurd h Bool.false_ne_true | exact absurd hlocked Bool.false_ne_true

theorem Push.busy_of_locked {pc : Push} (h : pc.locked = true) : pc.busy = true := by
  cases pc <;> first | rfl | exact absurd h Bool.false_ne_true

theorem Push.of_locking {pc : Push} (h : pc.locking = true) :
    pc.busy = true ∧ pc.locked = false := by
  cases pc <;> first | exact ⟨rfl, rfl⟩ | exact absurd h Bool.false_ne_true

theorem LockInv.requeue_of_pushing (h : LockInv s) (hbusy : (s.push none).busy = true) :
    s.server.locked = false ∧ s.server.locking = false ∧ s.mayQueue = false := by
  obtain ⟨z, remaining, hpc⟩ := server_of_pushing h.own hbusy
  rw [State.mayQueue, hpc]
  exact ⟨rfl, rfl, rfl⟩

theorem Nested.not_selfLock (h : Nested s) (hspared : Spared s) : ¬ SelfLock s := by
  rintro ⟨th, hth, hlocking⟩
  have hin : s.InLock th := (h.lock.lock th).mpr hth
  rcases hlocking with ⟨th', hreal, hlock⟩ | ⟨hreal, hlock⟩
  · -- in `overflowPush`
    obtain ⟨hbusy, hnotLocked⟩ := Push.of_locking hlock
    rcases hin with hheld | ⟨rfl, hheld⟩
    · cases th with
      | none =>
        obtain ⟨-, -, hnotMay⟩ := h.lock.requeue_of_pushing (Push.busy_of_locked hheld)
        cases th' with
        | none => exact absurd hheld (Bool.eq_false_iff.mp hnotLocked)
        | some j =>
          obtain rfl : j = 0 := hreal
          exact absurd (h.mayQueue hbusy) (Bool.eq_false_iff.mp hnotMay)
      | some i =>
        cases th' with
        | none =>
          obtain rfl : 0 = i := hreal
          obtain ⟨-, -, hnotMay⟩ := h.lock.requeue_of_pushing hbusy
          exact absurd (h.mayQueue (Push.busy_of_locked hheld)) (Bool.eq_false_iff.mp hnotMay)
        | some j =>
          obtain rfl : j = i := hreal
          exact absurd hheld (Bool.eq_false_iff.mp hnotLocked)
    · cases th' with
      | none =>
        obtain ⟨hnotHeld, -, -⟩ := h.lock.requeue_of_pushing hbusy
        exact absurd hheld (Bool.eq_false_iff.mp hnotHeld)
      | some j =>
        -- a function that is called with the lock: one of the walk of the zombies
        obtain rfl : j = 0 := hreal
        have hwalk := zombieWalk_of_mayQueue (h.mayQueue hbusy) hheld
        exact absurd hwalk (Bool.eq_false_iff.mp (hspared hlock))
  · -- in the walk, or before it
    rcases hin with hheld | ⟨rfl, hheld⟩
    · cases th with
      | none =>
        obtain ⟨-, hnotLocking, -⟩ := h.lock.requeue_of_pushing (Push.busy_of_locked hheld)
        exact absurd hlock (Bool.eq_false_iff.mp hnotLocking)
      | some i =>
        obtain rfl : i = 0 := hreal
        have hmay := h.mayQueue (Push.busy_of_locked hheld)
        exact absurd hlock (Bool.eq_false_iff.mp (not_locking_of_mayQueue hmay))
    · cases hpc : s.server <;> rw [hpc] at hlock hheld <;>
        first | exact absurd hlock Bool.false_ne_true | exact absurd hheld Bool.false_ne_true

/-- A function that the walk of the zombies calls and that finds the ring full waits for its
own thread. -/
theorem Nested.selfLock_of_not_spares (h : Nested s) (hnot : ¬ Spares s a)
    (hstep : Reentrant.step s a = some s') : SelfLock s' := by
  obtain ⟨-, hstep⟩ := Reentrant.step_eq_some.mp hstep
  cases a with
  | push th spurious =>
    simp only [Spares, not_forall, not_not] at hnot
    obtain ⟨rfl, hspilling, hwalk⟩ := hnot
    -- the walk has the lock
    have howner : s.overflowLock = some none := by
      refine (h.lock.lock none).mp (.inr ⟨rfl, ?_⟩)
      cases hserver : s.server <;> rw [hserver] at hwalk <;>
        first | rfl | exact absurd hwalk Bool.false_ne_true
    cases hpc : s.push (some 0) <;> rw [hpc] at hspilling <;>
      first | exact absurd hspilling Bool.false_ne_true | skip
    simp only [step, pushStep, hpc, Option.some_inj] at hstep
    subst hstep
    refine ⟨none, howner, .inl ⟨some 0, rfl, ?_⟩⟩
    rw [setPush_push_self]
    rfl
  | queueWorkProc i => exact absurd trivial hnot
  | processWorkQueue z => exact absurd trivial hnot
  | server result spurious => exact absurd trivial hnot
  | clientGone tag => exact absurd trivial hnot

end WorkQueue
