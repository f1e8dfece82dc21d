/-
What holds of the work queue in every state.

Positions below `released` are over: their cells belong to the positions 128 later.
From there up to `enqueuePos` every position is claimed, by one thread that writes its
cell, or published.  The list is a chain of nodes, and `overflowLast` is its last
pointer, except while the thread that holds the lock is between two of its stores.

* `PushOk`, `ServerOk` — what a thread may rely on where it is;
* `Holds` — which item is in which place;
* `Inv` — the invariant: each call's item is in one place until it is finished.
-/
import KaliGui.Lib.Links
import KaliGui.Lib.Tokens
import KaliGui.WorkQueue.Model
import Mathlib.Tactic.Common

namespace WorkQueue

open Links Tokens

/-! ### Where the threads are -/

/-- The item a thread is pushing, until it is in the ring or in the list. -/
def Push.item? : Push → Option WorkItem
  | .idle | .setLast _ | .unlock => none
  | .load item | .sequence item _ | .cas item _ | .function item _ | .client item _
  | .closure item _ | .publish item _ | .alloc item | .lock item _ | .link item _ => some item

/-- The position a thread has claimed and is writing the cell of. -/
def Push.claim : Push → Option ℕ
  | .function _ pos | .client _ pos | .closure _ pos | .publish _ pos => some pos
  | _ => none

/-- The node a thread has allocated and not linked in. -/
def Push.node : Push → Option ℕ
  | .lock _ node | .link _ node => some node
  | _ => none

/-- The position whose cell the server's thread is reading after it has popped it. -/
def Server.popping : Server → Option ℕ
  | .function _ _ pos | .client _ _ pos _ | .closure _ _ pos _ _ | .release _ _ pos _ => some pos
  | _ => none

/-- The node that is finished and still to be taken out of the list. -/
def Server.dead : Server → Option ℕ
  | .relock _ q true | .remove _ _ q => some q
  | _ => none

/-- The positions below are over. -/
def State.released (s : State) : ℕ := s.server.popping.getD s.dequeuePos

/-- A thread is writing the position's cell. -/
def State.Claimed (s : State) (pos : ℕ) : Prop := ∃ th, (s.push th).claim = some pos

/-! ### Threads -/

/-- The claimed position is in the ring, and its cell still free. -/
structure ClaimOk (s : State) (pos : ℕ) : Prop where
  le : s.dequeuePos ≤ pos
  lt : pos < s.enqueuePos
  sequence : (s.cellAt pos).sequence = pos

/-- The new node is the thread's own. -/
structure NodeOk (s : State) (ns : List ℕ) (item : WorkItem) (node : ℕ) : Prop where
  lt : node < s.nodes
  notMem : node ∉ ns
  next : s.next (some node) = none
  item : s.nodeItem node = item

/-- `overflowLast` is the last pointer of the list. -/
def TailOk (s : State) (ns : List ℕ) : Prop := s.overflowLast = lastAddr none ns

def PushOk (s : State) (ns : List ℕ) (th : Thread) : Push → Prop
  | .idle | .load _ | .alloc _ => True
  | .sequence _ pos => pos ≤ s.enqueuePos
  | .cas _ pos =>
    pos ≤ s.enqueuePos ∧ (pos = s.enqueuePos → s.enqueuePos < s.released + ringSize)
  | .function _ pos => ClaimOk s pos
  | .client item pos => ClaimOk s pos ∧ (s.cellAt pos).item.function = item.function
  | .closure item pos =>
    ClaimOk s pos ∧ (s.cellAt pos).item.function = item.function ∧
      (s.cellAt pos).item.client = item.client
  | .publish item pos => ClaimOk s pos ∧ (s.cellAt pos).item = item
  | .lock item node => NodeOk s ns item node
  | .link item node => NodeOk s ns item node ∧ s.overflowLock = some th ∧ TailOk s ns
  | .setLast node =>
    s.overflowLock = some th ∧ ∃ ns', ns = ns' ++ [node] ∧ s.overflowLast = lastAddr none ns'
  | .unlock => s.overflowLock = some th ∧ TailOk s ns

/-- The server's thread has come to the pointer at `p`, before the nodes `post`. -/
def AtPointer (ns : List ℕ) (p : Option ℕ) (post : List ℕ) : Prop :=
  ∃ pre, ns = pre ++ post ∧ p = lastAddr none pre

/-- The server's thread is at the node `q`, to which the pointer at `p` leads. -/
def AtNode (ns : List ℕ) (p : Option ℕ) (q : ℕ) : Prop := ∃ post, AtPointer ns p (q :: post)

def ServerOk (s : State) (ns : List ℕ) : Server → Prop
  | .idle | .countTail _ | .scan _ _ | .call _ _ _ | .requeue _ _ | .lock _ => True
  | .countHead _ tail => tail = s.dequeuePos
  | .sequence _ _ pos => pos = s.dequeuePos
  | .cas _ _ pos => pos = s.dequeuePos ∧ pos < s.enqueuePos ∧ ¬ s.Claimed pos
  | .function _ _ _ => True
  | .client _ _ pos f => f = (s.cellAt pos).item.function
  | .closure _ _ pos f c => f = (s.cellAt pos).item.function ∧ c = (s.cellAt pos).item.client
  | .release _ _ pos item => item = (s.cellAt pos).item
  | .next _ p =>
    s.overflowLock = some none ∧ ∃ post, AtPointer ns p post ∧ (post = [] ∨ TailOk s ns)
  | .unlockNode p q => s.overflowLock = some none ∧ TailOk s ns ∧ AtNode ns p q
  | .callNode p q | .relock p q _ => AtNode ns p q
  | .zombieNode p q => s.overflowLock = some none ∧ TailOk s ns ∧ AtNode ns p q
  | .remove _ p q => s.overflowLock = some none ∧ TailOk s ns ∧ AtNode ns p q
  | .setLast p => s.overflowLock = some none ∧ AtPointer ns p []
  | .unlock => s.overflowLock = some none ∧ TailOk s ns

/-- Two threads write different cells, and have different nodes. -/
structure Apart (pc pc' : Push) : Prop where
  claim : ∀ pos, pc.claim = some pos → pc'.claim ≠ some pos
  node : ∀ node, pc.node = some node → pc'.node ≠ some node

/-! ### Items -/

/-- Where an item can be. -/
inductive Place
  /-- on its way with a thread that pushes it -/
  | hand (th : Thread)
  | ring (pos : ℕ)
  | node (n : ℕ)
  /-- with the server's thread, which popped it -/
  | server

/-- The item the server's thread has popped. -/
def State.popped (s : State) : Option WorkItem :=
  match s.server with
  | .function _ _ pos | .client _ _ pos _ | .closure _ _ pos _ _ | .release _ _ pos _ =>
    some (s.cellAt pos).item
  | .call _ _ item => some item
  | _ => none

/-- The position is published. -/
def State.Published (s : State) (pos : ℕ) : Prop :=
  s.dequeuePos ≤ pos ∧ pos < s.enqueuePos ∧ ¬ s.Claimed pos

def Holds (s : State) (ns : List ℕ) : Place → WorkItem → Prop
  | .hand th, x => (s.push th).item? = some x
  | .ring pos, x => s.Published pos ∧ (s.cellAt pos).item = x
  | .node n, x => n ∈ ns ∧ s.server.dead ≠ some n ∧ s.nodeItem n = x
  | .server, x => s.popped = some x

/-- The call is not to be repeated. -/
def Exec.Finishes (e : Exec) : Prop := e.result = true ∨ e.zombie = true

/-- The item of the call has been run for the last time. -/
def State.Finished (s : State) (tag : ℕ) : Prop :=
  ∃ e ∈ s.log, e.item = .of tag ∧ e.Finishes

/-! ### The invariant -/

structure RingInv (s : State) : Prop where
  le : s.dequeuePos ≤ s.enqueuePos
  room : s.enqueuePos ≤ s.released + ringSize
  popped : ∀ pos, s.server.popping = some pos → pos + 1 = s.dequeuePos
  taken : ∀ pos, s.released ≤ pos → pos < s.enqueuePos → ¬ s.Claimed pos →
    (s.cellAt pos).sequence = pos + 1
  free : ∀ pos, s.enqueuePos ≤ pos → pos < s.released + ringSize →
    (s.cellAt pos).sequence = pos

structure ListInv (s : State) (ns : List ℕ) : Prop where
  chain : Chain s.next none ns
  nodup : ns.Nodup
  lt : ∀ n ∈ ns, n < s.nodes
  tail : s.overflowLock = none → TailOk s ns

structure LogInv (s : State) : Prop where
  own : ∀ e ∈ s.log, ∃ tag < s.queued, e.item = .of tag
  final : s.log.Pairwise fun e e' => e.Finishes → e'.item ≠ e.item
  zombie : ∀ e ∈ s.log, e.zombie = true → s.gone e.item.client = true

structure Inv (s : State) (ns : List ℕ) : Prop where
  ring : RingInv s
  list : ListInv s ns
  push : ∀ th, PushOk s ns th (s.push th)
  apart : ∀ th th', th ≠ th' → Apart (s.push th) (s.push th')
  server : ServerOk s ns s.server
  own : (∀ z remaining, s.server ≠ .requeue z remaining) → s.push none = .idle
  items : Accounted WorkItem.of (Holds s ns) s.queued s.Finished
  log : LogInv s

theorem of_injective : Function.Injective WorkItem.of := fun _ _ h => congrArg WorkItem.function h

theorem Holds.unique {s : State} {ns : List ℕ} (a : Place) (x y : WorkItem) (hx : Holds s ns a x)
    (hy : Holds s ns a y) : x = y := by
  cases a with
  | hand th => exact Option.some_inj.mp (hx.symm.trans hy)
  | ring pos => exact hx.2.symm.trans hy.2
  | node n => exact hx.2.2.symm.trans hy.2.2
  | server => exact Option.some_inj.mp (hx.symm.trans hy)

theorem Inv.initial : Inv initial [] where
  ring :=
    { le := Nat.le_refl _
      room := Nat.zero_le _
      popped := fun pos h => by simp [WorkQueue.initial, Server.popping] at h
      taken := fun pos _ h => absurd h (Nat.not_lt_zero _)
      free := fun pos _ h => by
        have hlt : pos < 128 := by simpa [WorkQueue.initial, State.released, Server.popping,
          ringSize] using h
        exact Nat.mod_eq_of_lt hlt }
  list :=
    { chain := rfl
      nodup := List.nodup_nil
      lt := fun n hn => absurd hn List.not_mem_nil
      tail := fun _ => rfl }
  push th := trivial
  apart th th' _ := ⟨fun pos h => by simp [WorkQueue.initial, Push.claim] at h,
    fun node h => by simp [WorkQueue.initial, Push.node] at h⟩
  server := trivial
  own _ := rfl
  items := by
    refine ⟨fun _ => none, fun t a h => by simp at h, fun a x h => ?_, fun t => ?_⟩
    · cases a with
      | hand th => simp [Holds, WorkQueue.initial, Push.item?] at h
      | ring pos => exact absurd h.1.2.1 (Nat.not_lt_zero _)
      | node n => exact absurd h.1 List.not_mem_nil
      | server => simp [Holds, WorkQueue.initial, State.popped] at h
    · simp [WorkQueue.initial]
  log :=
    { own := fun e he => absurd he List.not_mem_nil
      final := List.Pairwise.nil
      zombie := fun e he => absurd he List.not_mem_nil }

end WorkQueue
