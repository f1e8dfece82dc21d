/-
The work queue (`workqueue.cpp`), one atomic step at a time.

Any thread queues work; the server's thread alone runs it.  An item goes to a ring of
128 cells, whose sequence numbers say who may use a cell next, or, when the ring is
full, to a list under a spinlock.

Positions are kept as they are counted, without end; the code sees them modulo
`2 ^ 64`, so they are compared as words only.  The arguments of a call of
`QueueWorkProc` are the number of the call, its tag: an item whose three members have
one tag is what that call was given.

* `Push` — where a thread is in `ringPush` and `overflowPush`;
* `Server` — where the server's thread is in `ProcessWorkQueue` or its zombie sibling;
* `step` — one step of one thread.
-/
import KaliGui.Lib.Run
import Mathlib.Algebra.Group.Nat.Defs
import Mathlib.Data.Nat.Notation
import Mathlib.Logic.Function.Basic

namespace WorkQueue

/-! ### Data -/

/-- `WorkItem`, each member as the call it is from. -/
structure WorkItem where
  function : ℕ
  client : ℕ
  closure : ℕ
  deriving DecidableEq, Repr

/-- What the call `tag` of `QueueWorkProc` was given. -/
def WorkItem.of (tag : ℕ) : WorkItem := ⟨tag, tag, tag⟩

structure Cell where
  sequence : ℕ
  item : WorkItem

/-- `kRingSize` -/
def ringSize : ℕ := 128

/-- The words of the 64-bit ABI. -/
def wordSize : ℕ := 2 ^ 64

/-- Two positions are the same as words. -/
def SameWord (a b : ℕ) : Prop := a % wordSize = b % wordSize

instance (a b : ℕ) : Decidable (SameWord a b) := inferInstanceAs (Decidable (_ = _))

/-- `(ptrdiff_t) a - (ptrdiff_t) b < 0` -/
def NegDiff (a b : ℕ) : Prop := wordSize / 2 ≤ (a + (wordSize - b % wordSize)) % wordSize

instance (a b : ℕ) : Decidable (NegDiff a b) := inferInstanceAs (Decidable (_ ≤ _))

/-! ### Threads -/

/-- A thread that pushes: a producer, or the server's, which puts items back. -/
abbrev Thread := Option ℕ

/-- Where a thread is in `QueueWorkProc` or `requeue`, and its `pos` and `node`. -/
inductive Push
  | idle
  /-- about to load `enqueuePos` -/
  | load (item : WorkItem)
  /-- about to load the cell's sequence -/
  | sequence (item : WorkItem) (pos : ℕ)
  /-- about to swap `enqueuePos` -/
  | cas (item : WorkItem) (pos : ℕ)
  | function (item : WorkItem) (pos : ℕ)
  | client (item : WorkItem) (pos : ℕ)
  | closure (item : WorkItem) (pos : ℕ)
  /-- about to store the cell's sequence -/
  | publish (item : WorkItem) (pos : ℕ)
  /-- `malloc` and the stores to the new node -/
  | alloc (item : WorkItem)
  | lock (item : WorkItem) (node : ℕ)
  /-- `*overflowLast = node` -/
  | link (item : WorkItem) (node : ℕ)
  /-- `overflowLast = &node->next` -/
  | setLast (node : ℕ)
  | unlock

/-- Where the server's thread is; `z` in `ProcessWorkQueueZombies`.  The addresses `p` of
`OverflowNode *` are `none` for `&overflowHead` and `some n` for `&n->next`. -/
inductive Server
  | idle
  /-- `ringCount`: about to load `dequeuePos`, then `enqueuePos` -/
  | countTail (z : Bool)
  | countHead (z : Bool) (tail : ℕ)
  /-- `while (remaining-- && ringPop(&item))` -/
  | scan (z : Bool) (remaining : ℕ)
  | sequence (z : Bool) (remaining : ℕ) (pos : ℕ)
  | cas (z : Bool) (remaining : ℕ) (pos : ℕ)
  | function (z : Bool) (remaining : ℕ) (pos : ℕ)
  | client (z : Bool) (remaining : ℕ) (pos : ℕ) (f : ℕ)
  | closure (z : Bool) (remaining : ℕ) (pos : ℕ) (f c : ℕ)
  | release (z : Bool) (remaining : ℕ) (pos : ℕ) (item : WorkItem)
  /-- about to call the item's function, or, with zombies, to look at its client -/
  | call (z : Bool) (remaining : ℕ) (item : WorkItem)
  | requeue (z : Bool) (remaining : ℕ)
  | lock (z : Bool)
  /-- `q = *p`, holding the lock -/
  | next (z : Bool) (p : Option ℕ)
  | unlockNode (p : Option ℕ) (q : ℕ)
  /-- about to call the node's function, without the lock -/
  | callNode (p : Option ℕ) (q : ℕ)
  | relock (p : Option ℕ) (q : ℕ) (result : Bool)
  /-- with zombies: about to look at the node's client, and call, holding the lock -/
  | zombieNode (p : Option ℕ) (q : ℕ)
  /-- `*p = q->next; free(q)` -/
  | remove (z : Bool) (p : Option ℕ) (q : ℕ)
  /-- `overflowLast = p` -/
  | setLast (p : Option ℕ)
  | unlock

/-- A call of an item's function. -/
structure Exec where
  item : WorkItem
  result : Bool
  /-- in `ProcessWorkQueueZombies` -/
  zombie : Bool
  deriving DecidableEq, Repr

structure State where
  enqueuePos : ℕ
  dequeuePos : ℕ
  /-- by index in the ring -/
  cell : ℕ → Cell
  /-- what the next-pointers of the list hold -/
  next : Option ℕ → Option ℕ
  nodeItem : ℕ → WorkItem
  overflowLast : Option ℕ
  overflowLock : Option Thread
  /-- the nodes allocated so far -/
  nodes : ℕ
  push : Thread → Push
  server : Server
  /-- the calls whose clients are gone -/
  gone : ℕ → Bool
  /-- the calls of `QueueWorkProc` so far -/
  queued : ℕ
  log : List Exec

/-- After `initWorkQueue`. -/
def initial : State where
  enqueuePos := 0
  dequeuePos := 0
  cell i := ⟨i, .of 0⟩
  next _ := none
  nodeItem _ := .of 0
  overflowLast := none
  overflowLock := none
  nodes := 0
  push _ := .idle
  server := .idle
  gone _ := false
  queued := 0
  log := []

/-! ### Updates -/

/-- The cell of a position: `ring[pos & (kRingSize - 1)]`. -/
def State.cellAt (s : State) (pos : ℕ) : Cell := s.cell (pos % ringSize)

def State.setCell (s : State) (pos : ℕ) (c : Cell) : State :=
  { s with cell := Function.update s.cell (pos % ringSize) c }

def State.setItem (s : State) (pos : ℕ) (item : WorkItem) : State :=
  s.setCell pos { s.cellAt pos with item := item }

def State.setSequence (s : State) (pos sequence : ℕ) : State :=
  s.setCell pos { s.cellAt pos with sequence := sequence }

def State.setPush (s : State) (th : Thread) (pc : Push) : State :=
  { s with push := Function.update s.push th pc }

def State.setServer (s : State) (pc : Server) : State := { s with server := pc }

def State.exec (s : State) (e : Exec) : State := { s with log := s.log ++ [e] }

/-! ### Pushing -/

/-- One step of `ringPush` and, the ring being full, `overflowPush`.  A weak exchange may
fail for no reason: `spurious`. -/
def pushStep (s : State) (th : Thread) (spurious : Bool) : Option State :=
  match s.push th with
  | .idle => none
  | .load item => some (s.setPush th (.sequence item s.enqueuePos))
  | .sequence item pos =>
    let seq := (s.cellAt pos).sequence
    if SameWord seq pos then some (s.setPush th (.cas item pos))
    else if NegDiff seq pos then some (s.setPush th (.alloc item))
    else some (s.setPush th (.load item))
  | .cas item pos =>
    if SameWord s.enqueuePos pos ∧ ¬ spurious then
      some ({ s with enqueuePos := s.enqueuePos + 1 }.setPush th (.function item pos))
    else some (s.setPush th (.sequence item s.enqueuePos))
  | .function item pos =>
    some ((s.setItem pos { (s.cellAt pos).item with function := item.function }).setPush th
      (.client item pos))
  | .client item pos =>
    some ((s.setItem pos { (s.cellAt pos).item with client := item.client }).setPush th
      (.closure item pos))
  | .closure item pos =>
    some ((s.setItem pos { (s.cellAt pos).item with closure := item.closure }).setPush th
      (.publish item pos))
  | .publish _ pos => some ((s.setSequence pos (pos + 1)).setPush th .idle)
  | .alloc item =>
    some ({ s with
      nodes := s.nodes + 1
      next := Function.update s.next (some s.nodes) none
      nodeItem := Function.update s.nodeItem s.nodes item }.setPush th (.lock item s.nodes))
  | .lock item node =>
    if s.overflowLock = none then
      some ({ s with overflowLock := some th }.setPush th (.link item node))
    else none
  | .link _ node =>
    some ({ s with next := Function.update s.next s.overflowLast (some node) }.setPush th
      (.setLast node))
  | .setLast node => some ({ s with overflowLast := some node }.setPush th .unlock)
  | .unlock => some ({ s with overflowLock := none }.setPush th .idle)

/-! ### Processing -/

/-- One step of the server's thread; `result` is what a function returns that is called. -/
def serverStep (s : State) (result spurious : Bool) : Option State :=
  match s.server with
  | .idle => none
  | .countTail z => some (s.setServer (.countHead z s.dequeuePos))
  | .countHead z tail =>
    some (s.setServer (.scan z ((s.enqueuePos + (wordSize - tail % wordSize)) % wordSize)))
  | .scan z remaining =>
    if remaining = 0 then some (s.setServer (.lock z))
    else some (s.setServer (.sequence z (remaining - 1) s.dequeuePos))
  | .sequence z remaining pos =>
    let seq := (s.cellAt pos).sequence
    if SameWord seq (pos + 1) then some (s.setServer (.cas z remaining pos))
    else if NegDiff seq (pos + 1) then some (s.setServer (.lock z))
    else some (s.setServer (.sequence z remaining s.dequeuePos))
  | .cas z remaining pos =>
    if SameWord s.dequeuePos pos ∧ ¬ spurious then
      some ({ s with dequeuePos := s.dequeuePos + 1 }.setServer (.function z remaining pos))
    else some (s.setServer (.sequence z remaining s.dequeuePos))
  | .function z remaining pos =>
    some (s.setServer (.client z remaining pos (s.cellAt pos).item.function))
  | .client z remaining pos f =>
    some (s.setServer (.closure z remaining pos f (s.cellAt pos).item.client))
  | .closure z remaining pos f c =>
    some (s.setServer (.release z remaining pos ⟨f, c, (s.cellAt pos).item.closure⟩))
  | .release z remaining pos item =>
    some ((s.setSequence pos (pos + ringSize)).setServer (.call z remaining item))
  | .call false remaining item =>
    let s := s.exec ⟨item, result, false⟩
    if result then some (s.setServer (.scan false remaining))
    else some ((s.setPush none (.load item)).setServer (.requeue false remaining))
  | .call true remaining item =>
    if s.gone item.client then
      some ((s.exec ⟨item, result, true⟩).setServer (.scan true remaining))
    else some ((s.setPush none (.load item)).setServer (.requeue true remaining))
  | .requeue z remaining =>
    match s.push none with
    | .idle => some (s.setServer (.scan z remaining))
    | _ => none
  | .lock z =>
    if s.overflowLock = none then
      some ({ s with overflowLock := some none }.setServer (.next z none))
    else none
  | .next z p =>
    match s.next p with
    | none => some (s.setServer (.setLast p))
    | some q => some (s.setServer (if z then .zombieNode p q else .unlockNode p q))
  | .unlockNode p q => some ({ s with overflowLock := none }.setServer (.callNode p q))
  | .callNode p q =>
    some ((s.exec ⟨s.nodeItem q, result, false⟩).setServer (.relock p q result))
  | .relock p q result =>
    if s.overflowLock = none then
      some ({ s with overflowLock := some none }.setServer
        (if result then .remove false p q else .next false (some q)))
    else none
  | .zombieNode p q =>
    if s.gone (s.nodeItem q).client then
      some ((s.exec ⟨s.nodeItem q, result, true⟩).setServer (.remove true p q))
    else some (s.setServer (.next true (some q)))
  | .remove z p q =>
    some ({ s with next := Function.update s.next p (s.next (some q)) }.setServer (.next z p))
  | .setLast p => some ({ s with overflowLast := p }.setServer .unlock)
  | .unlock => some ({ s with overflowLock := none }.setServer .idle)

/-! ### Steps -/

inductive Act
  /-- a producer calls `QueueWorkProc` -/
  | queueWorkProc (i : ℕ)
  | push (th : Thread) (spurious : Bool)
  /-- the server calls `ProcessWorkQueue`, or `ProcessWorkQueueZombies` -/
  | processWorkQueue (z : Bool)
  | server (result spurious : Bool)
  /-- the client of a call goes -/
  | clientGone (tag : ℕ)
  deriving DecidableEq, Repr

def step (s : State) : Act → Option State
  | .queueWorkProc i =>
    match s.push (some i) with
    | .idle => some ({ s with queued := s.queued + 1 }.setPush (some i) (.load (.of s.queued)))
    | _ => none
  | .push th spurious => pushStep s th spurious
  | .processWorkQueue z =>
    match s.server with
    | .idle => some (s.setServer (.countTail z))
    | _ => none
  | .server result spurious => serverStep s result spurious
  | .clientGone tag => some { s with gone := Function.update s.gone tag true }

end WorkQueue
