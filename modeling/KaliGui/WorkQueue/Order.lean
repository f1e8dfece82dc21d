/-
The order in which work is run, against the list of `dixutils.c` that the queue replaces.

One producer calls `QueueWorkProc`, the server's thread calls `ProcessWorkQueue`, and every
function returns `TRUE` at once.  The list of `dixutils.c` then runs the items in the order of
the calls.  The queue keeps them in two places that a call runs one after the other, first as
much of the ring as it counted, then the overflow list; so an item may overtake one in the
other place.

* `DixQueue` — the list: queued at its end, run from its front;
* `State.waiting` — what is queued and not run, in the order in which it will be run;
* `Orderly` — the steps that put an item behind all the others;
* `runs_in_order` — runs of such steps run what the list runs.
-/
import KaliGui.WorkQueue.ExactlyOnce

namespace WorkQueue

open Links Tokens

/-! ### The list of `dixutils.c` -/

/-- `workQueue`, with what it has run. -/
structure DixQueue where
  list : List WorkItem := []
  ran : List WorkItem := []
  queued : ℕ := 0

inductive DixAct
  | queueWorkProc
  /-- the loop of `ProcessWorkQueue` runs the first item and takes it off -/
  | processFirst

def dixStep (d : DixQueue) : DixAct → Option DixQueue
  | .queueWorkProc => some { d with list := d.list ++ [.of d.queued], queued := d.queued + 1 }
  | .processFirst =>
    match d.list with
    | [] => none
    | item :: rest => some { d with list := rest, ran := d.ran ++ [item] }

/-- What is run and what is not are the calls in order. -/
def DixQueue.Kept (d : DixQueue) : Prop := d.ran ++ d.list = (List.range d.queued).map .of

theorem DixQueue.Kept.step {d d' : DixQueue} (h : d.Kept) {a : DixAct}
    (hstep : dixStep d a = some d') : d'.Kept := by
  cases a with
  | queueWorkProc =>
    cases hstep
    show d.ran ++ (d.list ++ [.of d.queued]) = (List.range (d.queued + 1)).map .of
    rw [← List.append_assoc, h, List.range_succ, List.map_append]
    rfl
  | processFirst =>
    rw [dixStep] at hstep
    split at hstep
    next => cases hstep
    next item rest hlist =>
      cases hstep
      rw [Kept, hlist] at h
      show d.ran ++ [item] ++ rest = _
      rw [List.append_assoc]
      exact h

theorem DixQueue.Kept.of_run {d : DixQueue} {as : List DixAct}
    (hrun : Machine.run dixStep {} as = some d) : d.Kept :=
  Machine.run_invariant_of_step (I := DixQueue.Kept) (fun _ _ _ h hstep => h.step hstep)
    (show DixQueue.Kept {} from rfl) hrun

/-- The list comes from one state to the other in at most one step. -/
def Moves (d d' : DixQueue) : Prop := d' = d ∨ ∃ a, dixStep d a = some d'

/-! ### What is waiting -/

/-- What the positions from `a` up to `b` hold. -/
def segment (r : ℕ → WorkItem) (a b : ℕ) : List WorkItem := (List.range' a (b - a)).map r

/-- The running call has counted the ring. -/
def Server.counted : Server → Bool
  | .idle | .countTail _ | .countHead _ _ => false
  | _ => true

/-- The positions below are run before the overflow list. -/
def State.horizon (s : State) : ℕ := if s.server.counted then s.limit else s.enqueuePos

/-- The nodes of the list that are not finished. -/
def State.live (s : State) (ns : List ℕ) : List ℕ := ns.filter fun n => s.server.dead ≠ some n

/-- The item a thread is pushing, until it has a position or is in the list. -/
def Push.unplaced : Push → Option WorkItem
  | .load item | .sequence item _ | .cas item _ | .alloc item | .lock item _ | .link item _ =>
    some item
  | _ => none

/-- The position a thread has loaded. -/
def Push.pos? : Push → Option ℕ
  | .sequence _ pos | .cas _ pos => some pos
  | _ => none

/-- What is queued and not run; `r` is what the positions of the ring hold. -/
def State.waiting (s : State) (ns : List ℕ) (r : ℕ → WorkItem) (i : ℕ) : List WorkItem :=
  s.popped.toList ++ segment r s.dequeuePos s.horizon ++ (s.live ns).map s.nodeItem ++
    segment r s.horizon s.enqueuePos ++ (s.push (some i)).unplaced.toList

def State.asList (s : State) (ns : List ℕ) (r : ℕ → WorkItem) (i : ℕ) : DixQueue :=
  ⟨s.waiting ns r i, s.log.map (·.item), s.queued⟩

/-- Where the server's thread can be when every function returns `TRUE`: at the head of the
list. -/
def Server.Plain : Server → Prop
  | .idle => True
  | .countTail z | .countHead z _ | .scan z _ | .sequence z _ _ | .cas z _ _ | .function z _ _
  | .client z _ _ _ | .closure z _ _ _ _ | .release z _ _ _ | .call z _ _ | .lock z => z = false
  | .requeue _ _ | .zombieNode _ _ => False
  | .next z p | .remove z p _ => z = false ∧ p = none
  | .unlockNode p _ | .callNode p _ | .setLast p => p = none
  | .relock p _ result => p = none ∧ result = true
  | .unlock => True

structure Shape (i : ℕ) (s : State) (ns : List ℕ) (r : ℕ → WorkItem) : Prop where
  alone : ∀ th, th ≠ some i → s.push th = .idle
  published : ∀ pos, s.Published pos → (s.cellAt pos).item = r pos
  /-- the position that is claimed is the last -/
  claimed : ∀ pos, (s.push (some i)).claim = some pos →
    pos + 1 = s.enqueuePos ∧ (s.push (some i)).item? = some (r pos)
  /-- the item that is pushed is the newest -/
  newest : ∀ item, (s.push (some i)).item? = some item → item = .of (s.queued - 1)
  current : ∀ pos, (s.push (some i)).pos? = some pos → pos = s.enqueuePos
  plain : s.server.Plain
  horizon : s.dequeuePos ≤ s.horizon ∧ s.horizon ≤ s.enqueuePos
  done : s.server = .unlock → ns = []

/-! ### The steps that keep the order -/

/-- One producer, and functions that return `TRUE`. -/
def Single (i : ℕ) : Act → Prop
  | .queueWorkProc j => j = i
  | .push th _ => th = some i
  | .processWorkQueue z => z = false
  | .server result _ => result = true
  | .clientGone _ => True

instance (i : ℕ) : DecidablePred (Single i)
  | .queueWorkProc j => inferInstanceAs (Decidable (j = i))
  | .push th _ => inferInstanceAs (Decidable (th = some i))
  | .processWorkQueue z => inferInstanceAs (Decidable (z = false))
  | .server result _ => inferInstanceAs (Decidable (result = true))
  | .clientGone _ => inferInstanceAs (Decidable True)

/-- The position a thread is about to swap for. -/
def Push.swapping : Push → Option ℕ
  | .cas _ pos => some pos
  | _ => none

/-- A thread is about to link its node to the list. -/
def Push.linking : Push → Bool
  | .link _ _ => true
  | _ => false

/-- An item is put in the ring only when the overflow list is empty or the running call has
counted already; and in the list only when that call will run the whole ring before it. -/
def Orderly (s : State) : Act → Prop
  | .push th spurious =>
    (∀ pos ∈ (s.push th).swapping, SameWord s.enqueuePos pos ∧ ¬ spurious →
      s.server.counted = false → s.next none = none) ∧
      ((s.push th).linking = true → s.server.counted = true → s.enqueuePos ≤ s.limit)
  | _ => True

instance (s : State) : DecidablePred (Orderly s)
  | .push th spurious => inferInstanceAs (Decidable
    ((∀ pos ∈ (s.push th).swapping, SameWord s.enqueuePos pos ∧ ¬ spurious →
      s.server.counted = false → s.next none = none) ∧ (_ → _ → _)))
  | .queueWorkProc _ | .processWorkQueue _ | .server _ _ | .clientGone _ =>
    inferInstanceAs (Decidable True)

/-- What has been run is what the list of `dixutils.c` has run after as many calls: the first
items that were queued, in order. -/
structure InOrder (s : State) : Prop where
  list : ∃ as d, Machine.run dixStep {} as = some d ∧ d.queued = s.queued ∧
    d.ran = s.log.map (·.item)
  order : s.log.map (·.item) = (List.range s.log.length).map .of

/-! ### Segments -/

theorem segment_self (r : ℕ → WorkItem) (a : ℕ) : segment r a a = [] := by
  rw [segment, Nat.sub_self]
  rfl

theorem segment_cons (r : ℕ → WorkItem) {a b : ℕ} (h : a < b) :
    segment r a b = r a :: segment r (a + 1) b := by
  have hlen : b - a = b - (a + 1) + 1 := by omega
  rw [segment, hlen, List.range'_succ]
  rfl

theorem segment_concat (r : ℕ → WorkItem) {a b : ℕ} (h : a ≤ b) :
    segment r a (b + 1) = segment r a b ++ [r b] := by
  have hlen : b + 1 - a = b - a + 1 := by omega
  have hend : a + (b - a) = b := by omega
  rw [segment, hlen, List.range'_concat, List.map_append, Nat.one_mul, hend]
  rfl

theorem segment_congr {r r' : ℕ → WorkItem} {a b : ℕ} (h : ∀ pos, pos < b → r' pos = r pos) :
    segment r' a b = segment r a b := by
  refine List.map_congr_left fun pos hpos => h pos ?_
  have := List.mem_range'_1.mp hpos
  omega

variable {s s' : State} {ns ns' : List ℕ} {i : ℕ} {r : ℕ → WorkItem} {item : WorkItem}

/-! ### Steps that move nothing -/

theorem live_subset (s : State) (ns : List ℕ) : s.live ns ⊆ ns := List.filter_subset_self _

theorem live_of_alive (hdead : s.server.dead = none) (ns : List ℕ) : s.live ns = ns := by
  rw [State.live, hdead]
  exact List.filter_eq_self.mpr fun _ _ => rfl

theorem live_of_dead {q : ℕ} (hdead : s.server.dead = some q) (hnodup : (q :: ns).Nodup) :
    s.live (q :: ns) = ns := by
  obtain ⟨hq, -⟩ := List.nodup_cons.mp hnodup
  rw [State.live, hdead, List.filter_cons_of_neg (by simp)]
  refine List.filter_eq_self.mpr fun n hn => decide_eq_true fun heq => hq ?_
  rwa [Option.some_inj.mp heq]

/-- Where nothing moves the list stays. -/
theorem asList_congr (hpopped : s'.popped = s.popped) (hdeq : s'.dequeuePos = s.dequeuePos)
    (henq : s'.enqueuePos = s.enqueuePos) (hhorizon : s'.horizon = s.horizon)
    (hdead : s'.server.dead = s.server.dead) (hitem : ∀ n ∈ ns, s'.nodeItem n = s.nodeItem n)
    (hpush : (s'.push (some i)).unplaced = (s.push (some i)).unplaced)
    (hlog : s'.log = s.log) (hqueued : s'.queued = s.queued) :
    s'.asList ns r i = s.asList ns r i := by
  have hlive : s'.live ns = s.live ns := by rw [State.live, State.live, hdead]
  have hitems : (s.live ns).map s'.nodeItem = (s.live ns).map s.nodeItem :=
    List.map_congr_left fun n hn => hitem n (live_subset s ns hn)
  rw [State.asList, State.asList, State.waiting, State.waiting, hpopped, hdeq, henq, hhorizon,
    hlive, hitems, hpush, hlog, hqueued]

/-- A step of the server's thread, which pushes nothing. -/
theorem Shape.served (h : Shape i s ns r) (hpush : s'.push = s.push)
    (henq : s'.enqueuePos = s.enqueuePos) (hqueued : s'.queued = s.queued)
    (hdeq : s.dequeuePos ≤ s'.dequeuePos)
    (hitem : ∀ p, (s'.cellAt p).item = (s.cellAt p).item) (hplain : s'.server.Plain)
    (hhorizon : s'.dequeuePos ≤ s'.horizon ∧ s'.horizon ≤ s'.enqueuePos)
    (hdone : s'.server = .unlock → ns' = []) : Shape i s' ns' r where
  alone := by rw [hpush]; exact h.alone
  published pos hpos := by
    rw [hitem]
    refine h.published pos ⟨Nat.le_trans hdeq hpos.1, henq ▸ hpos.2.1, fun hc => hpos.2.2 ?_⟩
    exact (claimed_of_push hpush pos).mpr hc
  claimed := by rw [hpush, henq]; exact h.claimed
  newest := by rw [hpush, hqueued]; exact h.newest
  current := by rw [hpush, henq]; exact h.current
  plain := hplain
  horizon := hhorizon
  done := hdone

/-- The list follows a step, in at most one step of its own. -/
def Follows (i : ℕ) (s : State) (ns : List ℕ) (r : ℕ → WorkItem) (s' : State) : Prop :=
  ∃ ns' r', Chain s'.next none ns' ∧ Shape i s' ns' r' ∧
    Moves (s.asList ns r i) (s'.asList ns' r' i)

/-! ### The server's thread -/

/-- What the server's thread has popped, and the horizon, depend on where it is. -/
theorem popped_of_server {pc : Server} (hpc : s.server = pc) :
    s.popped = (s.setServer pc).popped := by
  rw [State.popped, State.popped, hpc]
  rfl

theorem horizon_of_server {pc : Server} (hpc : s.server = pc) :
    s.horizon = (s.setServer pc).horizon := by
  rw [State.horizon, State.horizon, State.limit, State.limit, hpc]
  rfl

/-- A step by which the server's thread only goes on, taking or leaving the lock. -/
theorem Shape.goOn (h : Inv s ns) (hs : Shape i s ns r) {l : Option Thread} {pc pc' : Server}
    (hpc : s.server = pc) (hplain : pc'.Plain)
    (hpopped : (s.setServer pc').popped = (s.setServer pc).popped)
    (hhorizon : (s.setServer pc').horizon = (s.setServer pc).horizon)
    (hdead : pc'.dead = pc.dead) (hdone : pc' = .unlock → ns = []) :
    Follows i s ns r ({ s with overflowLock := l }.setServer pc') := by
  have hhorizon' : ({ s with overflowLock := l }.setServer pc').horizon = s.horizon :=
    hhorizon.trans (horizon_of_server hpc).symm
  refine ⟨ns, r, h.list.chain, hs.served rfl rfl rfl (Nat.le_refl _) (fun _ => rfl) hplain ?_ hdone,
    .inl (asList_congr (hpopped.trans (popped_of_server hpc).symm) rfl rfl hhorizon'
      (hdead.trans (by rw [hpc])) (fun _ _ => rfl) rfl rfl rfl)⟩
  rw [hhorizon']
  exact hs.horizon

/-- A step by which the server's thread only goes on. -/
theorem Shape.setServer (h : Inv s ns) (hs : Shape i s ns r) {pc pc' : Server}
    (hpc : s.server = pc) (hplain : pc'.Plain)
    (hpopped : (s.setServer pc').popped = (s.setServer pc).popped)
    (hhorizon : (s.setServer pc').horizon = (s.setServer pc).horizon)
    (hdead : pc'.dead = pc.dead) (hdone : pc' = .unlock → ns = []) :
    Follows i s ns r (s.setServer pc') :=
  hs.goOn (l := s.overflowLock) h hpc hplain hpopped hhorizon hdead hdone

/-- Nothing is queued after the newest item. -/
theorem eq_nil_of_newest {ran rest : List WorkItem} {n : ℕ}
    (h : ran ++ item :: rest = (List.range n).map .of) (hitem : item = .of (n - 1)) :
    rest = [] := by
  have hlen := congrArg List.length h
  rw [List.length_append, List.length_cons, List.length_map, List.length_range] at hlen
  have hat : (ran ++ item :: rest)[ran.length]? = some item := by
    rw [List.getElem?_append_right (Nat.le_refl _), Nat.sub_self]
    rfl
  rw [h, List.getElem?_map, List.getElem?_range (by omega), hitem] at hat
  have hlast : ran.length = n - 1 := of_injective (Option.some_inj.mp hat)
  exact List.eq_nil_of_length_eq_zero (by omega)

/-- The scan of the ring stops at a cell that is not written yet: it is the only one, and
nothing waits behind it. -/
theorem Shape.stop (h : Inv s ns) (hs : Shape i s ns r) (hkept : (s.asList ns r i).Kept)
    {remaining : ℕ} (hpc : s.server = .sequence false remaining s.dequeuePos)
    (hseq : ¬ SameWord (s.cellAt s.dequeuePos).sequence (s.dequeuePos + 1)) :
    (s.setServer (.lock false)).asList ns r i = s.asList ns r i := by
  have hhorizon : s.horizon = s.dequeuePos + remaining + 1 := horizon_of_server hpc
  have hle := hs.horizon
  rw [hhorizon] at hle
  have hclaimed : s.Claimed s.dequeuePos := by
    by_contra hnot
    refine hseq ?_
    rw [h.ring.taken s.dequeuePos h.ring.released_le (by omega) hnot]
    rfl
  obtain ⟨th, hth⟩ := hclaimed
  have hthread : th = some i := by
    by_contra hne
    rw [hs.alone th hne] at hth
    cases hth
  rw [hthread] at hth
  obtain ⟨hend, hitem⟩ := hs.claimed _ hth
  have hunplaced : (s.push (some i)).unplaced = none := by
    cases hpush : s.push (some i) <;> rw [hpush] at hth <;> first | rfl | cases hth
  have hone : s.horizon = s.dequeuePos + 1 := by omega
  have henq : s.enqueuePos = s.dequeuePos + 1 := hend.symm
  have hpopped : s.popped = none := by rw [State.popped, hpc]
  have hring : segment r s.dequeuePos (s.dequeuePos + 1) = [r s.dequeuePos] := by
    rw [segment_concat r (Nat.le_refl _), segment_self]
    rfl
  -- the item of that cell is the newest, so the list is empty
  have hlive : (s.live ns).map s.nodeItem = [] := by
    rw [DixQueue.Kept, State.asList, State.waiting, hpopped, hone, henq, hring, hunplaced,
      segment_self] at hkept
    have hrest : s.log.map (·.item) ++ r s.dequeuePos :: (s.live ns).map s.nodeItem =
        (List.range s.queued).map .of := by simpa using hkept
    exact eq_nil_of_newest hrest (hs.newest _ hitem)
  have hlive' : s.live ns = [] := List.map_eq_nil_iff.mp hlive
  have hlive'' : (s.setServer (.lock false)).live ns = [] := by
    rw [← hlive', State.live, State.live, hpc]
    rfl
  have hstopped : (s.setServer (.lock false)).horizon = s.dequeuePos := rfl
  have hbefore : s.waiting ns r i = [r s.dequeuePos] := by
    rw [State.waiting, hpopped, hone, henq, hlive', segment_self, hring, hunplaced]
    rfl
  have hafter : (s.setServer (.lock false)).waiting ns r i = [r s.dequeuePos] := by
    rw [State.waiting, hlive'', hstopped]
    show [] ++ segment r s.dequeuePos s.dequeuePos ++ [] ++ segment r s.dequeuePos s.enqueuePos ++
      (s.push (some i)).unplaced.toList = _
    rw [segment_self, henq, hring, hunplaced]
    rfl
  rw [State.asList, State.asList, hbefore, hafter]
  rfl

/-- What the first position held is popped. -/
theorem Shape.pop (h : Inv s ns) (hs : Shape i s ns r) {remaining pos : ℕ}
    (hpc : s.server = .cas false remaining pos) :
    Follows i s ns r
      ({ s with dequeuePos := s.dequeuePos + 1 }.setServer (.function false remaining pos)) := by
  have hok := h.server
  rw [hpc] at hok
  obtain ⟨rfl, hlt, hnot⟩ := hok
  have hitem := hs.published s.dequeuePos ⟨Nat.le_refl _, hlt, hnot⟩
  have hhorizon : s.horizon = s.dequeuePos + remaining + 1 := horizon_of_server hpc
  have hhorizon' : ({ s with dequeuePos := s.dequeuePos + 1 }.setServer
      (.function false remaining s.dequeuePos)).horizon = s.dequeuePos + remaining + 1 :=
    Nat.add_right_comm ..
  have hpopped : s.popped = none := by rw [State.popped, hpc]
  have hle := hs.horizon.2
  have hlive : ({ s with dequeuePos := s.dequeuePos + 1 }.setServer
      (.function false remaining s.dequeuePos)).live ns = s.live ns := by
    rw [State.live, State.live, hpc]
    rfl
  refine ⟨ns, r, h.list.chain, hs.served rfl rfl rfl (Nat.le_succ _) (fun _ => rfl) rfl ?_
    (fun hpc => by cases hpc), .inl ?_⟩
  · rw [hhorizon']
    rw [hhorizon] at hle
    exact ⟨by show s.dequeuePos + 1 ≤ _; omega, hle⟩
  · rw [State.asList, State.asList, State.waiting, State.waiting, hpopped, hhorizon, hhorizon',
      hlive, segment_cons r (show s.dequeuePos < s.dequeuePos + remaining + 1 by omega), ← hitem]
    rfl

/-- An item that stands first is run. -/
theorem moves_first {rest ran : List WorkItem} {queued : ℕ} :
    Moves ⟨item :: rest, ran, queued⟩ ⟨rest, ran ++ [item], queued⟩ :=
  .inr ⟨.processFirst, rfl⟩

/-- The item that was popped is run. -/
theorem Shape.call (h : Inv s ns) (hs : Shape i s ns r) {remaining : ℕ}
    (hpc : s.server = .call false remaining item) :
    Follows i s ns r ((s.exec ⟨item, true, false⟩).setServer (.scan false remaining)) := by
  have hhorizon : ((s.exec ⟨item, true, false⟩).setServer (.scan false remaining)).horizon =
      s.horizon := by
    rw [horizon_of_server hpc]
    rfl
  have hlive : ((s.exec ⟨item, true, false⟩).setServer (.scan false remaining)).live ns =
      s.live ns := by
    rw [State.live, State.live, hpc]
    rfl
  have hpopped : s.popped = some item := by rw [State.popped, hpc]
  refine ⟨ns, r, h.list.chain, hs.served rfl rfl rfl (Nat.le_refl _) (fun _ => rfl) rfl
    (hhorizon ▸ hs.horizon) (fun hpc => by cases hpc), ?_⟩
  rw [State.asList, State.asList, State.waiting, State.waiting, hhorizon, hlive, hpopped]
  show Moves _ ⟨_, (s.log ++ [_]).map Exec.item, _⟩
  rw [List.map_append]
  exact moves_first

/-- The head of the list is the first node. -/
theorem AtPointer.head {post : List ℕ} (hat : AtPointer ns none post) : ns = post := by
  obtain ⟨pre, rfl, hp⟩ := hat
  rcases List.eq_nil_or_concat pre with rfl | ⟨pre, n, rfl⟩
  · rfl
  · rw [List.concat_eq_append, lastAddr_concat] at hp
    exact nomatch hp

/-- The item of the first node is run. -/
theorem Shape.callNode (h : Inv s ns) (hs : Shape i s ns r) {q : ℕ}
    (hpc : s.server = .callNode none q) :
    Follows i s ns r
      ((s.exec ⟨s.nodeItem q, true, false⟩).setServer (.relock none q true)) := by
  have hok := h.server
  rw [hpc] at hok
  obtain ⟨post, hat⟩ := hok
  obtain rfl := hat.head
  have hhorizon : s.horizon = s.dequeuePos := horizon_of_server hpc
  have hhorizon' : ((s.exec ⟨s.nodeItem q, true, false⟩).setServer
      (.relock none q true)).horizon = s.dequeuePos := rfl
  have hpopped : s.popped = none := by rw [State.popped, hpc]
  have hlive : s.live (q :: post) = q :: post := live_of_alive (by rw [hpc]; rfl) _
  have hlive' : ((s.exec ⟨s.nodeItem q, true, false⟩).setServer
      (.relock none q true)).live (q :: post) = post := live_of_dead rfl h.list.nodup
  have hplace := hs.horizon
  rw [hhorizon] at hplace
  refine ⟨q :: post, r, h.list.chain, hs.served rfl rfl rfl (Nat.le_refl _) (fun _ => rfl)
    ⟨rfl, rfl⟩ hplace (fun hpc => by cases hpc), ?_⟩
  rw [State.asList, State.asList, State.waiting, State.waiting, hhorizon, hhorizon', hlive, hlive',
    hpopped, segment_self]
  show Moves _ ⟨[] ++ segment r s.dequeuePos s.dequeuePos ++ post.map s.nodeItem ++
    segment r s.dequeuePos s.enqueuePos ++ _, (s.log ++ [_]).map Exec.item, _⟩
  rw [segment_self, List.map_append]
  exact moves_first

/-- The node that is finished is taken out. -/
theorem Shape.remove (h : Inv s ns) (hs : Shape i s ns r) {q : ℕ}
    (hpc : s.server = .remove false none q) :
    Follows i s ns r ({ s with next := Function.update s.next none (s.next (some q)) }.setServer
      (.next false none)) := by
  have hok := h.server
  rw [hpc] at hok
  obtain ⟨-, -, post, hat⟩ := hok
  obtain rfl := hat.head
  have hhorizon : s.horizon = s.dequeuePos := horizon_of_server hpc
  have hpopped : s.popped = none := by rw [State.popped, hpc]
  have hlive : s.live (q :: post) = post := live_of_dead (by rw [hpc]; rfl) h.list.nodup
  have hlive' : ({ s with next := Function.update s.next none (s.next (some q)) }.setServer
      (.next false none)).live post = post := live_of_alive rfl _
  have hchain : Chain (Function.update s.next none (s.next (some q))) none ([] ++ post) :=
    Chain.remove (show Chain s.next none ([] ++ q :: post) from h.list.chain) h.list.nodup
      fun _ _ hq => by cases hq
  refine ⟨post, r, hchain,
    hs.served rfl rfl rfl (Nat.le_refl _) (fun _ => rfl) ⟨rfl, rfl⟩ ?_ (fun hpc => by cases hpc),
    .inl ?_⟩
  · exact hhorizon ▸ hs.horizon
  · rw [State.asList, State.asList, State.waiting, State.waiting, hhorizon, hlive, hlive', hpopped]
    rfl

/-- A call of `ProcessWorkQueue` is over: the list is empty, and the ring is what waits. -/
theorem Shape.finish (h : Inv s ns) (hs : Shape i s ns r) (hpc : s.server = .unlock) :
    Follows i s ns r ({ s with overflowLock := none }.setServer .idle) := by
  obtain rfl := hs.done hpc
  have hhorizon : s.horizon = s.dequeuePos := horizon_of_server hpc
  have hhorizon' : ({ s with overflowLock := none }.setServer .idle).horizon = s.enqueuePos := rfl
  have hpopped : s.popped = none := by rw [State.popped, hpc]
  refine ⟨[], r, h.list.chain, hs.served rfl rfl rfl (Nat.le_refl _) (fun _ => rfl) trivial
    ⟨h.ring.le, Nat.le_refl _⟩ (fun _ => rfl), .inl ?_⟩
  have hbefore : s.waiting [] r i =
      segment r s.dequeuePos s.enqueuePos ++ (s.push (some i)).unplaced.toList := by
    rw [State.waiting, hpopped, hhorizon, segment_self]
    rfl
  have hafter : ({ s with overflowLock := none }.setServer .idle).waiting [] r i =
      segment r s.dequeuePos s.enqueuePos ++ (s.push (some i)).unplaced.toList := by
    rw [State.waiting, hhorizon']
    show [] ++ segment r s.dequeuePos s.enqueuePos ++ [] ++ segment r s.enqueuePos s.enqueuePos ++
      (s.push (some i)).unplaced.toList = _
    rw [segment_self, List.append_nil, List.append_nil, List.nil_append]
  rw [State.asList, State.asList, hbefore, hafter]
  rfl

/-- The ring is counted, and its positions are popped one after another. -/
theorem Shape.of_ringStep (h : Inv s ns) (hs : Shape i s ns r) (hkept : (s.asList ns r i).Kept)
    {spurious : Bool} (hring : s.server.InRingPop)
    (hstep : serverStep s true spurious = some s') : Follows i s ns r s' := by
  have hok := h.server
  have hplain := hs.plain
  cases hpc : s.server with
  | countTail z =>
    rw [hpc] at hplain
    simp only [serverStep, hpc, Option.some_inj] at hstep
    subst hstep
    exact hs.setServer h hpc hplain rfl rfl rfl (fun hpc => by cases hpc)
  | countHead z tail =>
    rw [hpc] at hplain hok
    simp only [serverStep, hpc, Option.some_inj] at hstep
    subst hstep
    obtain rfl : tail = s.dequeuePos := hok
    refine hs.setServer h hpc hplain rfl ?_ rfl (fun hpc => by cases hpc)
    -- the whole ring is counted
    have hle := h.ring.le
    rw [h.ring.count_eq]
    show s.dequeuePos + (s.enqueuePos - s.dequeuePos) = s.enqueuePos
    omega
  | scan z remaining =>
    rw [hpc] at hplain
    simp only [serverStep, hpc] at hstep
    split at hstep <;> obtain rfl := Option.some_inj.mp hstep
    · rename_i hzero
      subst hzero
      exact hs.setServer h hpc hplain rfl rfl rfl (fun hpc => by cases hpc)
    · refine hs.setServer h hpc hplain rfl ?_ rfl (fun hpc => by cases hpc)
      show s.dequeuePos + (remaining - 1) + 1 = s.dequeuePos + remaining
      omega
  | sequence z remaining pos =>
    rw [hpc] at hplain hok
    simp only [serverStep, hpc] at hstep
    obtain rfl : pos = s.dequeuePos := hok
    obtain rfl : z = false := hplain
    split at hstep
    · obtain rfl := Option.some_inj.mp hstep
      exact hs.setServer h hpc rfl rfl rfl rfl (fun hpc => by cases hpc)
    · rename_i hseq
      split at hstep <;> obtain rfl := Option.some_inj.mp hstep
      · refine ⟨ns, r, h.list.chain, hs.served rfl rfl rfl (Nat.le_refl _) (fun _ => rfl) rfl
          ⟨Nat.le_refl _, h.ring.le⟩ (fun hpc => by cases hpc), .inl ?_⟩
        exact hs.stop h hkept hpc hseq
      · exact hs.setServer h hpc rfl rfl rfl rfl (fun hpc => by cases hpc)
  | cas z remaining pos =>
    rw [hpc] at hplain
    simp only [serverStep, hpc] at hstep
    obtain rfl : z = false := hplain
    split at hstep <;> obtain rfl := Option.some_inj.mp hstep
    · exact hs.pop h hpc
    · exact hs.setServer h hpc rfl rfl rfl rfl (fun hpc => by cases hpc)
  | function z remaining pos | client z remaining pos f | closure z remaining pos f c =>
    rw [hpc] at hplain
    simp only [serverStep, hpc, Option.some_inj] at hstep
    subst hstep
    exact hs.setServer h hpc hplain rfl rfl rfl (fun hpc => by cases hpc)
  | requeue z remaining =>
    rw [hpc] at hplain
    exact hplain.elim
  | _ => simp [hpc, Server.InRingPop] at hring

/-- The popped cell is given back to the pushing threads. -/
theorem Shape.release (h : Inv s ns) (hs : Shape i s ns r) {z : Bool} {remaining pos : ℕ}
    (hpc : s.server = .release z remaining pos item) :
    Follows i s ns r
      ((s.setSequence pos (pos + ringSize)).setServer (.call z remaining item)) := by
  have hok := h.server
  have hplain := hs.plain
  rw [hpc] at hplain hok
  obtain rfl : z = false := hplain
  obtain rfl : item = (s.cellAt pos).item := hok
  have hhorizon : ((s.setSequence pos (pos + ringSize)).setServer
      (.call false remaining (s.cellAt pos).item)).horizon = s.horizon := by
    rw [horizon_of_server hpc]
    rfl
  refine ⟨ns, r, h.list.chain, hs.served rfl rfl rfl (Nat.le_refl _)
    (setSequence_item s pos _) rfl (hhorizon ▸ hs.horizon) (fun hpc => by cases hpc),
    .inl (asList_congr ?_ rfl rfl hhorizon (by rw [hpc]; rfl) (fun _ _ => rfl) rfl rfl rfl)⟩
  rw [popped_of_server hpc]
  rfl

/-- The list is empty, and `overflowLast` is its head again. -/
theorem Shape.setLast (h : Inv s ns) (hs : Shape i s ns r) {p : Option ℕ}
    (hpc : s.server = .setLast p) :
    Follows i s ns r ({ s with overflowLast := p }.setServer .unlock) := by
  have hok := h.server
  have hplain := hs.plain
  rw [hpc] at hplain hok
  obtain rfl : p = none := hplain
  obtain rfl := hok.2.head
  refine ⟨[], r, h.list.chain, hs.served rfl rfl rfl (Nat.le_refl _) (fun _ => rfl) trivial ?_
    (fun _ => rfl), .inl (asList_congr ?_ rfl rfl ?_ (by rw [hpc]; rfl) (fun _ _ => rfl) rfl rfl
      rfl)⟩
  · exact ⟨Nat.le_refl _, h.ring.le⟩
  · rw [popped_of_server hpc]
    rfl
  · rw [horizon_of_server hpc]
    rfl

/-- The overflow list is walked: its first node is run and taken out, until it is empty. -/
theorem Shape.of_listStep (h : Inv s ns) (hs : Shape i s ns r) {spurious : Bool}
    (hlist : s.server.InList) (hstep : serverStep s true spurious = some s') :
    Follows i s ns r s' := by
  have hplain := hs.plain
  -- with `TRUE` each function is called once and its node removed, so `p` stays none
  cases hpc : s.server with
  | lock z =>
    rw [hpc] at hplain
    simp only [serverStep, hpc] at hstep
    split at hstep
    · obtain rfl := Option.some_inj.mp hstep
      exact hs.goOn h hpc ⟨hplain, rfl⟩ rfl rfl rfl (fun hpc => by cases hpc)
    · simp at hstep
  | next z p =>
    rw [hpc] at hplain
    obtain ⟨rfl, rfl⟩ := hplain
    simp only [serverStep, hpc] at hstep
    split at hstep <;> obtain rfl := Option.some_inj.mp hstep
    · exact hs.setServer h hpc rfl rfl rfl rfl (fun hpc => by cases hpc)
    · exact hs.setServer h hpc rfl rfl rfl rfl (fun hpc => by cases hpc)
  | unlockNode p q =>
    rw [hpc] at hplain
    simp only [serverStep, hpc, Option.some_inj] at hstep
    subst hstep
    exact hs.goOn h hpc hplain rfl rfl rfl (fun hpc => by cases hpc)
  | callNode p q =>
    rw [hpc] at hplain
    obtain rfl : p = none := hplain
    simp only [serverStep, hpc, Option.some_inj] at hstep
    subst hstep
    exact hs.callNode h hpc
  | relock p q result =>
    rw [hpc] at hplain
    obtain ⟨rfl, rfl⟩ := hplain
    simp only [serverStep, hpc] at hstep
    split at hstep
    · obtain rfl := Option.some_inj.mp hstep
      exact hs.goOn h hpc ⟨rfl, rfl⟩ rfl rfl rfl (fun hpc => by cases hpc)
    · simp at hstep
  | zombieNode p q =>
    rw [hpc] at hplain
    exact hplain.elim
  | remove z p q =>
    rw [hpc] at hplain
    obtain ⟨rfl, rfl⟩ := hplain
    simp only [serverStep, hpc, Option.some_inj] at hstep
    subst hstep
    exact hs.remove h hpc
  | setLast p =>
    simp only [serverStep, hpc, Option.some_inj] at hstep
    subst hstep
    exact hs.setLast h hpc
  | unlock =>
    simp only [serverStep, hpc, Option.some_inj] at hstep
    subst hstep
    exact hs.finish h hpc
  | _ => simp [hpc, Server.InList] at hlist

/-- Every step of the server's thread, the functions returning `TRUE`. -/
theorem Shape.of_serverStep (h : Inv s ns) (hs : Shape i s ns r) (hkept : (s.asList ns r i).Kept)
    {spurious : Bool} (hstep : serverStep s true spurious = some s') : Follows i s ns r s' := by
  rcases s.server.parts with hpc | hring | ⟨z, remaining, pos, item, hpc⟩ |
    ⟨z, remaining, item, hpc⟩ | hlist
  · simp [serverStep, hpc] at hstep
  · exact hs.of_ringStep h hkept hring hstep
  · simp only [serverStep, hpc, Option.some_inj] at hstep
    subst hstep
    exact hs.release h hpc
  · have hplain := hs.plain
    rw [hpc] at hplain
    obtain rfl : z = false := hplain
    simp only [serverStep, hpc, if_true, Option.some_inj] at hstep
    subst hstep
    exact hs.call h hpc
  · exact hs.of_listStep h hlist hstep

/-! ### The producer -/

theorem horizon_congr (hserver : s'.server = s.server) (hdeq : s'.dequeuePos = s.dequeuePos)
    (henq : s'.enqueuePos = s.enqueuePos) : s'.horizon = s.horizon := by
  rw [State.horizon, State.horizon, State.limit, State.limit, hserver, hdeq, henq]

/-- What is published the producer leaves as it is. -/
theorem Shape.published_frame (h : Inv s ns) (hs : Shape i s ns r) (hf : Frame s ns s') {pos : ℕ}
    (hpub : s.Published pos) : (s'.cellAt pos).item = r pos := by
  rw [hf.item pos (Nat.le_trans h.ring.released_le hpub.1) hpub.2.1 hpub.2.2]
  exact hs.published pos hpub

/-- Where no claim changes, nothing is published. -/
theorem published_congr (hothers : ∀ th, th ≠ some i → s'.push th = s.push th)
    (hclaim : (s'.push (some i)).claim = (s.push (some i)).claim)
    (hdeq : s'.dequeuePos = s.dequeuePos) (henq : s'.enqueuePos = s.enqueuePos) (pos : ℕ) :
    s'.Published pos ↔ s.Published pos := by
  rw [State.Published, State.Published, claimed_congr hothers hclaim, hdeq, henq]

/-- A step of the producer that claims nothing, publishes nothing and links nothing in. -/
theorem Shape.pushed (h : Inv s ns) (hs : Shape i s ns r) (hf : Frame s ns s')
    (hchain : Chain s'.next none ns) (henq : s'.enqueuePos = s.enqueuePos)
    (hqueued : s'.queued = s.queued) (hothers : ∀ th, th ≠ some i → s'.push th = s.push th)
    {pc pc' : Push} (hpc : s.push (some i) = pc) (hpc' : s'.push (some i) = pc')
    (hclaim : pc'.claim = pc.claim) (hitem : pc'.item? = pc.item?)
    (hunplaced : pc'.unplaced = pc.unplaced)
    (hcurrent : ∀ pos, pc'.pos? = some pos → pos = s'.enqueuePos) :
    Follows i s ns r s' := by
  have hhorizon := horizon_congr hf.server hf.dequeuePos henq
  subst hpc hpc'
  refine ⟨ns, r, hchain, ⟨fun th hth => (hothers th hth).trans (hs.alone th hth),
    fun pos hpos => ?_, by rw [hclaim, hitem, henq]; exact hs.claimed,
    by rw [hitem, hqueued]; exact hs.newest, hcurrent, hf.server ▸ hs.plain,
    by rw [hhorizon, hf.dequeuePos, henq]; exact hs.horizon,
    fun hpc => hs.done (hf.server ▸ hpc)⟩,
    .inl (asList_congr (hf.popped h) hf.dequeuePos henq hhorizon (by rw [hf.server])
      hf.nodeItem hunplaced hf.log hqueued)⟩
  exact hs.published_frame h hf ((published_congr hothers hclaim hf.dequeuePos henq pos).mp hpos)

/-- What waits behind the horizon when the last position is claimed. -/
theorem segment_update (r : ℕ → WorkItem) (item : WorkItem) {a b n : ℕ} (h : b ≤ n) :
    segment (Function.update r n item) a b = segment r a b := by
  refine segment_congr fun pos hpos => Function.update_of_ne ?_ ..
  omega

theorem segment_claim (r : ℕ → WorkItem) (item : WorkItem) {a n : ℕ} (h : a ≤ n) :
    segment (Function.update r n item) a (n + 1) = segment r a n ++ [item] := by
  rw [segment_concat _ h, segment_update r item (Nat.le_refl _), Function.update_self]

/-- Once the ring is counted, the horizon does not go with it. -/
theorem horizon_of_counted (hcounted : s.server.counted = true) (hserver : s'.server = s.server)
    (hdeq : s'.dequeuePos = s.dequeuePos) : s'.horizon = s.horizon := by
  rw [State.horizon, State.horizon, hserver, if_pos hcounted, if_pos hcounted, State.limit,
    State.limit, hserver, hdeq]
  cases hpc : s.server <;> first | rfl | (rw [hpc] at hcounted; cases hcounted)

theorem horizon_of_uncounted (hcounted : s.server.counted = false) : s.horizon = s.enqueuePos := by
  rw [State.horizon, hcounted]
  rfl

/-- The last position is claimed: its item comes behind all the others. -/
theorem Shape.claim (h : Inv s ns) (hs : Shape i s ns r) (hf : Frame s ns s')
    (hpc : s.push (some i) = .cas item s.enqueuePos)
    (hs' : s' = { s with enqueuePos := s.enqueuePos + 1 }.setPush (some i)
      (.function item s.enqueuePos))
    (horderly : s.server.counted = false → s.next none = none) : Follows i s ns r s' := by
  have hothers : ∀ th, th ≠ some i → s'.push th = s.push th :=
    fun th hth => hs' ▸ setPush_push_of_ne _ hth _
  have hself : s'.push (some i) = .function item s.enqueuePos := hs' ▸ setPush_push_self ..
  have henq : s'.enqueuePos = s.enqueuePos + 1 := hs' ▸ rfl
  have hitem : (s.push (some i)).item? = some item := by rw [hpc]; rfl
  have hclaimed : s'.Claimed s.enqueuePos := ⟨some i, by rw [hself]; rfl⟩
  have hplace := hs.horizon
  have hlive : s'.live ns = s.live ns := by rw [State.live, State.live, hf.server]
  have hitems : (s.live ns).map s'.nodeItem = (s.live ns).map s.nodeItem :=
    List.map_congr_left fun n hn => hf.nodeItem n (live_subset s ns hn)
  -- while the call has counted, the new position is beyond the horizon; else it is the last
  have hhorizon : s.server.counted = true ∧ s'.horizon = s.horizon ∨ s.server.counted = false ∧
      s.horizon = s.enqueuePos ∧ s'.horizon = s.enqueuePos + 1 := by
    cases hcounted : s.server.counted with
    | true => exact .inl ⟨rfl, horizon_of_counted hcounted hf.server hf.dequeuePos⟩
    | false =>
      have hcounted' : s'.server.counted = false := by rw [hf.server, hcounted]
      exact .inr ⟨rfl, horizon_of_uncounted hcounted, henq ▸ horizon_of_uncounted hcounted'⟩
  refine ⟨ns, Function.update r s.enqueuePos item, hs' ▸ h.list.chain,
    ⟨fun th hth => (hothers th hth).trans (hs.alone th hth), fun pos hpos => ?_,
      fun pos hpos => ?_, fun item' hitem' => ?_, fun pos hpos => ?_, hf.server ▸ hs.plain, ?_,
      fun hpc => hs.done (hf.server ▸ hpc)⟩, .inl ?_⟩
  · -- a position is published only when its item is written, so the new one is none
    have hne : pos ≠ s.enqueuePos := by
      rintro rfl
      exact hpos.2.2 hclaimed
    have hlt := hpos.2.1
    rw [henq] at hlt
    have hpub : s.Published pos := by
      refine ⟨hf.dequeuePos ▸ hpos.1, by omega, ?_⟩
      rintro ⟨th, hth⟩
      by_cases hi : th = some i
      · rw [hi, hpc] at hth
        exact nomatch hth
      · exact hpos.2.2 ⟨th, hothers th hi ▸ hth⟩
    rw [hs.published_frame h hf hpub, Function.update_of_ne hne]
  · rw [hself] at hpos ⊢
    obtain rfl : s.enqueuePos = pos := Option.some_inj.mp hpos
    refine ⟨henq.symm, ?_⟩
    rw [Function.update_self]
    rfl
  · rw [hself] at hitem'
    obtain rfl : item = item' := Option.some_inj.mp hitem'
    have hqueued : s'.queued = s.queued := hs' ▸ rfl
    rw [hqueued]
    exact hs.newest item hitem
  · rw [hself] at hpos
    exact nomatch hpos
  · rw [hf.dequeuePos, henq]
    rcases hhorizon with ⟨-, hsame⟩ | ⟨-, -, hend⟩
    · rw [hsame]
      exact ⟨hplace.1, Nat.le_succ_of_le hplace.2⟩
    · rw [hend]
      exact ⟨Nat.le_succ_of_le h.ring.le, Nat.le_refl _⟩
  · -- the item leaves the hand of the thread and stands behind all that wait
    have hunplaced : (s.push (some i)).unplaced = some item := by rw [hpc]; rfl
    have hwaiting : s'.waiting ns (Function.update r s.enqueuePos item) i = s.waiting ns r i := by
      rw [State.waiting, State.waiting, hf.popped h, hf.dequeuePos, henq, hlive, hitems, hself,
        hunplaced]
      rcases hhorizon with ⟨-, hsame⟩ | ⟨hcounted, hold, hend⟩
      · rw [hsame, segment_update r item hplace.2, segment_claim r item hplace.2]
        simp [Push.unplaced]
      · -- the list is empty
        have hnil : Chain s.next none [] := horderly hcounted
        obtain rfl : ns = [] := h.list.chain.unique hnil
        rw [hend, hold, segment_claim r item h.ring.le, segment_self, segment_self]
        simp [Push.unplaced, State.live]
    rw [State.asList, State.asList, hwaiting, hs']
    rfl

/-- The claimed position is published. -/
theorem Shape.publish (h : Inv s ns) (hs : Shape i s ns r) (hf : Frame s ns s') {pos : ℕ}
    (hpc : s.push (some i) = .publish item pos)
    (hs' : s' = (s.setSequence pos (pos + 1)).setPush (some i) .idle) :
    Follows i s ns r s' := by
  have hok := h.push (some i)
  rw [hpc] at hok
  have hothers : ∀ th, th ≠ some i → s'.push th = s.push th :=
    fun th hth => hs' ▸ setPush_push_of_ne _ hth _
  have hself : s'.push (some i) = .idle := hs' ▸ setPush_push_self ..
  have hitem : ∀ p, (s'.cellAt p).item = (s.cellAt p).item := hs' ▸ setSequence_item s pos _
  have hlast := hs.claimed pos (by rw [hpc]; rfl)
  rw [hpc] at hlast
  have henq : s'.enqueuePos = s.enqueuePos := hs' ▸ rfl
  have hhorizon := horizon_congr hf.server hf.dequeuePos henq
  refine ⟨ns, r, hs' ▸ h.list.chain, ⟨fun th hth => (hothers th hth).trans (hs.alone th hth),
      fun p hp => ?_, by rw [hself]; exact fun _ hp => (nomatch hp),
      by rw [hself]; exact fun _ hp => (nomatch hp), by rw [hself]; exact fun _ hp => (nomatch hp),
      hf.server ▸ hs.plain, by rw [hhorizon, hf.dequeuePos, henq]; exact hs.horizon,
      fun hpc => hs.done (hf.server ▸ hpc)⟩,
    .inl (asList_congr (hf.popped h) hf.dequeuePos henq hhorizon (by rw [hf.server])
      hf.nodeItem (by rw [hself, hpc]; rfl) hf.log (hs' ▸ rfl))⟩
  rw [hitem]
  by_cases hp' : p = pos
  · rw [hp', hok.2]
    exact Option.some_inj.mp hlast.2
  · refine hs.published p ⟨hf.dequeuePos ▸ hp.1, henq ▸ hp.2.1, ?_⟩
    rintro ⟨th, hth⟩
    by_cases hi : th = some i
    · rw [hi, hpc] at hth
      exact hp' (Option.some_inj.mp hth).symm
    · exact hp.2.2 ⟨th, hothers th hi ▸ hth⟩

/-- The node is linked in: its item comes behind all the others. -/
theorem Shape.link (h : Inv s ns) (hs : Shape i s ns r) (hf : Frame s ns s') {node : ℕ}
    (hpc : s.push (some i) = .link item node)
    (hs' : s' = { s with next := Function.update s.next s.overflowLast (some node) }.setPush
      (some i) (.setLast node))
    (horderly : s.server.counted = true → s.enqueuePos ≤ s.limit) : Follows i s ns r s' := by
  have hok := h.push (some i)
  rw [hpc] at hok
  obtain ⟨hnode, hlock, -⟩ := hok
  have hothers : ∀ th, th ≠ some i → s'.push th = s.push th :=
    fun th hth => hs' ▸ setPush_push_of_ne _ hth _
  have hself : s'.push (some i) = .setLast node := hs' ▸ setPush_push_self ..
  have henq : s'.enqueuePos = s.enqueuePos := hs' ▸ rfl
  have hnodeItem : s'.nodeItem = s.nodeItem := hs' ▸ rfl
  have hhorizon := horizon_congr hf.server hf.dequeuePos henq
  have hplace := hs.horizon
  have hdead : s.server.dead ≠ some node := fun hd => hnode.notMem (h.dead_mem hd)
  have hlive : s'.live (ns ++ [node]) = s.live ns ++ [node] := by
    rw [State.live, State.live, hf.server, List.filter_append, List.filter_singleton]
    simp [hdead]
  have hend : s.horizon = s.enqueuePos := by
    cases hcounted : s.server.counted with
    | true =>
      have hle := horderly hcounted
      rw [State.horizon, if_pos hcounted] at hplace ⊢
      omega
    | false => exact horizon_of_uncounted hcounted
  refine ⟨ns ++ [node], r, hs' ▸ (h.link hpc).list.chain,
    ⟨fun th hth => (hothers th hth).trans (hs.alone th hth), fun p hp => ?_,
      by rw [hself]; exact fun _ hp => (nomatch hp), by rw [hself]; exact fun _ hp => (nomatch hp),
      by rw [hself]; exact fun _ hp => (nomatch hp), hf.server ▸ hs.plain,
      by rw [hhorizon, hf.dequeuePos, henq]; exact hs.horizon, fun hpc => ?_⟩, .inl ?_⟩
  · have hclaim : (s'.push (some i)).claim = (s.push (some i)).claim := by rw [hself, hpc]; rfl
    exact hs.published_frame h hf ((published_congr hothers hclaim hf.dequeuePos henq p).mp hp)
  · -- the server's thread does not have the lock
    have hserver := h.server
    rw [← hf.server, hpc] at hserver
    exact absurd (hlock.symm.trans hserver.1) (by simp)
  · have hunplaced : (s.push (some i)).unplaced = some item := by rw [hpc]; rfl
    have hwaiting : s'.waiting (ns ++ [node]) r i = s.waiting ns r i := by
      rw [State.waiting, State.waiting, hf.popped h, hf.dequeuePos, henq, hhorizon, hlive,
        hnodeItem, hself, hunplaced, hend, segment_self, List.map_append]
      simp [Push.unplaced, hnode.item]
    rw [State.asList, State.asList, hwaiting, hs']
    rfl

/-- Every step of the producer. -/
theorem Shape.of_pushStep (h : Inv s ns) (hs : Shape i s ns r) {spurious : Bool}
    (hwrap : NoFullWrap s (.push (some i) spurious))
    (horderly : Orderly s (.push (some i) spurious))
    (hstep : pushStep s (some i) spurious = some s') : Follows i s ns r s' := by
  have hf := h.frame_pushStep hwrap hstep
  have hothers : ∀ th, th ≠ some i → s'.push th = s.push th :=
    fun th hth => pushStep_push_of_ne hstep hth
  have hcurrent := hs.current
  rw [pushStep] at hstep
  cases hpc : s.push (some i) with
  | idle => simp [hpc] at hstep
  | load item =>
    simp only [hpc, Option.some_inj] at hstep
    subst hstep
    exact hs.pushed h hf h.list.chain rfl rfl hothers hpc (setPush_push_self ..) rfl rfl rfl
      (fun pos hpos => (Option.some_inj.mp hpos).symm)
  | sequence item pos =>
    have hpos : pos = s.enqueuePos := hcurrent pos (by rw [hpc]; rfl)
    simp only [hpc] at hstep
    split at hstep
    · obtain rfl := Option.some_inj.mp hstep
      exact hs.pushed h hf h.list.chain rfl rfl hothers hpc (setPush_push_self ..) rfl rfl rfl
        (fun p hp => (Option.some_inj.mp hp).symm.trans hpos)
    · split at hstep <;> obtain rfl := Option.some_inj.mp hstep
      · exact hs.pushed h hf h.list.chain rfl rfl hothers hpc (setPush_push_self ..) rfl rfl rfl
          (fun p hp => by cases hp)
      · exact hs.pushed h hf h.list.chain rfl rfl hothers hpc (setPush_push_self ..) rfl rfl rfl
          (fun p hp => by cases hp)
  | cas item pos =>
    obtain rfl : pos = s.enqueuePos := hcurrent pos (by rw [hpc]; rfl)
    simp only [hpc] at hstep
    split at hstep
    · rename_i hswap
      -- it comes behind all the others
      refine hs.claim h hf hpc (Option.some_inj.mp hstep).symm ?_
      exact horderly.1 s.enqueuePos (by rw [hpc]; rfl) hswap
    · obtain rfl := Option.some_inj.mp hstep
      exact hs.pushed h hf h.list.chain rfl rfl hothers hpc (setPush_push_self ..) rfl rfl rfl
        (fun p hp => (Option.some_inj.mp hp).symm)
  | function item pos =>
    simp only [hpc, Option.some_inj] at hstep
    subst hstep
    exact hs.pushed h hf h.list.chain rfl rfl hothers hpc (setPush_push_self ..) rfl rfl rfl
      (fun p hp => by cases hp)
  | client item pos =>
    simp only [hpc, Option.some_inj] at hstep
    subst hstep
    exact hs.pushed h hf h.list.chain rfl rfl hothers hpc (setPush_push_self ..) rfl rfl rfl
      (fun p hp => by cases hp)
  | closure item pos =>
    simp only [hpc, Option.some_inj] at hstep
    subst hstep
    exact hs.pushed h hf h.list.chain rfl rfl hothers hpc (setPush_push_self ..) rfl rfl rfl
      (fun p hp => by cases hp)
  | publish item pos =>
    simp only [hpc, Option.some_inj] at hstep
    exact hs.publish h hf hpc hstep.symm
  | alloc item =>
    simp only [hpc, Option.some_inj] at hstep
    -- the new node is not in the list yet
    have hchain := (h.alloc hpc hstep.symm).list.chain
    subst hstep
    exact hs.pushed h hf hchain rfl rfl hothers hpc (setPush_push_self ..) rfl rfl rfl
      (fun p hp => by cases hp)
  | lock item node =>
    simp only [hpc] at hstep
    split at hstep
    · obtain rfl := Option.some_inj.mp hstep
      exact hs.pushed h hf h.list.chain rfl rfl hothers hpc (setPush_push_self ..) rfl rfl rfl
        (fun p hp => by cases hp)
    · simp at hstep
  | link item node =>
    simp only [hpc, Option.some_inj] at hstep
    exact hs.link h hf hpc hstep.symm (horderly.2 (by rw [hpc]; rfl))
  | setLast node =>
    simp only [hpc, Option.some_inj] at hstep
    subst hstep
    exact hs.pushed h hf h.list.chain rfl rfl hothers hpc (setPush_push_self ..) rfl rfl rfl
      (fun p hp => by cases hp)
  | unlock =>
    simp only [hpc, Option.some_inj] at hstep
    subst hstep
    exact hs.pushed h hf h.list.chain rfl rfl hothers hpc (setPush_push_self ..) rfl rfl rfl
      (fun p hp => by cases hp)

/-- The producer calls `QueueWorkProc`: so it does with the list. -/
theorem Shape.queueWorkProc (h : Inv s ns) (hs : Shape i s ns r)
    (hidle : s.push (some i) = .idle) : Follows i s ns r
      ({ s with queued := s.queued + 1 }.setPush (some i) (.load (.of s.queued))) := by
  have hothers : ∀ th, th ≠ some i → ({ s with queued := s.queued + 1 }.setPush (some i)
      (.load (.of s.queued))).push th = s.push th := fun _ hth => setPush_push_of_ne _ hth _
  have hself := setPush_push_self { s with queued := s.queued + 1 } (some i)
    (.load (.of s.queued))
  have hunplaced : (s.push (some i)).unplaced = none := by rw [hidle]; rfl
  refine ⟨ns, r, h.list.chain, ⟨fun th hth => (hothers th hth).trans (hs.alone th hth),
    fun pos hpos => hs.published pos ?_, by rw [hself]; exact fun _ hp => (nomatch hp),
    by rw [hself]; exact fun _ hitem => (Option.some_inj.mp hitem).symm,
    by rw [hself]; exact fun _ hp => (nomatch hp), hs.plain, hs.horizon, hs.done⟩,
    .inr ⟨.queueWorkProc, ?_⟩⟩
  · exact (published_congr hothers (by rw [hself, hidle]; rfl) rfl rfl pos).mp hpos
  · have hwaiting : ({ s with queued := s.queued + 1 }.setPush (some i)
        (.load (.of s.queued))).waiting ns r i = s.waiting ns r i ++ [.of s.queued] := by
      rw [State.waiting, State.waiting, hself, hunplaced, Option.toList_none, List.append_nil]
      rfl
    rw [State.asList, State.asList, hwaiting]
    rfl

/-! ### Every step -/

/-- One producer is never a whole wrap late. -/
theorem Shape.noFullWrap (hs : Shape i s ns r) (a : Act) : NoFullWrap s a := by
  cases a with
  | push th spurious =>
    intro item pos hpc
    have hth : th = some i := by
      by_contra hne
      rw [hs.alone th hne] at hpc
      exact nomatch hpc
    rw [hth] at hpc
    have hpos := hs.current pos (by rw [hpc]; rfl)
    rw [wordSize]
    omega
  | _ => trivial

theorem Shape.of_step (h : Inv s ns) (hs : Shape i s ns r) (hkept : (s.asList ns r i).Kept)
    {a : Act} (hsingle : Single i a) (horderly : Orderly s a) (hstep : step s a = some s') :
    Follows i s ns r s' := by
  cases a with
  | queueWorkProc j =>
    obtain rfl : j = i := hsingle
    obtain ⟨hidle, rfl⟩ := step_queueWorkProc hstep
    exact hs.queueWorkProc h hidle
  | push th spurious =>
    obtain rfl : th = some i := hsingle
    exact hs.of_pushStep h (hs.noFullWrap _) horderly hstep
  | processWorkQueue z =>
    obtain rfl : z = false := hsingle
    obtain ⟨hpc, rfl⟩ := step_processWorkQueue hstep
    exact hs.setServer h hpc rfl rfl rfl rfl (fun hpc => by cases hpc)
  | server result spurious =>
    obtain rfl : result = true := hsingle
    exact hs.of_serverStep h hkept hstep
  | clientGone tag =>
    obtain rfl := Option.some_inj.mp hstep
    exact ⟨ns, r, h.list.chain, ⟨hs.alone, hs.published, hs.claimed, hs.newest, hs.current,
      hs.plain, hs.horizon, hs.done⟩, .inl rfl⟩

/-- The list that the state comes from, with all it has run. -/
def Simulates (i : ℕ) (s : State) : Prop :=
  ∃ ns r, Inv s ns ∧ Shape i s ns r ∧ ∃ as, Machine.run dixStep {} as = some (s.asList ns r i)

theorem Simulates.initial (i : ℕ) : Simulates i initial :=
  ⟨[], fun _ => .of 0, Inv.initial,
    ⟨fun _ _ => rfl, fun _ hpos => absurd hpos.2.1 (Nat.not_lt_zero _),
      fun _ hp => (nomatch hp), fun _ hp => (nomatch hp), fun _ hp => (nomatch hp), trivial,
      ⟨Nat.le_refl _, Nat.le_refl _⟩, fun hpc => (nomatch hpc)⟩, [], rfl⟩

theorem Simulates.step (hsim : Simulates i s) {a : Act} (hsingle : Single i a)
    (horderly : Orderly s a) (hstep : step s a = some s') : Simulates i s' := by
  obtain ⟨ns, r, h, hs, as, hrun⟩ := hsim
  obtain ⟨ns', r', hchain, hs', hmoves⟩ :=
    hs.of_step h (DixQueue.Kept.of_run hrun) hsingle horderly hstep
  obtain ⟨ns'', h'⟩ := h.of_step (hs.noFullWrap a) hstep
  obtain rfl := h'.list.chain.unique hchain
  refine ⟨ns'', r', h', hs', ?_⟩
  rcases hmoves with hsame | ⟨b, hb⟩
  · exact ⟨as, hsame ▸ hrun⟩
  · refine ⟨as ++ [b], ?_⟩
    rw [Machine.run_append_of_eq hrun, Machine.run_cons_eq_some.mpr ⟨_, hb, rfl⟩]

/-- What is run first of all are the first calls. -/
theorem DixQueue.Kept.ran_eq {d : DixQueue} (h : d.Kept) :
    d.ran = (List.range d.ran.length).map .of := by
  have hlen : d.ran.length ≤ d.queued := by
    have := congrArg List.length h
    rw [List.length_append, List.length_map, List.length_range] at this
    omega
  have htake := congrArg (List.take d.ran.length) h
  rw [List.take_left, ← List.map_take, List.take_range, Nat.min_eq_left hlen] at htake
  exact htake

theorem Simulates.inOrder (hsim : Simulates i s) : InOrder s := by
  obtain ⟨ns, r, -, -, as, hrun⟩ := hsim
  refine ⟨⟨as, _, hrun, rfl, rfl⟩, ?_⟩
  have hran := (DixQueue.Kept.of_run hrun).ran_eq
  rw [State.asList, List.length_map] at hran
  exact hran

/-! ### What a step runs -/

/-- The item whose function a step calls. -/
def State.calls (s : State) : Act → Option WorkItem
  | .server _ _ =>
    match s.server with
    | .call false _ item => some item
    | .call true _ item => if s.gone item.client then some item else none
    | .callNode _ q => some (s.nodeItem q)
    | .zombieNode _ q => if s.gone (s.nodeItem q).client then some (s.nodeItem q) else none
    | _ => none
  | _ => none

theorem items_serverStep {result spurious : Bool}
    (hstep : serverStep s result spurious = some s') :
    s'.log.map (·.item) = s.log.map (·.item) ++ (s.calls (.server result spurious)).toList := by
  have hnone : s.log.map (·.item) = s.log.map (·.item) ++ [] := (List.append_nil _).symm
  have hone : ∀ e : Exec, (s.log ++ [e]).map (·.item) = s.log.map (·.item) ++ [e.item] :=
    fun e => List.map_append
  cases hpc : s.server with
  | call z remaining item =>
    cases z with
    | false =>
      simp only [serverStep, hpc] at hstep
      simp only [State.calls, hpc]
      split at hstep <;> obtain rfl := Option.some_inj.mp hstep <;> exact hone _
    | true =>
      simp only [serverStep, hpc] at hstep
      simp only [State.calls, hpc]
      split at hstep <;> obtain rfl := Option.some_inj.mp hstep
      · next hgone =>
        rw [if_pos hgone]
        exact hone _
      · next hgone =>
        rw [if_neg hgone]
        exact hnone
  | callNode p q =>
    simp only [serverStep, hpc] at hstep
    simp only [State.calls, hpc]
    obtain rfl := Option.some_inj.mp hstep
    exact hone _
  | zombieNode p q =>
    simp only [serverStep, hpc] at hstep
    simp only [State.calls, hpc]
    split at hstep <;> obtain rfl := Option.some_inj.mp hstep
    · next hgone =>
      rw [if_pos hgone]
      exact hone _
    · next hgone =>
      rw [if_neg hgone]
      exact hnone
  | _ =>
    simp only [serverStep, hpc] at hstep
    simp only [State.calls, hpc]
    repeat' split at hstep
    all_goals first
      | (obtain rfl := Option.some_inj.mp hstep; exact hnone)
      | (exact absurd hstep (by simp))

theorem items_step {a : Act} (hstep : step s a = some s') :
    s'.log.map (·.item) = s.log.map (·.item) ++ (s.calls a).toList := by
  have hnone : s.log.map (·.item) = s.log.map (·.item) ++ [] := (List.append_nil _).symm
  cases a with
  | queueWorkProc j =>
    obtain ⟨-, rfl⟩ := step_queueWorkProc hstep
    exact hnone
  | push th spurious =>
    rw [(pushStep_log hstep).1]
    exact hnone
  | processWorkQueue z =>
    obtain ⟨-, rfl⟩ := step_processWorkQueue hstep
    exact hnone
  | server result spurious => exact items_serverStep hstep
  | clientGone tag =>
    obtain rfl := Option.some_inj.mp hstep
    exact hnone

theorem queued_le_step {a : Act} (hstep : step s a = some s') : s.queued ≤ s'.queued := by
  cases a with
  | queueWorkProc j =>
    obtain ⟨-, rfl⟩ := step_queueWorkProc hstep
    exact Nat.le_succ _
  | push th spurious =>
    simp only [step] at hstep
    rw [pushStep] at hstep
    split at hstep <;> (try dsimp only at hstep) <;> repeat' split at hstep
    all_goals first
      | (obtain rfl := Option.some_inj.mp hstep; exact Nat.le_refl _)
      | (exact absurd hstep (by simp))
  | processWorkQueue z =>
    obtain ⟨-, rfl⟩ := step_processWorkQueue hstep
    exact Nat.le_refl _
  | server result spurious =>
    simp only [step] at hstep
    rw [serverStep] at hstep
    split at hstep <;> (try dsimp only at hstep) <;> repeat' split at hstep
    all_goals first
      | (obtain rfl := Option.some_inj.mp hstep; exact Nat.le_refl _)
      | (exact absurd hstep (by simp))
  | clientGone tag =>
    obtain rfl := Option.some_inj.mp hstep
    exact Nat.le_refl _

/-- The item that is run next is the first one that has not been run. -/
theorem Simulates.calls (hsim : Simulates i s) {a : Act} (hsingle : Single i a)
    (horderly : Orderly s a) (hstep : WorkQueue.step s a = some s') {item : WorkItem}
    (hcall : s.calls a = some item) :
    item = .of s.log.length ∧ s'.log.length = s.log.length + 1 := by
  have hitems := items_step hstep
  rw [hcall, Option.toList_some] at hitems
  have hlength : s'.log.length = s.log.length + 1 := by
    have := congrArg List.length hitems
    rwa [List.length_append, List.length_map, List.length_map] at this
  refine ⟨?_, hlength⟩
  rw [(hsim.step hsingle horderly hstep).inOrder.order, hlength, List.range_succ, List.map_append,
    hsim.inOrder.order] at hitems
  exact (List.singleton_inj.mp (List.append_cancel_left hitems)).symm

theorem Simulates.length_le (hsim : Simulates i s) : s.log.length ≤ s.queued := by
  obtain ⟨as, d, hrun, hqueued, hran⟩ := hsim.inOrder.list
  have hlen := congrArg List.length (DixQueue.Kept.of_run hrun)
  rw [List.length_append, List.length_map, List.length_range, hran, List.length_map] at hlen
  omega

/-- One producer's items are run in the order of its calls, as the list of `dixutils.c` runs
them, in every run in which none goes to the ring before it is counted while the overflow list
holds another, and none to the list of a call that leaves part of the ring to the next. -/
theorem runs_in_order {as : List Act} (hsingle : ∀ a ∈ as, Single i a)
    (horderly : Machine.Meets step Orderly initial as)
    (hrun : Machine.run step initial as = some s) : InOrder s := by
  have hown : Machine.Meets step (fun _ a => Single i a) initial as :=
    Machine.meets_of_forall_mem hsingle initial
  have hok := hown.and horderly
  have hsim : Simulates i s := Machine.run_invariant (I := Simulates i)
    (fun _ _ _ hsim hok hstep => hsim.step hok.1 hok.2 hstep) (Simulates.initial i) hok hrun
  exact hsim.inOrder

/-- A whole call of `ProcessWorkQueue`, for 128 items in the ring and one in the list. -/
def wholeCall : List Act := .processWorkQueue false :: List.replicate 1036 (.server true false)

/-- The ring is filled and one item put in the list; then all of them are run. -/
theorem queueMany_in_order : ∃ s, Machine.run step initial (queueMany ++ wholeCall) = some s ∧
    s.nodes = 1 ∧ s.log.length = 129 ∧ InOrder s := by
  have hrun : (Machine.run (Machine.restrict step fun s a =>
      Orderly s a ∧ ∀ e ∈ s.log.head?, e.item.client = 0) initial (queueMany ++ wholeCall)).map
        (fun s => (s.nodes, s.log.length)) = some (1, 129) := by decide +kernel
  obtain ⟨s, hs, hdone⟩ := Option.map_eq_some_iff.mp hrun
  obtain ⟨hs, hok⟩ := Machine.run_restrict_eq_some hs
  obtain ⟨hnodes, hlog⟩ := Prod.mk.inj hdone
  exact ⟨s, hs, hnodes, hlog,
    runs_in_order (i := 0) (by decide +kernel) (hok.imp fun _ _ => And.left) hs⟩

/-- 129 calls of `QueueWorkProc`, each until it returns, while a call of `ProcessWorkQueue`
that has counted the ring is stopped; then that call goes on. -/
def overtaking : List Act :=
  Act.processWorkQueue false :: List.replicate 2 (Act.server true false) ++
    queueMany ++ List.replicate 5 (Act.server true false)

/-- The server's thread has counted an empty ring when the producer fills it and goes on: the
last item is put in the list, and is run before all the others. -/
theorem spilled_not_in_order : ∃ as s, (∀ a ∈ as, Single 0 a) ∧
    Machine.run step initial as = some s ∧ ¬ InOrder s := by
  obtain ⟨s, hs, hlog⟩ : ∃ s, Machine.run step initial overtaking = some s ∧
      s.log.map (·.item.function) = [128] := by
    have hrun : (Machine.run step initial overtaking).map
        (fun s => s.log.map (·.item.function)) = some [128] := by decide +kernel
    exact Option.map_eq_some_iff.mp hrun
  refine ⟨overtaking, s, by decide +kernel, hs, fun hin => ?_⟩
  have hlen : s.log.length = 1 := by
    have := congrArg List.length hlog
    rwa [List.length_map] at this
  have horder := congrArg (List.map WorkItem.function) hin.order
  rw [List.map_map, hlen] at horder
  exact absurd (hlog.symm.trans horder) (by decide)

end WorkQueue
