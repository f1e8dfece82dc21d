/-
The invariant of the work queue over the steps of the threads that push.

* `PushOk.rely` — what one thread relies on survives what the others do;
* `Inv.of_pushStep` — a step of `ringPush` or `overflowPush` keeps the invariant;
* `Inv.queueWorkProc` — so does a new call.
-/
import KaliGui.WorkQueue.Invariant

namespace WorkQueue

open Links Tokens

variable {s s' : State} {ns ns' : List ℕ} {th : Thread} {pc : Push} {item : WorkItem} {pos : ℕ}

/-! ### Updates -/

@[simp] theorem setPush_push_self (s : State) (th : Thread) (pc : Push) :
    (s.setPush th pc).push th = pc := Function.update_self ..

theorem setPush_push_of_ne (s : State) {th th' : Thread} (h : th' ≠ th) (pc : Push) :
    (s.setPush th pc).push th' = s.push th' := Function.update_of_ne h ..

@[simp] theorem setCell_cellAt_self (s : State) (pos : ℕ) (c : Cell) :
    (s.setCell pos c).cellAt pos = c := Function.update_self ..

/-- Positions less than a ring apart have different cells. -/
theorem setCell_cellAt_of_ne (s : State) {pos pos' lo : ℕ} (c : Cell) (hne : pos' ≠ pos)
    (hpos : lo ≤ pos ∧ pos < lo + ringSize) (hpos' : lo ≤ pos' ∧ pos' < lo + ringSize) :
    (s.setCell pos c).cellAt pos' = s.cellAt pos' := by
  have hindex : pos' % ringSize ≠ pos % ringSize := by
    rw [ringSize] at *
    omega
  exact Function.update_of_ne hindex ..

/-- The position 128 later has the same cell. -/
theorem cellAt_add_ringSize (s : State) (pos : ℕ) : s.cellAt (pos + ringSize) = s.cellAt pos := by
  rw [State.cellAt, State.cellAt, Nat.add_mod_right]

/-- The cell of a position is the one written to, or is left. -/
theorem setCell_cellAt (s : State) (pos : ℕ) (c : Cell) (p : ℕ) :
    s.cellAt p = s.cellAt pos ∧ (s.setCell pos c).cellAt p = c ∨
      (s.setCell pos c).cellAt p = s.cellAt p := by
  by_cases hp : p % ringSize = pos % ringSize
  · refine .inl ⟨congrArg s.cell hp, ?_⟩
    exact (congrArg (s.setCell pos c).cell hp).trans (setCell_cellAt_self s pos c)
  · exact .inr (Function.update_of_ne hp ..)

theorem setItem_sequence (s : State) (pos : ℕ) (item : WorkItem) (p : ℕ) :
    ((s.setItem pos item).cellAt p).sequence = (s.cellAt p).sequence := by
  rcases setCell_cellAt s pos { s.cellAt pos with item := item } p with ⟨hold, hnew⟩ | hsame
  · rw [State.setItem, hnew, hold]
  · rw [State.setItem, hsame]

theorem setSequence_item (s : State) (pos sequence p : ℕ) :
    ((s.setSequence pos sequence).cellAt p).item = (s.cellAt p).item := by
  rcases setCell_cellAt s pos { s.cellAt pos with sequence := sequence } p with
    ⟨hold, hnew⟩ | hsame
  · rw [State.setSequence, hnew, hold]
  · rw [State.setSequence, hsame]

theorem Apart.symm {pc pc' : Push} (h : Apart pc pc') : Apart pc' pc :=
  ⟨fun pos h' hpc => h.claim pos hpc h', fun node h' hpc => h.node node hpc h'⟩

theorem claimed_iff (hpush : ∀ th', th' ≠ th → s'.push th' = s.push th') (pos : ℕ) :
    s'.Claimed pos ↔
      (s'.push th).claim = some pos ∨ ∃ th', th' ≠ th ∧ (s.push th').claim = some pos := by
  constructor
  · rintro ⟨th', h⟩
    by_cases hth : th' = th
    · exact .inl (hth ▸ h)
    · exact .inr ⟨th', hth, hpush th' hth ▸ h⟩
  · rintro (h | ⟨th', hth, h⟩)
    · exact ⟨th, h⟩
    · exact ⟨th', hpush th' hth ▸ h⟩

theorem claimed_self_iff (s : State) (th : Thread) (pos : ℕ) :
    s.Claimed pos ↔ (s.push th).claim = some pos ∨
      ∃ th', th' ≠ th ∧ (s.push th').claim = some pos :=
  claimed_iff (fun _ _ => rfl) pos

theorem claimed_congr (hpush : ∀ th', th' ≠ th → s'.push th' = s.push th')
    (hclaim : (s'.push th).claim = (s.push th).claim) (pos : ℕ) :
    s'.Claimed pos ↔ s.Claimed pos := by
  rw [claimed_iff hpush, claimed_self_iff s th, hclaim]

theorem popped_congr (hserver : s'.server = s.server)
    (hcell : ∀ pos, s.server.popping = some pos → (s'.cellAt pos).item = (s.cellAt pos).item) :
    s'.popped = s.popped := by
  rw [State.popped, State.popped, hserver]
  cases hpc : s.server with
  | function z remaining pos => exact congrArg some (hcell pos (by rw [hpc]; rfl))
  | client z remaining pos f => exact congrArg some (hcell pos (by rw [hpc]; rfl))
  | closure z remaining pos f c => exact congrArg some (hcell pos (by rw [hpc]; rfl))
  | release z remaining pos item => exact congrArg some (hcell pos (by rw [hpc]; rfl))
  | _ => rfl

/-! ### What threads rely on -/

/-- What a thread is promised about the steps of the others. -/
structure Rely (s : State) (ns : List ℕ) (s' : State) (ns' : List ℕ) (th : Thread) (pc : Push) :
    Prop where
  enqueuePos : s.enqueuePos ≤ s'.enqueuePos
  released : s.released ≤ s'.released
  claim : ∀ pos, pc.claim = some pos → ClaimOk s pos →
    s'.dequeuePos ≤ pos ∧ s'.cellAt pos = s.cellAt pos
  nodes : s.nodes ≤ s'.nodes
  node : ∀ n, pc.node = some n → n < s.nodes → n ∉ ns → s.next (some n) = none →
    n ∉ ns' ∧ s'.next (some n) = none ∧ s'.nodeItem n = s.nodeItem n
  lock : s.overflowLock = some th →
    s'.overflowLock = some th ∧ ns' = ns ∧ s'.overflowLast = s.overflowLast

/-- A step that writes no cell and no pointer. -/
theorem Rely.of_same (henq : s'.enqueuePos = s.enqueuePos) (hdeq : s'.dequeuePos = s.dequeuePos)
    (hpopping : s'.server.popping = s.server.popping) (hcell : s'.cell = s.cell)
    (hnext : s'.next = s.next) (hnodeItem : s'.nodeItem = s.nodeItem) (hnodes : s'.nodes = s.nodes)
    (hlock : s.overflowLock = some th →
      s'.overflowLock = some th ∧ s'.overflowLast = s.overflowLast) : Rely s ns s' ns th pc := by
  have hrel : s'.released = s.released := by rw [State.released, State.released, hpopping, hdeq]
  refine ⟨henq ▸ Nat.le_refl _, hrel ▸ Nat.le_refl _,
    fun pos _ hc => ⟨hdeq ▸ hc.le, congrFun hcell _⟩, hnodes ▸ Nat.le_refl _,
    fun n _ _ hn hnull => ⟨hn, hnext ▸ hnull, congrFun hnodeItem n⟩, fun hl => ?_⟩
  obtain ⟨hl', hlast⟩ := hlock hl
  exact ⟨hl', rfl, hlast⟩

theorem ClaimOk.rely (h : ClaimOk s pos) (hr : Rely s ns s' ns' th pc)
    (hpc : pc.claim = some pos) : ClaimOk s' pos ∧ s'.cellAt pos = s.cellAt pos := by
  obtain ⟨hle, hcell⟩ := hr.claim pos hpc h
  exact ⟨⟨hle, Nat.lt_of_lt_of_le h.lt hr.enqueuePos, by rw [hcell, h.sequence]⟩, hcell⟩

theorem NodeOk.rely {node : ℕ} (h : NodeOk s ns item node) (hr : Rely s ns s' ns' th pc)
    (hpc : pc.node = some node) : NodeOk s' ns' item node := by
  obtain ⟨hmem, hnext, hitem⟩ := hr.node node hpc h.lt h.notMem h.next
  exact ⟨Nat.lt_of_lt_of_le h.lt hr.nodes, hmem, hnext, by rw [hitem, h.item]⟩

/-- What a thread relies on survives the steps of the others. -/
theorem PushOk.rely (h : PushOk s ns th pc) (hr : Rely s ns s' ns' th pc) :
    PushOk s' ns' th pc := by
  cases pc with
  | idle => trivial
  | load item => trivial
  | alloc item => trivial
  | sequence item pos => exact Nat.le_trans h hr.enqueuePos
  | cas item pos =>
    obtain ⟨hle, hroom⟩ := h
    have henq := hr.enqueuePos
    have hrel := hr.released
    refine ⟨Nat.le_trans hle henq, fun heq => ?_⟩
    have := hroom (by omega)
    omega
  | function item pos => exact (ClaimOk.rely h hr rfl).1
  | client item pos =>
    obtain ⟨hclaim, hcell⟩ := h.1.rely hr rfl
    exact ⟨hclaim, by rw [hcell]; exact h.2⟩
  | closure item pos =>
    obtain ⟨hclaim, hcell⟩ := h.1.rely hr rfl
    exact ⟨hclaim, by rw [hcell]; exact h.2⟩
  | publish item pos =>
    obtain ⟨hclaim, hcell⟩ := h.1.rely hr rfl
    exact ⟨hclaim, by rw [hcell]; exact h.2⟩
  | lock item node => exact NodeOk.rely h hr rfl
  | link item node =>
    obtain ⟨hnode, hlock, htail⟩ := h
    obtain ⟨hlock', hns, hlast⟩ := hr.lock hlock
    exact ⟨hnode.rely hr rfl, hlock', by rw [TailOk, hlast, hns]; exact htail⟩
  | setLast node =>
    obtain ⟨hlock, hlast⟩ := h
    obtain ⟨hlock', hns, hlast'⟩ := hr.lock hlock
    exact ⟨hlock', by rw [hns, hlast']; exact hlast⟩
  | unlock =>
    obtain ⟨hlock, htail⟩ := h
    obtain ⟨hlock', hns, hlast⟩ := hr.lock hlock
    exact ⟨hlock', by rw [TailOk, hlast, hns]; exact htail⟩

/-! ### Steps that change nothing that is shared -/

/-- The server's thread pushes only while it puts an item back. -/
theorem Inv.own_of_busy (h : Inv s ns) (hbusy : s.push th ≠ .idle)
    (hpush : ∀ th', th' ≠ th → s'.push th' = s.push th') (hserver : s'.server = s.server)
    (hreq : ∀ z remaining, s'.server ≠ .requeue z remaining) : s'.push none = .idle := by
  rw [hserver] at hreq
  have hidle := h.own hreq
  by_cases hth : none = th
  · exact absurd (hth ▸ hidle) hbusy
  · rw [hpush none hth, hidle]

theorem RingInv.congr (h : RingInv s) (henq : s'.enqueuePos = s.enqueuePos)
    (hdeq : s'.dequeuePos = s.dequeuePos) (hserver : s'.server.popping = s.server.popping)
    (hcell : ∀ pos, (s'.cellAt pos).sequence = (s.cellAt pos).sequence)
    (hclaimed : ∀ pos, s'.Claimed pos ↔ s.Claimed pos) : RingInv s' := by
  have hrel : s'.released = s.released := by rw [State.released, State.released, hserver, hdeq]
  constructor
  · rw [henq, hdeq]
    exact h.le
  · rw [henq, hrel]
    exact h.room
  · rw [hserver, hdeq]
    exact h.popped
  · intro pos hle hlt hnot
    rw [hcell]
    rw [hrel] at hle
    rw [henq] at hlt
    exact h.taken pos hle hlt ((hclaimed pos).not.mp hnot)
  · intro pos hle hlt
    rw [hcell]
    rw [henq] at hle
    rw [hrel] at hlt
    exact h.free pos hle hlt

/-- What is to be shown of a step of a thread that pushes. -/
theorem Inv.pushed (h : Inv s ns) (hbusy : s.push th ≠ .idle)
    (hpush : ∀ th', th' ≠ th → s'.push th' = s.push th') (hserver : s'.server = s.server)
    (hlog : s'.log = s.log) (hgone : s'.gone = s.gone) (hqueued : s'.queued = s.queued)
    (hring : RingInv s') (hlist : ListInv s' ns') (hown : PushOk s' ns' th (s'.push th))
    (hrely : ∀ th', th' ≠ th → Rely s ns s' ns' th' (s.push th'))
    (hapart : ∀ th', th' ≠ th → Apart (s'.push th) (s.push th'))
    (hserverOk : ServerOk s' ns' s.server)
    (hitems : Accounted WorkItem.of (Holds s' ns') s.queued s.Finished) : Inv s' ns' where
  ring := hring
  list := hlist
  push th' := by
    by_cases hth : th' = th
    · rw [hth]
      exact hown
    · rw [hpush th' hth]
      exact (h.push th').rely (hrely th' hth)
  apart th₁ th₂ hne := by
    by_cases h₁ : th₁ = th
    · subst h₁
      rw [hpush th₂ hne.symm]
      exact hapart th₂ hne.symm
    · rw [hpush th₁ h₁]
      by_cases h₂ : th₂ = th
      · subst h₂
        exact (hapart th₁ h₁).symm
      · rw [hpush th₂ h₂]
        exact h.apart th₁ th₂ hne
  server := hserver ▸ hserverOk
  own := h.own_of_busy hbusy hpush hserver
  items := by
    rw [hqueued]
    refine hitems.congr (fun _ _ => Iff.rfl) fun t => ?_
    rw [State.Finished, hlog]
    rfl
  log := by
    refine ⟨?_, ?_, ?_⟩
    · rw [hlog, hqueued]
      exact h.log.own
    · rw [hlog]
      exact h.log.final
    · rw [hlog, hgone]
      exact h.log.zombie

/-- Only the claims of the others matter to the server's thread. -/
theorem ServerOk.congr {pc : Server} (h : ServerOk s ns pc) (henq : s.enqueuePos ≤ s'.enqueuePos)
    (hdeq : s'.dequeuePos = s.dequeuePos) (hlock : s'.overflowLock = s.overflowLock)
    (hlast : s'.overflowLast = s.overflowLast)
    (hcell : ∀ pos, pc.popping = some pos → (s'.cellAt pos).item = (s.cellAt pos).item)
    (hclaimed : ∀ pos, pos < s.enqueuePos → s'.Claimed pos → s.Claimed pos) :
    ServerOk s' ns pc := by
  cases pc with
  | countHead z tail => exact h.trans hdeq.symm
  | sequence z remaining pos => exact h.trans hdeq.symm
  | cas z remaining pos =>
    obtain ⟨heq, hlt, hnot⟩ := h
    exact ⟨heq.trans hdeq.symm, Nat.lt_of_lt_of_le hlt henq, fun hc => hnot (hclaimed pos hlt hc)⟩
  | client z remaining pos f => exact h.trans (by rw [hcell pos rfl])
  | closure z remaining pos f c => rw [ServerOk, hcell pos rfl]; exact h
  | release z remaining pos item => exact h.trans (by rw [hcell pos rfl])
  | next z p => rw [ServerOk, hlock, TailOk, hlast]; exact h
  | unlockNode p q => rw [ServerOk, hlock, TailOk, hlast]; exact h
  | zombieNode p q => rw [ServerOk, hlock, TailOk, hlast]; exact h
  | remove z p q => rw [ServerOk, hlock, TailOk, hlast]; exact h
  | setLast p => rw [ServerOk, hlock]; exact h
  | unlock => rw [ServerOk, hlock, TailOk, hlast]; exact h
  | _ => exact h

theorem ListInv.congr (h : ListInv s ns) (hnext : s'.next = s.next) (hnodes : s'.nodes = s.nodes)
    (hlock : s'.overflowLock = s.overflowLock) (hlast : s'.overflowLast = s.overflowLast) :
    ListInv s' ns := by
  refine ⟨hnext ▸ h.chain, h.nodup, hnodes ▸ h.lt, ?_⟩
  rw [hlock, TailOk, hlast]
  exact h.tail

/-- A thread goes on, with the same item, claim and node. -/
theorem Inv.setPush (h : Inv s ns) {pc' : Push} (hbusy : s.push th ≠ .idle)
    (hitem : pc'.item? = (s.push th).item?) (hclaim : pc'.claim = (s.push th).claim)
    (hnode : pc'.node = (s.push th).node) (hok : PushOk (s.setPush th pc') ns th pc') :
    Inv (s.setPush th pc') ns := by
  have hpush : ∀ th', th' ≠ th → (s.setPush th pc').push th' = s.push th' :=
    fun th' hth => setPush_push_of_ne s hth pc'
  have hclaimed : ∀ pos, (s.setPush th pc').Claimed pos ↔ s.Claimed pos :=
    claimed_congr hpush (by rw [setPush_push_self, hclaim])
  refine h.pushed hbusy hpush rfl rfl rfl rfl (h.ring.congr rfl rfl rfl (fun _ => rfl) hclaimed)
    (h.list.congr rfl rfl rfl rfl) (by rwa [setPush_push_self]) (fun th' hth => ?_)
    (fun th' hth => ?_) (h.server.congr (Nat.le_refl _) rfl rfl rfl (fun _ _ => rfl)
      fun pos _ => (hclaimed pos).mp) ?_
  · exact Rely.of_same rfl rfl rfl rfl rfl rfl rfl fun hlock => ⟨hlock, rfl⟩
  · have h' := h.apart th th' hth.symm
    rw [setPush_push_self]
    exact ⟨fun pos hp => h'.claim pos (hclaim ▸ hp), fun node hn => h'.node node (hnode ▸ hn)⟩
  · refine h.items.congr (fun a x => ?_) fun _ => Iff.rfl
    cases a with
    | hand th' =>
      by_cases hth : th' = th
      · rw [hth, Holds, Holds, setPush_push_self, hitem]
      · rw [Holds, Holds, hpush th' hth]
    | ring pos => exact and_congr_left fun _ => and_congr_right fun _ => and_congr_right fun _ =>
        (hclaimed pos).not
    | node n => exact Iff.rfl
    | server => exact Iff.rfl

/-! ### The ring -/

theorem RingInv.released_le (h : RingInv s) : s.released ≤ s.dequeuePos := by
  rw [State.released]
  cases hpop : s.server.popping with
  | none => exact Nat.le_refl _
  | some pos =>
    have := h.popped pos hpop
    rw [Option.getD_some]
    omega

/-- The positions of the ring are less than a ring apart. -/
theorem RingInv.window (h : RingInv s) (hle : s.dequeuePos ≤ pos) (hlt : pos < s.enqueuePos) :
    s.released ≤ pos ∧ pos < s.released + ringSize :=
  ⟨Nat.le_trans h.released_le hle, Nat.lt_of_lt_of_le hlt h.room⟩

theorem Inv.claimOk (h : Inv s ns) (hclaim : (s.push th).claim = some pos) : ClaimOk s pos := by
  have hok := h.push th
  cases hpc : s.push th <;> rw [hpc] at hclaim hok <;> simp only [Push.claim] at hclaim <;>
    first | (obtain rfl := Option.some_inj.mp hclaim) | simp at hclaim
  · exact hok
  · exact hok.1
  · exact hok.1
  · exact hok.1

theorem Inv.claimed (h : Inv s ns) (hclaimed : s.Claimed pos) : ClaimOk s pos := by
  obtain ⟨th, hth⟩ := hclaimed
  exact h.claimOk hth

/-- What a sequence number in the ring says. -/
theorem Inv.sequence_eq (h : Inv s ns) (hle : s.released ≤ pos) (hlt : pos < s.enqueuePos) :
    (s.cellAt pos).sequence = pos ∧ s.Claimed pos ∨
      (s.cellAt pos).sequence = pos + 1 ∧ ¬ s.Claimed pos := by
  by_cases hclaimed : s.Claimed pos
  · exact .inl ⟨(h.claimed hclaimed).sequence, hclaimed⟩
  · exact .inr ⟨h.ring.taken pos hle hlt hclaimed, hclaimed⟩

theorem sameWord_of_near {a b : ℕ} (h : SameWord a b) (hle : b ≤ a) (hlt : a < b + wordSize) :
    a = b := by
  rw [SameWord] at h
  rw [wordSize] at *
  omega

/-- A cell whose sequence is the last position is free: the ring is not full. -/
theorem Inv.room_of_sequence (h : Inv s ns)
    (hseq : SameWord (s.cellAt s.enqueuePos).sequence s.enqueuePos) :
    s.enqueuePos < s.released + ringSize := by
  by_contra hfull
  have hroom := h.ring.room
  have heq : s.enqueuePos = s.released + ringSize := by omega
  have hpos : 0 < ringSize := by decide
  rw [heq, cellAt_add_ringSize] at hseq
  rcases h.sequence_eq (Nat.le_refl _) (by omega) with ⟨hcell, -⟩ | ⟨hcell, -⟩ <;>
    rw [hcell, SameWord, wordSize, ringSize] at hseq <;> omega

/-- A position is claimed. -/
theorem Inv.claim (h : Inv s ns) (hpc : s.push th = .cas item pos)
    (hword : SameWord s.enqueuePos pos) (hwrap : s.enqueuePos < pos + wordSize) :
    Inv ({ s with enqueuePos := s.enqueuePos + 1 }.setPush th (.function item pos)) ns := by
  have hok := h.push th
  rw [hpc] at hok
  obtain ⟨hle, hroom⟩ := hok
  obtain rfl : s.enqueuePos = pos := sameWord_of_near hword hle hwrap
  have hroom := hroom rfl
  have hpush : ∀ th', th' ≠ th →
      ({ s with enqueuePos := s.enqueuePos + 1 }.setPush th
        (.function item s.enqueuePos)).push th' = s.push th' :=
    fun th' hth => setPush_push_of_ne _ hth _
  have hclaimed : ∀ p, ({ s with enqueuePos := s.enqueuePos + 1 }.setPush th
      (.function item s.enqueuePos)).Claimed p ↔ p = s.enqueuePos ∨ s.Claimed p := by
    intro p
    rw [claimed_iff hpush, claimed_self_iff s th, setPush_push_self, hpc]
    simp only [Push.claim, Option.some_inj, reduceCtorEq, false_or]
    rw [eq_comm]
  have hnot : ¬ s.Claimed s.enqueuePos := fun hc => absurd (h.claimed hc).lt (Nat.lt_irrefl _)
  refine h.pushed (by rw [hpc]; simp) hpush rfl rfl rfl rfl ?_ (h.list.congr rfl rfl rfl rfl) ?_
    (fun th' hth => ?_) (fun th' hth => ?_) ?_ ?_
  · -- the position goes from the free cells to the claimed ones
    have hring := h.ring
    refine ⟨Nat.le_succ_of_le hring.le, hroom, hring.popped, fun p hp hlt hc => ?_,
      fun p hp hlt => ?_⟩
    · rw [hclaimed, not_or] at hc
      have hlt : p < s.enqueuePos + 1 := hlt
      exact hring.taken p hp (by omega) hc.2
    · have hp : s.enqueuePos + 1 ≤ p := hp
      exact hring.free p (by omega) hlt
  · rw [setPush_push_self]
    exact ⟨h.ring.le, Nat.lt_succ_self _, h.ring.free _ (Nat.le_refl _) hroom⟩
  · exact ⟨Nat.le_succ _, Nat.le_refl _, fun _ _ hc => ⟨hc.le, rfl⟩, Nat.le_refl _,
      fun _ _ _ hn hnext => ⟨hn, hnext, rfl⟩, fun hlock => ⟨hlock, rfl, rfl⟩⟩
  · rw [setPush_push_self]
    refine ⟨fun p hp hp' => ?_, fun node hn => by simp [Push.node] at hn⟩
    obtain rfl : s.enqueuePos = p := Option.some_inj.mp hp
    exact hnot ⟨th', hp'⟩
  · refine h.server.congr (Nat.le_succ _) rfl rfl rfl (fun _ _ => rfl) fun p hlt hc => ?_
    rcases (hclaimed p).mp hc with rfl | hc
    · exact absurd hlt (Nat.lt_irrefl _)
    · exact hc
  · refine h.items.congr (fun a x => ?_) fun _ => Iff.rfl
    cases a with
    | hand th' =>
      by_cases hth : th' = th
      · rw [hth, Holds, Holds, setPush_push_self, hpc]
        rfl
      · rw [Holds, Holds, hpush th' hth]
    | ring p =>
      -- what is claimed is not published, so the ring holds no more than before
      refine and_congr_left fun _ => and_congr_right fun _ => ?_
      show (p < s.enqueuePos + 1 ∧ _) ↔ _
      rw [hclaimed, not_or]
      constructor
      · rintro ⟨hlt, hne, hc⟩
        exact ⟨by omega, hc⟩
      · rintro ⟨hlt, hc⟩
        exact ⟨by omega, by omega, hc⟩
    | node n => exact Iff.rfl
    | server => exact Iff.rfl

/-! ### The cell of a claimed position -/

/-- No cell in use is touched but the claimed one. -/
theorem Inv.cellAt_of_claim (h : Inv s ns) (hclaim : (s.push th).claim = some pos) (c : Cell)
    {p : ℕ} (hp : s.released ≤ p ∧ p < s.released + ringSize) (hne : p ≠ pos) :
    (s.setCell pos c).cellAt p = s.cellAt p := by
  have hpos := h.claimOk hclaim
  exact setCell_cellAt_of_ne s c hne (h.ring.window hpos.le hpos.lt) hp

theorem Inv.window_of_popping (h : Inv s ns) {p : ℕ} (hpop : s.server.popping = some p) :
    p + 1 = s.dequeuePos ∧ s.released ≤ p ∧ p < s.released + ringSize := by
  have hp := h.ring.popped p hpop
  have hrel : s.released = p := by rw [State.released, hpop, Option.getD_some]
  have hpos : 0 < ringSize := by decide
  exact ⟨hp, by omega, by omega⟩

/-- The others do not use the cell. -/
theorem Inv.relyCell (h : Inv s ns) (hclaim : (s.push th).claim = some pos) (c : Cell)
    (pc' : Push) {th' : Thread} (hth : th' ≠ th) :
    Rely s ns ((s.setCell pos c).setPush th pc') ns th' (s.push th') := by
  refine ⟨Nat.le_refl _, Nat.le_refl _, fun p hp hc => ⟨hc.le, ?_⟩, Nat.le_refl _,
    fun _ _ _ hn hnext => ⟨hn, hnext, rfl⟩, fun hlock => ⟨hlock, rfl, rfl⟩⟩
  refine h.cellAt_of_claim hclaim c (h.ring.window hc.le hc.lt) ?_
  rintro rfl
  exact (h.apart th th' hth.symm).claim p hclaim hp

theorem ClaimOk.setItem {x : WorkItem} {p : ℕ} {pc' : Push} (h : ClaimOk s p) :
    ClaimOk ((s.setItem p x).setPush th pc') p :=
  ⟨h.le, h.lt, (congrArg Cell.sequence (setCell_cellAt_self s p _)).trans h.sequence⟩

/-- A thread writes a member of the item in the cell it has claimed. -/
theorem Inv.write (h : Inv s ns) {pc' : Push} {x : WorkItem}
    (hclaim : (s.push th).claim = some pos) (hitem : pc'.item? = (s.push th).item?)
    (hclaim' : pc'.claim = some pos) (hnode : pc'.node = none)
    (hok : PushOk ((s.setItem pos x).setPush th pc') ns th pc') :
    Inv ((s.setItem pos x).setPush th pc') ns := by
  have hbusy : s.push th ≠ .idle := by
    intro hidle
    rw [hidle] at hclaim
    exact nomatch hclaim
  have hpush : ∀ th', th' ≠ th → ((s.setItem pos x).setPush th pc').push th' = s.push th' :=
    fun th' hth => setPush_push_of_ne _ hth pc'
  have hclaimed : ∀ p, ((s.setItem pos x).setPush th pc').Claimed p ↔ s.Claimed p :=
    claimed_congr hpush (by rw [setPush_push_self, hclaim', hclaim])
  have hsequence : ∀ p, ((s.setItem pos x).cellAt p).sequence = (s.cellAt p).sequence :=
    setItem_sequence s pos x
  have hcell : ∀ p, p ≠ pos → s.released ≤ p ∧ p < s.released + ringSize →
      (s.setItem pos x).cellAt p = s.cellAt p :=
    fun p hne hp => h.cellAt_of_claim hclaim _ hp hne
  have hpopped : ∀ p, s.server.popping = some p → (s.setItem pos x).cellAt p = s.cellAt p := by
    intro p hp
    obtain ⟨hdeq, hwin⟩ := h.window_of_popping hp
    have hpos := (h.claimOk hclaim).le
    exact hcell p (by omega) hwin
  refine h.pushed hbusy hpush rfl rfl rfl rfl (h.ring.congr rfl rfl rfl hsequence hclaimed)
    (h.list.congr rfl rfl rfl rfl) (by rwa [setPush_push_self])
    (fun th' hth => h.relyCell hclaim _ pc' hth) (fun th' hth => ?_)
    (h.server.congr (Nat.le_refl _) rfl rfl rfl (fun p hp => congrArg Cell.item (hpopped p hp))
      fun p _ => (hclaimed p).mp) ?_
  · have h' := h.apart th th' hth.symm
    rw [setPush_push_self]
    refine ⟨fun p hp => h'.claim p (by rw [hclaim, ← hclaim', hp]), fun node hn => ?_⟩
    rw [hnode] at hn
    simp at hn
  · refine h.items.congr (fun a y => ?_) fun _ => Iff.rfl
    cases a with
    | hand th' =>
      by_cases hth : th' = th
      · rw [hth, Holds, Holds, setPush_push_self, hitem]
      · rw [Holds, Holds, hpush th' hth]
    | ring p =>
      have hpub : ((s.setItem pos x).setPush th pc').Published p ↔ s.Published p :=
        and_congr_right fun _ => and_congr_right fun _ => (hclaimed p).not
      rw [Holds, Holds, hpub]
      refine and_congr_right fun hp => ?_
      -- the cell that is written is not published
      have hne : p ≠ pos := by
        rintro rfl
        exact hp.2.2 ⟨th, hclaim⟩
      show ((s.setItem pos x).cellAt p).item = y ↔ _
      rw [hcell p hne (h.ring.window hp.1 hp.2.1)]
    | node n => exact Iff.rfl
    | server =>
      have hsame : ((s.setItem pos x).setPush th pc').popped = s.popped :=
        popped_congr rfl fun p hp => congrArg Cell.item (hpopped p hp)
      rw [Holds, Holds, hsame]

/-- The cell is published: the item is in the ring. -/
theorem Inv.publish (h : Inv s ns) (hpc : s.push th = .publish item pos) :
    Inv ((s.setSequence pos (pos + 1)).setPush th .idle) ns := by
  have hok := h.push th
  rw [hpc] at hok
  obtain ⟨hclaimOk, hcellItem⟩ := hok
  have hclaim : (s.push th).claim = some pos := by rw [hpc, Push.claim]
  have hpush : ∀ th', th' ≠ th →
      ((s.setSequence pos (pos + 1)).setPush th .idle).push th' = s.push th' :=
    fun th' hth => setPush_push_of_ne _ hth _
  -- the position is no longer claimed, and all others are as they were
  have hclaimed : ∀ p, ((s.setSequence pos (pos + 1)).setPush th .idle).Claimed p ↔
      p ≠ pos ∧ s.Claimed p := by
    intro p
    rw [claimed_iff hpush, setPush_push_self]
    constructor
    · rintro (hc | ⟨th', hth, hc⟩)
      · simp [Push.claim] at hc
      · refine ⟨?_, th', hc⟩
        rintro rfl
        exact (h.apart th th' hth.symm).claim p hclaim hc
    · rintro ⟨hne, th', hc⟩
      refine .inr ⟨th', ?_, hc⟩
      rintro rfl
      exact hne (Option.some_inj.mp (hc.symm.trans hclaim))
  have hitem : ∀ p, ((s.setSequence pos (pos + 1)).cellAt p).item = (s.cellAt p).item :=
    setSequence_item s pos _
  -- in the window of the ring no other position has the same cell
  have hcell : ∀ p, p ≠ pos → s.released ≤ p ∧ p < s.released + ringSize →
      (s.setSequence pos (pos + 1)).cellAt p = s.cellAt p :=
    fun p hne hp => h.cellAt_of_claim hclaim _ hp hne
  refine h.pushed (by rw [hpc]; simp) hpush rfl rfl rfl rfl ?_ (h.list.congr rfl rfl rfl rfl)
    (by rw [setPush_push_self]; trivial) (fun th' hth => h.relyCell hclaim _ _ hth)
    (fun th' hth => ?_)
    (h.server.congr (Nat.le_refl _) rfl rfl rfl (fun p _ => hitem p)
      fun p _ hc => ((hclaimed p).mp hc).2) ?_
  · have hring := h.ring
    refine ⟨hring.le, hring.room, hring.popped, fun p hp hlt hc => ?_, fun p hp hlt => ?_⟩
    · by_cases hne : p = pos
      · -- the position's own cell, now written
        rw [hne]
        exact congrArg Cell.sequence (setCell_cellAt_self s pos _)
      · have hwin : p < s.released + ringSize := Nat.lt_of_lt_of_le hlt hring.room
        refine (congrArg Cell.sequence (hcell p hne ⟨hp, hwin⟩)).trans ?_
        exact hring.taken p hp hlt fun hcl => hc ((hclaimed p).mpr ⟨hne, hcl⟩)
    · have hp : s.enqueuePos ≤ p := hp
      have hlt' := hclaimOk.lt
      have hrel := (h.ring.window hclaimOk.le hlt').1
      exact (congrArg Cell.sequence (hcell p (by omega) ⟨by omega, hlt⟩)).trans
        (hring.free p hp hlt)
  · rw [setPush_push_self]
    exact ⟨fun p hp => by simp [Push.claim] at hp, fun node hn => by simp [Push.node] at hn⟩
  · -- the item goes from the thread's hand to the ring
    refine h.items.move of_injective Holds.unique (a := .hand th) (b := .ring pos) (x := item)
      ?_ (fun y hy => hy.1.2.2 ⟨th, hclaim⟩) (fun y hy => ?_) (fun y => ?_) fun c hca hcb y => ?_
    · rw [Holds, hpc, Push.item?]
    · rw [Holds, setPush_push_self, Push.item?] at hy
      simp at hy
    · have hpub : ((s.setSequence pos (pos + 1)).setPush th .idle).Published pos :=
        ⟨hclaimOk.le, hclaimOk.lt, fun hc => ((hclaimed pos).mp hc).1 rfl⟩
      refine ⟨fun hy => hy.2.symm.trans ((hitem pos).trans hcellItem), fun hy => ⟨hpub, ?_⟩⟩
      exact (hitem pos).trans (hcellItem.trans hy.symm)
    · cases c with
      | hand th' =>
        have hth : th' ≠ th := by
          rintro rfl
          exact hca rfl
        rw [Holds, Holds, hpush th' hth]
      | ring p =>
        have hne : p ≠ pos := by
          rintro rfl
          exact hcb rfl
        have hpub : ((s.setSequence pos (pos + 1)).setPush th .idle).Published p ↔
            s.Published p := by
          refine and_congr_right fun _ => and_congr_right fun _ => not_congr ?_
          rw [hclaimed]
          exact and_iff_right hne
        rw [Holds, Holds, hpub]
        exact and_congr_right fun _ => by rw [← hitem p]; rfl
      | node n => exact Iff.rfl
      | server =>
        have hsame : ((s.setSequence pos (pos + 1)).setPush th .idle).popped = s.popped :=
          popped_congr rfl fun p _ => hitem p
        rw [Holds, Holds, hsame]

/-! ### The list -/

theorem Inv.nodeOk (h : Inv s ns) {node : ℕ} (hnode : (s.push th).node = some node) :
    ∃ item, NodeOk s ns item node := by
  have hok := h.push th
  cases hpc : s.push th with
  | lock item n =>
    rw [hpc] at hnode hok
    obtain rfl : n = node := Option.some_inj.mp hnode
    exact ⟨item, hok⟩
  | link item n =>
    rw [hpc] at hnode hok
    obtain rfl : n = node := Option.some_inj.mp hnode
    exact ⟨item, hok.1⟩
  | _ =>
    rw [hpc] at hnode
    simp [Push.node] at hnode

/-- The server's thread pushes only while it puts an item back. -/
theorem Inv.requeue_of_busy (h : Inv s ns) (hbusy : s.push none ≠ .idle) :
    ∃ z remaining, s.server = .requeue z remaining := by
  by_contra hnot
  exact hbusy (h.own fun z remaining hreq => hnot ⟨z, remaining, hreq⟩)

theorem AtNode.mem {p : Option ℕ} {q : ℕ} (h : AtNode ns p q) : q ∈ ns := by
  obtain ⟨post, pre, rfl, -⟩ := h
  exact List.mem_append_right pre List.mem_cons_self

theorem AtNode.mono {p : Option ℕ} {q : ℕ} (h : AtNode ns p q) (hns : ns <+: ns') :
    AtNode ns' p q := by
  obtain ⟨post, pre, rfl, hp⟩ := h
  obtain ⟨rest, rfl⟩ := hns
  exact ⟨post ++ rest, pre, by rw [List.append_assoc, List.cons_append], hp⟩

/-- The node that is finished is still in the list. -/
theorem Inv.dead_mem (h : Inv s ns) {q : ℕ} (hdead : s.server.dead = some q) : q ∈ ns := by
  have hok := h.server
  cases hpc : s.server with
  | relock p q' result =>
    rw [hpc] at hdead hok
    cases result with
    | false => simp [Server.dead] at hdead
    | true =>
      obtain rfl : q' = q := Option.some_inj.mp hdead
      exact AtNode.mem hok
  | remove z p q' =>
    rw [hpc] at hdead hok
    obtain rfl : q' = q := Option.some_inj.mp hdead
    exact hok.2.2.mem
  | _ =>
    rw [hpc] at hdead
    simp [Server.dead] at hdead

/-- What a thread does with the list, the server's thread not having the lock. -/
theorem ServerOk.list {pc : Server} (h : ServerOk s ns pc)
    (hlock : s.overflowLock = some none → ∃ z remaining, pc = .requeue z remaining)
    (henq : s'.enqueuePos = s.enqueuePos) (hdeq : s'.dequeuePos = s.dequeuePos)
    (hcell : s'.cell = s.cell) (hclaimed : ∀ pos, s'.Claimed pos ↔ s.Claimed pos)
    (hns : ns <+: ns') : ServerOk s' ns' pc := by
  have hcellAt : ∀ pos, s'.cellAt pos = s.cellAt pos := fun pos => congrFun hcell _
  cases pc with
  | countHead z tail => exact h.trans hdeq.symm
  | sequence z remaining pos => exact h.trans hdeq.symm
  | cas z remaining pos => rw [ServerOk, henq, hdeq, hclaimed]; exact h
  | client z remaining pos f => rw [ServerOk, hcellAt]; exact h
  | closure z remaining pos f c => rw [ServerOk, hcellAt]; exact h
  | release z remaining pos item => rw [ServerOk, hcellAt]; exact h
  | callNode p q => exact AtNode.mono h hns
  | relock p q result => exact AtNode.mono h hns
  | next z p => obtain ⟨z', remaining, hpc⟩ := hlock h.1; simp at hpc
  | unlockNode p q => obtain ⟨z', remaining, hpc⟩ := hlock h.1; simp at hpc
  | zombieNode p q => obtain ⟨z', remaining, hpc⟩ := hlock h.1; simp at hpc
  | remove z p q => obtain ⟨z', remaining, hpc⟩ := hlock h.1; simp at hpc
  | setLast p => obtain ⟨z', remaining, hpc⟩ := hlock h.1; simp at hpc
  | unlock => obtain ⟨z', remaining, hpc⟩ := hlock h.1; simp at hpc
  | _ => trivial

/-- What is to be shown of a step that leaves the ring alone. -/
theorem Inv.pushedList (h : Inv s ns) (hbusy : s.push th ≠ .idle)
    (hpush : ∀ th', th' ≠ th → s'.push th' = s.push th')
    (hclaim : (s.push th).claim = none) (hclaim' : (s'.push th).claim = none)
    (hserver : s'.server = s.server) (hlog : s'.log = s.log) (hgone : s'.gone = s.gone)
    (hqueued : s'.queued = s.queued) (henq : s'.enqueuePos = s.enqueuePos)
    (hdeq : s'.dequeuePos = s.dequeuePos) (hcell : s'.cell = s.cell)
    (hlock : s.overflowLock = none ∨ s.overflowLock = some th) (hnodes : s.nodes ≤ s'.nodes)
    (hns : ns <+: ns') (hlist : ListInv s' ns') (hown : PushOk s' ns' th (s'.push th))
    (hnode : ∀ th', th' ≠ th → ∀ n, (s.push th').node = some n → (s'.push th).node ≠ some n ∧
      n ∉ ns' ∧ s'.next (some n) = none ∧ s'.nodeItem n = s.nodeItem n)
    (hitems : Accounted WorkItem.of (Holds s' ns') s.queued s.Finished) : Inv s' ns' := by
  have hclaimed : ∀ pos, s'.Claimed pos ↔ s.Claimed pos :=
    claimed_congr hpush (by rw [hclaim, hclaim'])
  have hcellAt : ∀ pos, s'.cellAt pos = s.cellAt pos := fun pos => congrFun hcell _
  refine h.pushed hbusy hpush hserver hlog hgone hqueued
    (h.ring.congr henq hdeq (by rw [hserver]) (fun pos => by rw [hcellAt]) hclaimed) hlist hown
    (fun th' hth => ?_) (fun th' hth => ?_)
    (h.server.list (fun hlock' => ?_) henq hdeq hcell hclaimed hns) hitems
  · have hrel : s'.released = s.released := by
      rw [State.released, State.released, hserver, hdeq]
    refine ⟨henq ▸ Nat.le_refl _, hrel ▸ Nat.le_refl _,
      fun p _ hc => ⟨hdeq ▸ hc.le, hcellAt p⟩, hnodes, fun n hn _ _ _ => (hnode th' hth n hn).2,
      fun hlock' => ?_⟩
    -- the others do not have the lock
    rcases hlock with hlock | hlock <;> rw [hlock] at hlock'
    · simp at hlock'
    · exact absurd (Option.some_inj.mp hlock').symm hth
  · exact ⟨fun p hp => by rw [hclaim'] at hp; simp at hp,
      fun n hn hn' => (hnode th' hth n hn').1 hn⟩
  · rcases hlock with hlock | hlock <;> rw [hlock] at hlock'
    · simp at hlock'
    · obtain rfl := Option.some_inj.mp hlock'
      exact h.requeue_of_busy hbusy

/-- A new node. -/
theorem Inv.alloc (h : Inv s ns) (hpc : s.push th = .alloc item)
    (hs : s' = { s with
      nodes := s.nodes + 1
      next := Function.update s.next (some s.nodes) none
      nodeItem := Function.update s.nodeItem s.nodes item }.setPush th (.lock item s.nodes)) :
    Inv s' ns := by
  have hpush : ∀ th', th' ≠ th → s'.push th' = s.push th' :=
    fun th' hth => hs ▸ setPush_push_of_ne _ hth _
  have hself : s'.push th = .lock item s.nodes := hs ▸ setPush_push_self ..
  have hclaimed : ∀ p, s'.Claimed p ↔ s.Claimed p :=
    claimed_congr hpush (by rw [hself, hpc]; rfl)
  -- the nodes there are stay as they were
  have hnew : ∀ n, n < s.nodes → s'.next (some n) = s.next (some n) ∧
      s'.nodeItem n = s.nodeItem n := by
    intro n hn
    subst hs
    have hne : n ≠ s.nodes := by omega
    exact ⟨Function.update_of_ne (fun heq => hne (Option.some_inj.mp heq)) ..,
      Function.update_of_ne hne ..⟩
  subst hs
  refine h.pushed (by rw [hpc]; simp) hpush rfl rfl rfl rfl
    (h.ring.congr rfl rfl rfl (fun _ => rfl) hclaimed) ?_ ?_ (fun th' hth => ?_)
    (fun th' hth => ?_)
    (h.server.congr (Nat.le_refl _) rfl rfl rfl (fun _ _ => rfl) fun p _ => (hclaimed p).mp) ?_
  · refine ⟨h.list.chain.update_of_notMem (by simp) fun n hn heq => ?_, h.list.nodup,
      fun n hn => Nat.lt_succ_of_lt (h.list.lt n hn), h.list.tail⟩
    exact Nat.ne_of_gt (h.list.lt n hn) (Option.some_inj.mp heq)
  · rw [hself]
    exact ⟨Nat.lt_succ_self _, fun hn => Nat.lt_irrefl _ (h.list.lt _ hn),
      Function.update_self .., Function.update_self ..⟩
  · refine ⟨Nat.le_refl _, Nat.le_refl _, fun _ _ hc => ⟨hc.le, rfl⟩, Nat.le_succ _,
      fun n _ hlt hn hnext => ⟨hn, ?_, (hnew n hlt).2⟩, fun hlock => ⟨hlock, rfl, rfl⟩⟩
    rw [(hnew n hlt).1, hnext]
  · -- no other thread holds a node that did not exist
    rw [hself]
    refine ⟨fun p hp => by simp [Push.claim] at hp, fun n hn hn' => ?_⟩
    obtain rfl : s.nodes = n := Option.some_inj.mp hn
    obtain ⟨x, hx⟩ := h.nodeOk hn'
    exact Nat.lt_irrefl _ hx.lt
  · refine h.items.congr (fun a x => ?_) fun _ => Iff.rfl
    cases a with
    | hand th' =>
      by_cases hth : th' = th
      · rw [hth, Holds, Holds, hself, hpc]
        rfl
      · rw [Holds, Holds, hpush th' hth]
    | ring p => exact and_congr_left fun _ => and_congr_right fun _ => and_congr_right fun _ =>
        (hclaimed p).not
    | node n =>
      refine and_congr_right fun hn => and_congr_right fun _ => ?_
      rw [(hnew n (h.list.lt n hn)).2]
    | server => exact Iff.rfl

/-- A step with the list that leaves each item where it is. -/
theorem Inv.items_congr (h : Inv s ns) (hpush : ∀ th', th' ≠ th → s'.push th' = s.push th')
    (hitem : (s'.push th).item? = (s.push th).item?)
    (hclaim : (s'.push th).claim = (s.push th).claim) (hserver : s'.server = s.server)
    (henq : s'.enqueuePos = s.enqueuePos) (hdeq : s'.dequeuePos = s.dequeuePos)
    (hcell : s'.cell = s.cell) (hnodeItem : s'.nodeItem = s.nodeItem) :
    Accounted WorkItem.of (Holds s' ns) s.queued s.Finished := by
  have hcellAt : ∀ pos, s'.cellAt pos = s.cellAt pos := fun pos => congrFun hcell _
  refine h.items.congr (fun a x => ?_) fun _ => Iff.rfl
  cases a with
  | hand th' =>
    by_cases hth : th' = th
    · rw [hth, Holds, Holds, hitem]
    · rw [Holds, Holds, hpush th' hth]
  | ring p => rw [Holds, Holds, State.Published, State.Published, henq, hdeq,
      claimed_congr hpush hclaim, hcellAt]
  | node n => rw [Holds, Holds, hserver, hnodeItem]
  | server => rw [Holds, Holds, popped_congr hserver fun p _ => by rw [hcellAt]]

theorem Inv.lock (h : Inv s ns) {node : ℕ} (hpc : s.push th = .lock item node)
    (hfree : s.overflowLock = none) :
    Inv ({ s with overflowLock := some th }.setPush th (.link item node)) ns := by
  have hok := h.push th
  rw [hpc] at hok
  have hpush : ∀ th', th' ≠ th →
      ({ s with overflowLock := some th }.setPush th (.link item node)).push th' = s.push th' :=
    fun th' hth => setPush_push_of_ne _ hth _
  refine h.pushedList (by rw [hpc]; simp) hpush (by rw [hpc]; rfl) (by rw [setPush_push_self]; rfl)
    rfl rfl rfl rfl rfl rfl rfl (.inl hfree) (Nat.le_refl _) (List.prefix_refl _)
    ⟨h.list.chain, h.list.nodup, h.list.lt, fun hlock => nomatch hlock⟩ ?_ (fun th' hth n hn => ?_)
    (h.items_congr hpush (by rw [setPush_push_self, hpc]; rfl)
      (by rw [setPush_push_self, hpc]; rfl) rfl rfl rfl rfl rfl)
  · rw [setPush_push_self]
    exact ⟨⟨hok.lt, hok.notMem, hok.next, hok.item⟩, rfl, h.list.tail hfree⟩
  · obtain ⟨x, hx⟩ := h.nodeOk hn
    have hnode : (s.push th).node = some node := by rw [hpc, Push.node]
    rw [setPush_push_self]
    refine ⟨fun heq => ?_, hx.notMem, hx.next, rfl⟩
    obtain rfl : node = n := Option.some_inj.mp heq
    exact (h.apart th th' hth.symm).node node hnode hn

/-- The node is linked in: the item is in the list. -/
theorem Inv.link (h : Inv s ns) {node : ℕ} (hpc : s.push th = .link item node) :
    Inv ({ s with next := Function.update s.next s.overflowLast (some node) }.setPush th
      (.setLast node)) (ns ++ [node]) := by
  have hok := h.push th
  rw [hpc] at hok
  obtain ⟨hnode, hlock, htail⟩ := hok
  have hpush : ∀ th', th' ≠ th →
      ({ s with next := Function.update s.next s.overflowLast (some node) }.setPush th
        (.setLast node)).push th' = s.push th' :=
    fun th' hth => setPush_push_of_ne _ hth _
  -- the pointer that is written is in no node but the last one of the list
  have hne : ∀ n, n ∉ ns → some n ≠ s.overflowLast := by
    intro n hn heq
    rw [htail] at heq
    rcases lastAddr_mem none ns with hlast | ⟨m, hm, hlast⟩ <;> rw [hlast] at heq
    · simp at heq
    · exact hn (Option.some_inj.mp heq ▸ hm)
  refine h.pushedList (by rw [hpc]; simp) hpush (by rw [hpc]; rfl) (by rw [setPush_push_self]; rfl)
    rfl rfl rfl rfl rfl rfl rfl (.inr hlock) (Nat.le_refl _) (List.prefix_append ..) ?_ ?_
    (fun th' hth n hn => ?_) ?_
  · constructor
    · show Chain (Function.update s.next s.overflowLast (some node)) none (ns ++ [node])
      rw [htail]
      exact h.list.chain.concat h.list.nodup (by simp) hnode.notMem (by simp) hnode.next
    · exact List.nodup_append.mpr ⟨h.list.nodup, List.nodup_singleton node, fun a ha b hb => by
        rw [List.mem_singleton] at hb
        rintro rfl
        exact hnode.notMem (hb ▸ ha)⟩
    · intro n hn
      rcases List.mem_append.mp hn with hn | hn
      · exact h.list.lt n hn
      · exact List.mem_singleton.mp hn ▸ hnode.lt
    · intro hfree
      exact absurd (hlock.symm.trans hfree) (by simp)
  · rw [setPush_push_self]
    exact ⟨hlock, ns, rfl, htail⟩
  · obtain ⟨x, hx⟩ := h.nodeOk hn
    have hthNode : (s.push th).node = some node := by rw [hpc, Push.node]
    have hother : n ≠ node := by
      rintro rfl
      exact (h.apart th th' hth.symm).node n hthNode hn
    refine ⟨by rw [setPush_push_self]; simp [Push.node], ?_, ?_, rfl⟩
    · rw [List.mem_append, List.mem_singleton]
      exact fun hmem => hmem.elim hx.notMem hother
    · exact (Function.update_of_ne (hne n hx.notMem) ..).trans hx.next
  · -- the item goes from the thread's hand to the node
    have hdead : s.server.dead ≠ some node := fun hd => hnode.notMem (h.dead_mem hd)
    refine h.items.move of_injective Holds.unique (a := .hand th) (b := .node node) (x := item)
      ?_ (fun y hy => hnode.notMem hy.1) (fun y hy => ?_) (fun y => ?_) fun c hca hcb y => ?_
    · rw [Holds, hpc, Push.item?]
    · rw [Holds, setPush_push_self, Push.item?] at hy
      simp at hy
    · refine ⟨fun hy => hy.2.2.symm.trans hnode.item, fun hy => ⟨by simp, hdead, ?_⟩⟩
      exact hnode.item.trans hy.symm
    · cases c with
      | hand th' =>
        have hth : th' ≠ th := by
          rintro rfl
          exact hca rfl
        rw [Holds, Holds, hpush th' hth]
      | ring p =>
        refine and_congr_left fun _ => and_congr_right fun _ => and_congr_right fun _ => ?_
        refine not_congr ?_
        exact claimed_congr hpush (by rw [setPush_push_self, hpc]; rfl) p
      | node n =>
        have hn : n ≠ node := by
          rintro rfl
          exact hcb rfl
        refine and_congr_left fun _ => ?_
        rw [List.mem_append, List.mem_singleton]
        exact or_iff_left hn
      | server => exact Iff.rfl

theorem Inv.setLast (h : Inv s ns) {node : ℕ} (hpc : s.push th = .setLast node) :
    Inv ({ s with overflowLast := some node }.setPush th .unlock) ns := by
  have hok := h.push th
  rw [hpc] at hok
  obtain ⟨hlock, ns₀, rfl, -⟩ := hok
  have hpush : ∀ th', th' ≠ th →
      ({ s with overflowLast := some node }.setPush th .unlock).push th' = s.push th' :=
    fun th' hth => setPush_push_of_ne _ hth _
  refine h.pushedList (by rw [hpc]; simp) hpush (by rw [hpc]; rfl) (by rw [setPush_push_self]; rfl)
    rfl rfl rfl rfl rfl rfl rfl (.inr hlock) (Nat.le_refl _) (List.prefix_refl _)
    ⟨h.list.chain, h.list.nodup, h.list.lt, fun _ => (lastAddr_concat none ns₀ node).symm⟩ ?_
    (fun th' hth n hn => ?_)
    (h.items_congr hpush (by rw [setPush_push_self, hpc]; rfl)
      (by rw [setPush_push_self, hpc]; rfl) rfl rfl rfl rfl rfl)
  · rw [setPush_push_self]
    exact ⟨hlock, (lastAddr_concat none ns₀ node).symm⟩
  · obtain ⟨x, hx⟩ := h.nodeOk hn
    exact ⟨by rw [setPush_push_self]; simp [Push.node], hx.notMem, hx.next, rfl⟩

theorem Inv.unlock (h : Inv s ns) (hpc : s.push th = .unlock) :
    Inv ({ s with overflowLock := none }.setPush th .idle) ns := by
  have hok := h.push th
  rw [hpc] at hok
  obtain ⟨hlock, htail⟩ := hok
  have hpush : ∀ th', th' ≠ th →
      ({ s with overflowLock := none }.setPush th .idle).push th' = s.push th' :=
    fun th' hth => setPush_push_of_ne _ hth _
  refine h.pushedList (by rw [hpc]; simp) hpush (by rw [hpc]; rfl) (by rw [setPush_push_self]; rfl)
    rfl rfl rfl rfl rfl rfl rfl (.inr hlock) (Nat.le_refl _) (List.prefix_refl _)
    ⟨h.list.chain, h.list.nodup, h.list.lt, fun _ => htail⟩ (by rw [setPush_push_self]; trivial)
    (fun th' hth n hn => ?_)
    (h.items_congr hpush (by rw [setPush_push_self, hpc]; rfl)
      (by rw [setPush_push_self, hpc]; rfl) rfl rfl rfl rfl rfl)
  obtain ⟨x, hx⟩ := h.nodeOk hn
  exact ⟨by rw [setPush_push_self]; simp [Push.node], hx.notMem, hx.next, rfl⟩

/-! ### The steps -/

/-- No thread is suspended for a whole wrap of `enqueuePos`: when it swaps, fewer than
`2 ^ 64` positions have been claimed since it loaded. -/
def NoFullWrap (s : State) : Act → Prop
  | .push th _ => ∀ item pos, s.push th = .cas item pos → s.enqueuePos < pos + wordSize
  | _ => True

/-- A pushing thread leaves the others where they are. -/
theorem pushStep_push_of_ne {th' : Thread} {spurious : Bool}
    (hstep : pushStep s th spurious = some s') (hne : th' ≠ th) : s'.push th' = s.push th' := by
  rw [pushStep] at hstep
  split at hstep <;> (try dsimp only at hstep) <;> repeat' split at hstep
  all_goals first
    | (obtain rfl := Option.some_inj.mp hstep; exact setPush_push_of_ne _ hne _)
    | (exact absurd hstep (by simp))

/-- A step of `ringPush` or `overflowPush`. -/
theorem Inv.of_pushStep (h : Inv s ns) {spurious : Bool} (hwrap : NoFullWrap s (.push th spurious))
    (hstep : pushStep s th spurious = some s') : ∃ ns', ns <+: ns' ∧ Inv s' ns' := by
  rw [pushStep] at hstep
  have hok := h.push th
  cases hpc : s.push th with
  | idle => simp [hpc] at hstep
  | load item =>
    simp only [hpc, Option.some_inj] at hstep
    subst hstep
    exact ⟨ns, List.prefix_refl _, h.setPush (by simp [hpc]) (by simp [hpc, Push.item?])
      (by simp [hpc, Push.claim]) (by simp [hpc, Push.node]) (Nat.le_refl _)⟩
  | sequence item pos =>
    rw [hpc] at hok
    simp only [hpc] at hstep
    refine ⟨ns, List.prefix_refl _, ?_⟩
    split at hstep
    · rename_i hseq
      obtain rfl := Option.some_inj.mp hstep
      refine h.setPush (by simp [hpc]) (by simp [hpc, Push.item?]) (by simp [hpc, Push.claim])
        (by simp [hpc, Push.node]) ⟨hok, fun heq => ?_⟩
      -- the sequence says that the cell is free
      have heq : pos = s.enqueuePos := heq
      rw [heq] at hseq
      exact h.room_of_sequence hseq
    · split at hstep <;> obtain rfl := Option.some_inj.mp hstep
      · exact h.setPush (by simp [hpc]) (by simp [hpc, Push.item?]) (by simp [hpc, Push.claim])
          (by simp [hpc, Push.node]) trivial
      · exact h.setPush (by simp [hpc]) (by simp [hpc, Push.item?]) (by simp [hpc, Push.claim])
          (by simp [hpc, Push.node]) trivial
  | cas item pos =>
    simp only [hpc] at hstep
    refine ⟨ns, List.prefix_refl _, ?_⟩
    split at hstep
    · rename_i hswap
      obtain rfl := Option.some_inj.mp hstep
      exact h.claim hpc hswap.1 (hwrap item pos hpc)
    · obtain rfl := Option.some_inj.mp hstep
      exact h.setPush (by simp [hpc]) (by simp [hpc, Push.item?]) (by simp [hpc, Push.claim])
        (by simp [hpc, Push.node]) (Nat.le_refl _)
  | function item pos =>
    rw [hpc] at hok
    simp only [hpc, Option.some_inj] at hstep
    subst hstep
    refine ⟨ns, List.prefix_refl _, h.write (by rw [hpc, Push.claim]) (by rw [hpc]; rfl)
      (by rw [Push.claim]) rfl ?_⟩
    exact ⟨hok.setItem, congrArg (fun c => c.item.function) (setCell_cellAt_self s pos _)⟩
  | client item pos =>
    rw [hpc] at hok
    simp only [hpc, Option.some_inj] at hstep
    subst hstep
    refine ⟨ns, List.prefix_refl _, h.write (by rw [hpc, Push.claim]) (by rw [hpc]; rfl)
      (by rw [Push.claim]) rfl ?_⟩
    have hcell := setCell_cellAt_self s pos
      { s.cellAt pos with item := { (s.cellAt pos).item with client := item.client } }
    exact ⟨hok.1.setItem, (congrArg (fun c => c.item.function) hcell).trans hok.2,
      congrArg (fun c => c.item.client) hcell⟩
  | closure item pos =>
    rw [hpc] at hok
    simp only [hpc, Option.some_inj] at hstep
    subst hstep
    refine ⟨ns, List.prefix_refl _, h.write (by rw [hpc, Push.claim]) (by rw [hpc]; rfl)
      (by rw [Push.claim]) rfl ?_⟩
    obtain ⟨hclaim, hfunction, hclient⟩ := hok
    have hcell := setCell_cellAt_self s pos
      { s.cellAt pos with item := { (s.cellAt pos).item with closure := item.closure } }
    refine ⟨hclaim.setItem, (congrArg Cell.item hcell).trans ?_⟩
    show WorkItem.mk (s.cellAt pos).item.function (s.cellAt pos).item.client item.closure = item
    rw [hfunction, hclient]
  | publish item pos =>
    simp only [hpc, Option.some_inj] at hstep
    subst hstep
    exact ⟨ns, List.prefix_refl _, h.publish hpc⟩
  | alloc item =>
    simp only [hpc, Option.some_inj] at hstep
    exact ⟨ns, List.prefix_refl _, h.alloc hpc hstep.symm⟩
  | lock item node =>
    simp only [hpc] at hstep
    split at hstep
    · rename_i hfree
      obtain rfl := Option.some_inj.mp hstep
      exact ⟨ns, List.prefix_refl _, h.lock hpc hfree⟩
    · simp at hstep
  | link item node =>
    simp only [hpc, Option.some_inj] at hstep
    subst hstep
    exact ⟨ns ++ [node], List.prefix_append .., h.link hpc⟩
  | setLast node =>
    simp only [hpc, Option.some_inj] at hstep
    subst hstep
    exact ⟨ns, List.prefix_refl _, h.setLast hpc⟩
  | unlock =>
    simp only [hpc, Option.some_inj] at hstep
    subst hstep
    exact ⟨ns, List.prefix_refl _, h.unlock hpc⟩

/-- A producer calls `QueueWorkProc` only when it is in no call. -/
theorem step_queueWorkProc {i : ℕ} (hstep : step s (.queueWorkProc i) = some s') :
    s.push (some i) = .idle ∧
      s' = { s with queued := s.queued + 1 }.setPush (some i) (.load (.of s.queued)) := by
  simp only [step] at hstep
  cases hidle : s.push (some i) <;> simp only [hidle] at hstep
  case idle => exact ⟨rfl, (Option.some_inj.mp hstep).symm⟩
  all_goals simp at hstep

/-- So does the server's thread with `ProcessWorkQueue`. -/
theorem step_processWorkQueue {z : Bool} (hstep : step s (.processWorkQueue z) = some s') :
    s.server = .idle ∧ s' = s.setServer (.countTail z) := by
  simp only [step] at hstep
  cases hpc : s.server <;> simp only [hpc] at hstep
  case idle => exact ⟨rfl, (Option.some_inj.mp hstep).symm⟩
  all_goals simp at hstep

/-- A new call, which has a new tag. -/
theorem Inv.queueWorkProc (h : Inv s ns) {i : ℕ} (hidle : s.push (some i) = .idle) :
    Inv ({ s with queued := s.queued + 1 }.setPush (some i) (.load (.of s.queued))) ns := by
  have hpush : ∀ th', th' ≠ some i →
      ({ s with queued := s.queued + 1 }.setPush (some i) (.load (.of s.queued))).push th' =
        s.push th' := fun th' hth => setPush_push_of_ne _ hth _
  have hclaimed : ∀ p, ({ s with queued := s.queued + 1 }.setPush (some i)
      (.load (.of s.queued))).Claimed p ↔ s.Claimed p :=
    claimed_congr hpush (by rw [setPush_push_self, hidle]; rfl)
  -- what was run has an older tag, so the new item is none of it
  have hfinished : ¬ s.Finished s.queued := by
    rintro ⟨e, he, hitem, -⟩
    obtain ⟨tag, htag, htag'⟩ := h.log.own e he
    exact absurd (of_injective (htag'.symm.trans hitem)) (by omega)
  constructor
  · exact h.ring.congr rfl rfl rfl (fun _ => rfl) hclaimed
  · exact h.list.congr rfl rfl rfl rfl
  · intro th'
    by_cases hth : th' = some i
    · rw [hth, setPush_push_self]
      trivial
    · rw [hpush th' hth]
      exact (h.push th').rely
        (Rely.of_same rfl rfl rfl rfl rfl rfl rfl fun hlock => ⟨hlock, rfl⟩)
  · -- the call has neither a position nor a node yet
    have hself : ∀ pc, Apart (.load (.of s.queued)) pc := fun pc =>
      ⟨fun p hp => by simp [Push.claim] at hp, fun n hn => by simp [Push.node] at hn⟩
    intro th₁ th₂ hne
    by_cases h₁ : th₁ = some i
    · rw [h₁, setPush_push_self]
      exact hself _
    · by_cases h₂ : th₂ = some i
      · rw [h₂, setPush_push_self]
        exact (hself _).symm
      · rw [hpush th₁ h₁, hpush th₂ h₂]
        exact h.apart th₁ th₂ hne
  · exact h.server.congr (Nat.le_refl _) rfl rfl rfl (fun _ _ => rfl) fun p _ => (hclaimed p).mp
  · intro hreq
    rw [hpush none (by simp)]
    exact h.own hreq
  · refine h.items.issue (b := .hand (some i)) hfinished (fun y hy => ?_) (fun y => ?_)
      fun c hc y => ?_
    · rw [Holds, hidle, Push.item?] at hy
      simp at hy
    · rw [Holds, setPush_push_self, Push.item?, Option.some_inj]
      exact eq_comm
    · cases c with
      | hand th' =>
        have hth : th' ≠ some i := by
          rintro rfl
          exact hc rfl
        rw [Holds, Holds, hpush th' hth]
      | ring p => exact and_congr_left fun _ => and_congr_right fun _ => and_congr_right fun _ =>
          (hclaimed p).not
      | node n => exact Iff.rfl
      | server => exact Iff.rfl
  · refine ⟨fun e he => ?_, h.log.final, h.log.zombie⟩
    obtain ⟨tag, htag, hitem⟩ := h.log.own e he
    exact ⟨tag, Nat.lt_succ_of_lt htag, hitem⟩

end WorkQueue
