/-
The invariant of the work queue over the steps of the server's thread.

* `Inv.served` — what is to be shown of a step;
* `Inv.of_serverStep` — every step of `ProcessWorkQueue` and of its zombie sibling keeps
  the invariant;
* `Inv.of_step` — and so does every step of any thread.
-/
import KaliGui.WorkQueue.Pushing

namespace WorkQueue

open Links Tokens

variable {s s' : State} {ns ns' : List ℕ} {z : Bool} {remaining pos q : ℕ} {p : Option ℕ}
  {item : WorkItem}

/-- The server's thread pushes nothing when it goes on. -/
theorem idle_of_serverStep
    (hown : (∀ z remaining, s.server ≠ .requeue z remaining) → s.push none = .idle)
    {result spurious : Bool} (hstep : serverStep s result spurious = some s') :
    s.push none = .idle := by
  by_cases hreq : ∃ z remaining, s.server = .requeue z remaining
  · obtain ⟨z, remaining, hpc⟩ := hreq
    simp only [serverStep, hpc] at hstep
    cases hidle : s.push none <;> simp [hidle] at hstep
    rfl
  · exact hown fun z remaining hpc => hreq ⟨z, remaining, hpc⟩

theorem Inv.idle_of_serverStep (h : Inv s ns) {result spurious : Bool}
    (hstep : serverStep s result spurious = some s') : s.push none = .idle :=
  WorkQueue.idle_of_serverStep h.own hstep

/-- The server's thread leaves the producers where they are. -/
theorem serverStep_push {result spurious : Bool} (hstep : serverStep s result spurious = some s')
    (i : ℕ) : s'.push (some i) = s.push (some i) := by
  rw [serverStep] at hstep
  split at hstep <;> (try dsimp only at hstep) <;> repeat' split at hstep
  all_goals first
    | (obtain rfl := Option.some_inj.mp hstep; rfl)
    | (exact absurd hstep (by simp))

/-- What is to be shown of a step of the server's thread. -/
theorem Inv.served (h : Inv s ns)
    (hpush : ∀ i, s'.push (some i) = s.push (some i))
    (hnone : s'.push none = .idle ∨
      ∃ item z remaining, s'.push none = .load item ∧ s'.server = .requeue z remaining)
    (hring : RingInv s') (hlist : ListInv s' ns')
    (hrely : ∀ i, Rely s ns s' ns' (some i) (s.push (some i)))
    (hserver : ServerOk s' ns' s'.server)
    (hitems : Accounted WorkItem.of (Holds s' ns') s'.queued s'.Finished) (hlog : LogInv s') :
    Inv s' ns' := by
  have hclaim : (s'.push none).claim = none ∧ (s'.push none).node = none := by
    rcases hnone with hnone | ⟨x, z, remaining, hnone, -⟩ <;> rw [hnone] <;> exact ⟨rfl, rfl⟩
  have hapart : ∀ pc, Apart (s'.push none) pc := fun pc =>
    ⟨fun pos hp => by rw [hclaim.1] at hp; simp at hp,
      fun n hn => by rw [hclaim.2] at hn; simp at hn⟩
  refine ⟨hring, hlist, fun th => ?_, fun th th' hne => ?_, hserver, fun hreq => ?_, hitems, hlog⟩
  · cases th with
    | none => rcases hnone with hnone | ⟨x, z, remaining, hnone, -⟩ <;> rw [hnone] <;> trivial
    | some i =>
      rw [hpush i]
      exact (h.push (some i)).rely (hrely i)
  · cases th with
    | none => exact hapart _
    | some i =>
      cases th' with
      | none => exact (hapart _).symm
      | some i' =>
        rw [hpush i, hpush i']
        exact h.apart _ _ hne
  · rcases hnone with hnone | ⟨x, z, remaining, -, hnone⟩
    · exact hnone
    · exact absurd hnone (hreq z remaining)

theorem claimed_of_push (hpush : s'.push = s.push) (pos : ℕ) : s'.Claimed pos ↔ s.Claimed pos := by
  rw [State.Claimed, State.Claimed, hpush]

/-- A step by which the server's thread only goes on, taking or leaving the lock. -/
theorem Inv.goOn (h : Inv s ns) (hidle : s.push none = .idle) {l : Option Thread} {pc pc' : Server}
    (hpc : s.server = pc) (hpopping : pc'.popping = pc.popping)
    (hpopped : ({ s with overflowLock := l }.setServer pc').popped = (s.setServer pc).popped)
    (hdead : pc'.dead = pc.dead)
    (hlock : ∀ i, s.overflowLock = some (some i) → l = some (some i))
    (htail : l = none → TailOk s ns)
    (hserver : ServerOk ({ s with overflowLock := l }.setServer pc') ns pc') :
    Inv ({ s with overflowLock := l }.setServer pc') ns := by
  subst hpc
  refine h.served (fun _ => rfl) (.inl hidle)
    (h.ring.congr rfl rfl hpopping (fun _ => rfl) fun _ => Iff.rfl)
    ⟨h.list.chain, h.list.nodup, h.list.lt, htail⟩ (fun i => ?_) hserver
    (h.items.congr (fun a x => ?_) fun _ => Iff.rfl) ⟨h.log.own, h.log.final, h.log.zombie⟩
  · exact Rely.of_same rfl rfl hpopping rfl rfl rfl rfl fun hl => ⟨hlock i hl, rfl⟩
  · cases a with
    | hand th => exact Iff.rfl
    | ring p => exact Iff.rfl
    | node n =>
      refine and_congr_right fun _ => and_congr_left fun _ => ?_
      show pc'.dead ≠ some n ↔ _
      rw [hdead]
    | server =>
      rw [Holds, Holds, hpopped]
      exact Iff.rfl

/-- A step by which the server's thread only goes on. -/
theorem Inv.setServer (h : Inv s ns) (hidle : s.push none = .idle) {pc pc' : Server}
    (hpc : s.server = pc) (hpopping : pc'.popping = pc.popping)
    (hpopped : (s.setServer pc').popped = (s.setServer pc).popped) (hdead : pc'.dead = pc.dead)
    (hserver : ServerOk (s.setServer pc') ns pc') : Inv (s.setServer pc') ns :=
  h.goOn (l := s.overflowLock) hidle hpc hpopping hpopped hdead (fun _ hl => hl) h.list.tail hserver

/-! ### The ring -/

/-- The sequence of the first cell says that it is published. -/
theorem Inv.published_of_sequence (h : Inv s ns) (hpop : s.server.popping = none)
    (hseq : SameWord (s.cellAt s.dequeuePos).sequence (s.dequeuePos + 1)) :
    s.dequeuePos < s.enqueuePos ∧ ¬ s.Claimed s.dequeuePos := by
  have hle := h.ring.le
  have hrel : s.released = s.dequeuePos := by rw [State.released, hpop, Option.getD_none]
  have hpos : 0 < ringSize := by decide
  by_cases hempty : s.dequeuePos = s.enqueuePos
  · have hfree := h.ring.free s.dequeuePos (by omega) (by omega)
    rw [hfree, SameWord, wordSize] at hseq
    omega
  · have hlt : s.dequeuePos < s.enqueuePos := by omega
    refine ⟨hlt, fun hc => ?_⟩
    rw [(h.claimed hc).sequence, SameWord, wordSize] at hseq
    omega

/-- The server's thread pops. -/
theorem Inv.pop (h : Inv s ns) (hidle : s.push none = .idle)
    (hpc : s.server = .cas z remaining pos) :
    Inv ({ s with dequeuePos := s.dequeuePos + 1 }.setServer (.function z remaining pos)) ns := by
  have hok := h.server
  rw [hpc] at hok
  obtain ⟨rfl, hlt, hnot⟩ := hok
  have hrel : s.released = s.dequeuePos := by rw [State.released, hpc]; rfl
  have hring := h.ring
  refine h.served (fun _ => rfl) (.inl hidle) ?_ (h.list.congr rfl rfl rfl rfl)
    (fun i => ?_) trivial ?_ ⟨h.log.own, h.log.final, h.log.zombie⟩
  · refine ⟨hlt, ?_, fun pos hpos => ?_, fun p hp => ?_, fun p hp hlt' => ?_⟩
    · exact hrel ▸ hring.room
    · obtain rfl := Option.some_inj.mp hpos
      rfl
    · exact hring.taken p (hrel ▸ hp)
    · exact hring.free p hp (hrel ▸ hlt')
  · refine ⟨Nat.le_refl _, hrel ▸ Nat.le_refl _, fun p hp hc => ⟨?_, rfl⟩, Nat.le_refl _,
      fun _ _ _ hn hnext => ⟨hn, hnext, rfl⟩, fun hl => ⟨hl, rfl, rfl⟩⟩
    have hle := hc.le
    -- the position was published, so nobody claims it
    have hne : p ≠ s.dequeuePos := by
      rintro rfl
      exact hnot ⟨some i, hp⟩
    show s.dequeuePos + 1 ≤ p
    omega
  · -- the item goes from the ring to the server
    refine h.items.move of_injective Holds.unique (a := .ring s.dequeuePos) (b := .server)
      (x := (s.cellAt s.dequeuePos).item) ⟨⟨Nat.le_refl _, hlt, hnot⟩, rfl⟩ (fun y hy => ?_)
      (fun y hy => ?_) (fun y => ?_) fun c hca hcb y => ?_
    · rw [Holds, State.popped, hpc] at hy
      simp at hy
    · exact absurd hy.1.1 (Nat.not_succ_le_self _)
    · rw [Holds, State.popped]
      exact Option.some_inj.trans eq_comm
    · cases c with
      | hand th => exact Iff.rfl
      | ring p =>
        have hne : p ≠ s.dequeuePos := by
          rintro rfl
          exact hca rfl
        refine and_congr_left fun _ => and_congr_left fun _ => ?_
        show s.dequeuePos + 1 ≤ p ↔ s.dequeuePos ≤ p
        omega
      | node n =>
        refine and_congr_right fun _ => and_congr_left fun _ => ?_
        rw [hpc]
        exact Iff.rfl
      | server => exact absurd rfl hcb

/-- The cell is left to the position 128 later. -/
theorem Inv.release (h : Inv s ns) (hidle : s.push none = .idle)
    (hpc : s.server = .release z remaining pos item) :
    Inv ((s.setSequence pos (pos + ringSize)).setServer (.call z remaining item)) ns := by
  have hok := h.server
  rw [hpc] at hok
  have hitemEq : item = (s.cellAt pos).item := hok
  have hpopping : s.server.popping = some pos := by rw [hpc, Server.popping]
  obtain ⟨hdeq, hwin⟩ := h.window_of_popping hpopping
  have hrel : s.released = pos := by rw [State.released, hpopping, Option.getD_some]
  have hitem : ∀ p, ((s.setSequence pos (pos + ringSize)).cellAt p).item = (s.cellAt p).item :=
    setSequence_item s pos _
  -- only the cell of the position that was popped is written
  have hcell : ∀ p, p ≠ pos → s.released ≤ p ∧ p < s.released + ringSize →
      (s.setSequence pos (pos + ringSize)).cellAt p = s.cellAt p :=
    fun p hne hp => setCell_cellAt_of_ne s _ hne hwin hp
  have hring := h.ring
  have hroom := hring.room
  refine h.served (fun _ => rfl) (.inl hidle) ?_ (h.list.congr rfl rfl rfl rfl)
    (fun i => ?_) trivial ?_ ⟨h.log.own, h.log.final, h.log.zombie⟩
  · refine ⟨hring.le, ?_, fun p hp => by simp [Server.popping, State.setServer] at hp,
      fun p hp hlt hc => ?_, fun p hp hlt => ?_⟩
    · show s.enqueuePos ≤ s.dequeuePos + ringSize
      omega
    · have hp : s.dequeuePos ≤ p := hp
      have hlt : p < s.enqueuePos := hlt
      exact (congrArg Cell.sequence (hcell p (by omega) ⟨by omega, by omega⟩)).trans
        (hring.taken p (by omega) hlt hc)
    · have hp : s.enqueuePos ≤ p := hp
      have hlt : p < s.dequeuePos + ringSize := hlt
      have hle := hring.le
      by_cases hlast : p = pos + ringSize
      · -- the cell that was left
        subst hlast
        show ((s.setSequence pos (pos + ringSize)).cellAt (pos + ringSize)).sequence = _
        rw [cellAt_add_ringSize, State.setSequence, setCell_cellAt_self]
      · exact (congrArg Cell.sequence (hcell p (by omega) ⟨by omega, by omega⟩)).trans
          (hring.free p hp (by omega))
  · refine ⟨Nat.le_refl _, ?_, fun p hp hc => ⟨hc.le, ?_⟩, Nat.le_refl _,
      fun _ _ _ hn hnext => ⟨hn, hnext, rfl⟩, fun hl => ⟨hl, rfl, rfl⟩⟩
    · show s.released ≤ s.dequeuePos
      omega
    · have hle := hc.le
      exact hcell p (by omega) (h.ring.window hc.le hc.lt)
  · refine h.items.congr (fun a x => ?_) fun _ => Iff.rfl
    cases a with
    | hand th => exact Iff.rfl
    | ring p => exact and_congr_right fun _ => by rw [← hitem p]; rfl
    | node n =>
      refine and_congr_right fun _ => and_congr_left fun _ => ?_
      rw [hpc]
      exact Iff.rfl
    | server =>
      rw [Holds, Holds, State.popped, State.popped, hpc]
      exact Option.some_inj.trans (by rw [hitemEq, Option.some_inj])

/-! ### Calling -/

theorem finished_of_exec {e : Exec} (hlog : s'.log = s.log ++ [e]) (tag : ℕ) :
    s'.Finished tag ↔ s.Finished tag ∨ e.item = .of tag ∧ e.Finishes := by
  rw [State.Finished, State.Finished, hlog]
  constructor
  · rintro ⟨e', he', hitem⟩
    rcases List.mem_append.mp he' with he' | he'
    · exact .inl ⟨e', he', hitem⟩
    · obtain rfl := List.mem_singleton.mp he'
      exact .inr hitem
  · rintro (⟨e', he', hitem⟩ | hitem)
    · exact ⟨e', List.mem_append_left _ he', hitem⟩
    · exact ⟨e, List.mem_append_right _ (List.mem_singleton_self e), hitem⟩

/-- A call of the function of an item that is held somewhere. -/
theorem Inv.log_exec (h : Inv s ns) {a : Place} {e : Exec} (hholds : Holds s ns a e.item)
    (hzombie : e.zombie = true → s.gone e.item.client = true) (hlog : s'.log = s.log ++ [e])
    (hqueued : s'.queued = s.queued) (hgone : s'.gone = s.gone) : LogInv s' := by
  obtain ⟨t, ht, hlt, hnot⟩ := h.items.owner hholds
  constructor
  · intro e' he'
    rw [hqueued]
    rcases List.mem_append.mp (hlog ▸ he') with he' | he'
    · exact h.log.own e' he'
    · exact ⟨t, hlt, (congrArg Exec.item (List.mem_singleton.mp he')).trans ht⟩
  · rw [hlog]
    refine List.pairwise_append.mpr ⟨h.log.final, List.pairwise_singleton ..,
      fun e₁ he₁ e₂ he₂ => ?_⟩
    obtain rfl := List.mem_singleton.mp he₂
    -- the item would be finished and held
    exact fun hfin heq => hnot ⟨e₁, he₁, heq.symm.trans ht, hfin⟩
  · intro e' he' hz
    rw [hgone]
    rcases List.mem_append.mp (hlog ▸ he') with he' | he'
    · exact h.log.zombie e' he' hz
    · obtain rfl := List.mem_singleton.mp he'
      exact hzombie hz

/-- The item the server's thread has popped is run for the last time. -/
theorem Inv.callFinal (h : Inv s ns) (hidle : s.push none = .idle) {e : Exec}
    (hpc : s.server = .call z remaining item) (he : e.item = item) (hfinishes : e.Finishes)
    (hzombie : e.zombie = true → s.gone e.item.client = true) :
    Inv ((s.exec e).setServer (.scan z remaining)) ns := by
  have hholds : Holds s ns .server e.item := by rw [Holds, State.popped, hpc, he]
  obtain ⟨t, ht, -, -⟩ := h.items.owner hholds
  rw [ht] at hholds
  refine h.served (fun _ => rfl) (.inl hidle)
    (h.ring.congr rfl rfl (by rw [hpc]; rfl) (fun _ => rfl) fun _ => Iff.rfl)
    (h.list.congr rfl rfl rfl rfl) (fun i => ?_) trivial ?_
    (h.log_exec (ht ▸ hholds) hzombie rfl rfl rfl)
  · exact Rely.of_same rfl rfl (by rw [hpc]; rfl) rfl rfl rfl rfl fun hl => ⟨hl, rfl⟩
  · refine h.items.finish of_injective Holds.unique hholds (fun y hy => ?_) (fun c hc y => ?_)
      fun u => ?_
    · simp [Holds, State.popped, State.setServer] at hy
    · cases c with
      | hand th => exact Iff.rfl
      | ring p => exact Iff.rfl
      | node n =>
        refine and_congr_right fun _ => and_congr_left fun _ => ?_
        rw [hpc]
        exact Iff.rfl
      | server => exact absurd rfl hc
    · rw [finished_of_exec rfl, ht]
      refine or_congr_right ⟨fun hu => (of_injective hu.1).symm, ?_⟩
      rintro rfl
      exact ⟨rfl, hfinishes⟩

/-- The item the server's thread has popped is to be put back; `s'` has the same
finished items as `s`. -/
theorem Inv.callAgain (h : Inv s ns) (hpc : s.server = .call z remaining item)
    (hs' : ∃ log, s' = ({ s with log := log }.setPush none (.load item)).setServer
      (.requeue z remaining))
    (hfinished : ∀ tag, s'.Finished tag ↔ s.Finished tag) (hlog : LogInv s')
    (hidle : s.push none = .idle) : Inv s' ns := by
  obtain ⟨log, rfl⟩ := hs'
  have hpush : ∀ th', th' ≠ none → (({ s with log := log }.setPush none (.load item)).setServer
      (.requeue z remaining)).push th' = s.push th' :=
    fun th' hth => setPush_push_of_ne { s with log := log } hth (.load item)
  have hself : (({ s with log := log }.setPush none (.load item)).setServer
      (.requeue z remaining)).push none = .load item :=
    setPush_push_self { s with log := log } none (.load item)
  have hclaimed : ∀ p, (({ s with log := log }.setPush none (.load item)).setServer
      (.requeue z remaining)).Claimed p ↔ s.Claimed p :=
    claimed_congr hpush (by rw [hself, hidle]; rfl)
  refine h.served (fun i => hpush _ (by simp)) (.inr ⟨item, z, remaining, hself, rfl⟩)
    (h.ring.congr rfl rfl (by rw [hpc]; rfl) (fun _ => rfl) hclaimed)
    (h.list.congr rfl rfl rfl rfl) (fun i => ?_) trivial ?_ hlog
  · exact Rely.of_same rfl rfl (by rw [hpc]; rfl) rfl rfl rfl rfl fun hl => ⟨hl, rfl⟩
  · refine Accounted.congr (h.items.move of_injective Holds.unique (a := .server)
      (b := .hand none) (x := item) ?_ (fun y hy => ?_) (fun y hy => ?_) (fun y => ?_)
      fun c hca hcb y => ?_) (fun _ _ => Iff.rfl) hfinished
    · rw [Holds, State.popped, hpc]
    · rw [Holds, hidle, Push.item?] at hy
      simp at hy
    · simp [Holds, State.popped, State.setServer] at hy
    · rw [Holds, hself, Push.item?, Option.some_inj]
      exact eq_comm
    · cases c with
      | hand th =>
        have hth : th ≠ none := by
          rintro rfl
          exact hcb rfl
        rw [Holds, Holds, hpush th hth]
      | ring p => exact and_congr_left fun _ => and_congr_right fun _ => and_congr_right fun _ =>
          (hclaimed p).not
      | node n =>
        refine and_congr_right fun _ => and_congr_left fun _ => ?_
        rw [hpc]
        exact Iff.rfl
      | server => exact absurd rfl hca

/-- The item of a node is run; for the last time, if the node is now dead. -/
theorem Inv.runNode (h : Inv s ns) (hidle : s.push none = .idle) {e : Exec} {pc : Server}
    (hnode : q ∈ ns) (hold : s.server.dead = none) (hpop : s.server.popping = none)
    (hpopped : s.popped = none) (hpop' : pc.popping = none)
    (hpopped' : ((s.exec e).setServer pc).popped = none) (he : e.item = s.nodeItem q)
    (hzombie : e.zombie = true → s.gone e.item.client = true)
    (hdead : e.Finishes ∧ pc.dead = some q ∨ ¬ e.Finishes ∧ pc.dead = none)
    (hserver : ServerOk ((s.exec e).setServer pc) ns pc) :
    Inv ((s.exec e).setServer pc) ns := by
  have hholds : Holds s ns (.node q) e.item := ⟨hnode, by rw [hold]; simp, he.symm⟩
  obtain ⟨t, ht, -, -⟩ := h.items.owner hholds
  rw [ht] at hholds
  refine h.served (fun _ => rfl) (.inl hidle)
    (h.ring.congr rfl rfl (hpop'.trans hpop.symm) (fun _ => rfl) fun _ => Iff.rfl)
    (h.list.congr rfl rfl rfl rfl) (fun i => ?_) hserver ?_
    (h.log_exec (ht ▸ hholds) hzombie rfl rfl rfl)
  · exact Rely.of_same rfl rfl (hpop'.trans hpop.symm) rfl rfl rfl rfl fun hl => ⟨hl, rfl⟩
  rcases hdead with ⟨hfinishes, hdead⟩ | ⟨hfinishes, hdead⟩
  · refine h.items.finish of_injective Holds.unique hholds (fun y hy => hy.2.1 hdead)
      (fun c hc y => ?_) fun u => ?_
    · cases c with
      | hand th => exact Iff.rfl
      | ring p => exact Iff.rfl
      | node n =>
        refine and_congr_right fun _ => and_congr_left fun _ => ?_
        show pc.dead ≠ some n ↔ s.server.dead ≠ some n
        rw [hdead, hold]
        refine ⟨fun _ => by simp, fun _ heq => hc ?_⟩
        rw [Option.some_inj.mp heq]
      | server => rw [Holds, Holds, hpopped, hpopped']
    · rw [finished_of_exec rfl, ht]
      refine or_congr_right ⟨fun hu => (of_injective hu.1).symm, ?_⟩
      rintro rfl
      exact ⟨rfl, hfinishes⟩
  · refine h.items.congr (fun c y => ?_) fun u => ?_
    · cases c with
      | hand th => exact Iff.rfl
      | ring p => exact Iff.rfl
      | node n =>
        refine and_congr_right fun _ => and_congr_left fun _ => ?_
        show pc.dead ≠ some n ↔ s.server.dead ≠ some n
        rw [hdead, hold]
      | server => rw [Holds, Holds, hpopped, hpopped']
    · rw [finished_of_exec rfl]
      exact or_iff_left fun hu => hfinishes hu.2

/-! ### The list -/

/-- What the pointer holds the server's thread has come to. -/
theorem Inv.next_eq (h : Inv s ns) {post : List ℕ} (hat : AtPointer ns p post) :
    s.next p = post.head? := by
  obtain ⟨pre, rfl, rfl⟩ := hat
  exact h.list.chain.next

/-- Past a node that stays. -/
theorem AtPointer.pass {post : List ℕ} (h : AtPointer ns p (q :: post)) :
    AtPointer ns (some q) post := by
  obtain ⟨pre, rfl, -⟩ := h
  exact ⟨pre ++ [q], by rw [List.append_assoc, List.singleton_append],
    (lastAddr_concat none pre q).symm⟩

/-- The dead node is taken out of the list. -/
theorem Inv.remove (h : Inv s ns) (hidle : s.push none = .idle)
    (hpc : s.server = .remove z p q) :
    ∃ ns', Inv ({ s with next := Function.update s.next p (s.next (some q)) }.setServer
      (.next z p)) ns' := by
  have hok := h.server
  rw [hpc] at hok
  obtain ⟨hlock, htail, post, pre, rfl, rfl⟩ := hok
  have hnodup := h.list.nodup
  have hq : q ∉ pre ++ post := by
    have hmid := List.nodup_middle.mp hnodup
    exact (List.nodup_cons.mp hmid).1
  have hsub : ∀ n, n ∈ pre ++ q :: post ↔ n = q ∨ n ∈ pre ++ post := by
    intro n
    simp only [List.mem_append, List.mem_cons]
    tauto
  refine ⟨pre ++ post, h.served (fun _ => rfl) (.inl hidle)
    (h.ring.congr rfl rfl (by rw [hpc]; rfl) (fun _ => rfl) fun _ => Iff.rfl) ?_ (fun i => ?_) ?_
    ?_ ⟨h.log.own, h.log.final, h.log.zombie⟩⟩
  · -- under the lock nothing is said of `overflowLast`
    refine ⟨h.list.chain.remove hnodup (by simp), (List.nodup_cons.mp
      (List.nodup_middle.mp hnodup)).2, fun n hn => h.list.lt n ((hsub n).mpr (.inr hn)),
      fun hfree => ?_⟩
    exact absurd (hlock.symm.trans hfree) (by simp)
  · -- a producer that holds a node of its own has not linked it, so `next` of it is as it was
    have hrel : ({ s with next := Function.update s.next (lastAddr none pre) (s.next (some q))
        }.setServer (.next z (lastAddr none pre))).released = s.released := by
      rw [State.released, State.released, hpc]
      rfl
    refine ⟨Nat.le_refl _, hrel ▸ Nat.le_refl _, fun _ _ hc => ⟨hc.le, rfl⟩, Nat.le_refl _,
      fun n _ _ hn hnext => ⟨fun hmem => hn ((hsub n).mpr (.inr hmem)), ?_, rfl⟩, fun hl => ?_⟩
    · refine (Function.update_of_ne ?_ ..).trans hnext
      intro heq
      rcases lastAddr_mem none pre with hlast | ⟨m, hm, hlast⟩ <;> rw [hlast] at heq
      · simp at heq
      · obtain rfl := Option.some_inj.mp heq
        exact hn (List.mem_append_left _ hm)
    · exact absurd (hlock.symm.trans hl) (by simp)
  · refine ⟨hlock, post, ⟨pre, rfl, rfl⟩, ?_⟩
    cases post with
    | nil =>
      -- it was the last one, and `setLast` is still to come
      exact .inl rfl
    | cons n post =>
      right
      rw [TailOk, lastAddr_append] at htail
      rw [TailOk, lastAddr_append]
      exact htail
  · refine h.items.congr (fun a x => ?_) fun _ => Iff.rfl
    cases a with
    | hand th => exact Iff.rfl
    | ring pos => exact Iff.rfl
    | node n =>
      rw [Holds, Holds, hpc, hsub, ← and_assoc, ← and_assoc]
      refine and_congr_left fun _ => ?_
      show n ∈ pre ++ post ∧ (none : Option ℕ) ≠ some n ↔ _ ∧ some q ≠ some n
      -- the node that is gone was dead, so it held nothing
      constructor
      · rintro ⟨hn, -⟩
        refine ⟨.inr hn, fun heq => hq ?_⟩
        rwa [Option.some_inj.mp heq]
      · rintro ⟨hn | hn, hne⟩
        · exact absurd (congrArg some hn.symm) hne
        · exact ⟨hn, by simp⟩
    | server =>
      rw [Holds, Holds, State.popped, State.popped, hpc]
      exact Iff.rfl

theorem Inv.setOverflowLast (h : Inv s ns) (hidle : s.push none = .idle)
    (hpc : s.server = .setLast p) :
    Inv ({ s with overflowLast := p }.setServer .unlock) ns := by
  have hok := h.server
  rw [hpc] at hok
  obtain ⟨hlock, pre, hns, hp⟩ := hok
  rw [List.append_nil] at hns
  subst hns
  refine h.served (fun _ => rfl) (.inl hidle)
    (h.ring.congr rfl rfl (by rw [hpc]; rfl) (fun _ => rfl) fun _ => Iff.rfl)
    ⟨h.list.chain, h.list.nodup, h.list.lt, fun _ => hp⟩ (fun i => ?_) ⟨hlock, hp⟩
    (h.items.congr (fun a x => ?_) fun _ => Iff.rfl) ⟨h.log.own, h.log.final, h.log.zombie⟩
  · exact Rely.of_same rfl rfl (by rw [hpc]; rfl) rfl rfl rfl rfl fun hl =>
      absurd (hlock.symm.trans hl) (by simp)
  · cases a with
    | hand th => exact Iff.rfl
    | ring p => exact Iff.rfl
    | node n =>
      refine and_congr_right fun _ => and_congr_left fun _ => ?_
      rw [hpc]
      exact Iff.rfl
    | server =>
      rw [Holds, Holds, State.popped, State.popped, hpc]
      exact Iff.rfl

/-! ### The steps -/

/-- In `ringCount` or `ringPop`, before the cell is released, or between them. -/
def Server.InRingPop : Server → Prop
  | .countTail _ | .countHead _ _ | .scan _ _ | .sequence _ _ _ | .cas _ _ _ | .function _ _ _
  | .client _ _ _ _ | .closure _ _ _ _ _ | .requeue _ _ => True
  | _ => False

/-- The thread is at the overflow list. -/
def Server.InList : Server → Prop
  | .lock _ | .next _ _ | .unlockNode _ _ | .callNode _ _ | .relock _ _ _ | .zombieNode _ _
  | .remove _ _ _ | .setLast _ | .unlock => True
  | _ => False

/-- The parts of a call. -/
theorem Server.parts (pc : Server) :
    pc = .idle ∨ pc.InRingPop ∨ (∃ z remaining pos item, pc = .release z remaining pos item) ∨
      (∃ z remaining item, pc = .call z remaining item) ∨ pc.InList := by
  cases pc <;> simp [InRingPop, InList]

/-- A step that links nothing in and takes nothing out. -/
theorem Inv.nodes_eq (h : Inv s ns) (h' : Inv s' ns') (hnext : s'.next = s.next) : ns' = ns :=
  h'.list.chain.unique (hnext ▸ h.list.chain)

/-- A step of `ringCount` or of `ringPop`, or between them. -/
theorem Inv.of_ringStep (h : Inv s ns) {result spurious : Bool}
    (hring : s.server.InRingPop)
    (hstep : serverStep s result spurious = some s') : Inv s' ns := by
  have hidle := h.idle_of_serverStep hstep
  have hok := h.server
  cases hpc : s.server with
  | countTail z =>
    simp only [serverStep, hpc, Option.some_inj] at hstep
    subst hstep
    exact h.setServer hidle hpc rfl rfl rfl rfl
  | countHead z tail =>
    simp only [serverStep, hpc, Option.some_inj] at hstep
    subst hstep
    exact h.setServer hidle hpc rfl rfl rfl trivial
  | scan z remaining =>
    simp only [serverStep, hpc] at hstep
    split at hstep <;> obtain rfl := Option.some_inj.mp hstep
    · exact h.setServer hidle hpc rfl rfl rfl trivial
    · exact h.setServer hidle hpc rfl rfl rfl rfl
  | sequence z remaining pos =>
    rw [hpc] at hok
    simp only [serverStep, hpc] at hstep
    obtain rfl : pos = s.dequeuePos := hok
    split at hstep
    · -- the swap that is to come finds a published position
      rename_i hseq
      obtain rfl := Option.some_inj.mp hstep
      refine h.setServer hidle hpc rfl rfl rfl ⟨rfl, ?_⟩
      exact h.published_of_sequence (by rw [hpc]; rfl) hseq
    · split at hstep <;> obtain rfl := Option.some_inj.mp hstep
      · exact h.setServer hidle hpc rfl rfl rfl trivial
      · exact h.setServer hidle hpc rfl rfl rfl rfl
  | cas z remaining pos =>
    simp only [serverStep, hpc] at hstep
    split at hstep <;> obtain rfl := Option.some_inj.mp hstep
    · exact h.pop hidle hpc
    · exact h.setServer hidle hpc rfl rfl rfl rfl
  | function z remaining pos =>
    simp only [serverStep, hpc, Option.some_inj] at hstep
    subst hstep
    exact h.setServer hidle hpc rfl rfl rfl rfl
  | client z remaining pos f =>
    rw [hpc] at hok
    simp only [serverStep, hpc, Option.some_inj] at hstep
    subst hstep
    exact h.setServer hidle hpc rfl rfl rfl ⟨hok, rfl⟩
  | closure z remaining pos f c =>
    rw [hpc] at hok
    simp only [serverStep, hpc, Option.some_inj] at hstep
    subst hstep
    refine h.setServer hidle hpc rfl rfl rfl ?_
    obtain ⟨rfl, rfl⟩ := hok
    rfl
  | requeue z remaining =>
    simp only [serverStep, hpc] at hstep
    rw [hidle] at hstep
    obtain rfl := Option.some_inj.mp hstep
    exact h.setServer hidle hpc rfl rfl rfl trivial
  | _ =>
    rw [hpc] at hring
    exact hring.elim

/-- The call of the function of the item that was popped. -/
theorem Inv.of_callStep (h : Inv s ns) {result spurious : Bool}
    (hpc : s.server = .call z remaining item)
    (hstep : serverStep s result spurious = some s') : Inv s' ns := by
  have hidle := h.idle_of_serverStep hstep
  cases z with
  | false =>
    simp only [serverStep, hpc] at hstep
    cases result with
    | true =>
      obtain rfl := Option.some_inj.mp hstep
      exact h.callFinal hidle hpc rfl (.inl rfl) (fun hz => nomatch hz)
    | false =>
      -- it is run, but not for the last time: it goes back through `QueueWorkProc`
      obtain rfl := Option.some_inj.mp hstep
      have hholds : Holds s ns .server item := by rw [Holds, State.popped, hpc]
      refine h.callAgain hpc ⟨s.log ++ [⟨item, false, false⟩], rfl⟩ (fun tag => ?_)
        (h.log_exec hholds (by simp) rfl rfl rfl) hidle
      rw [finished_of_exec (e := ⟨item, false, false⟩) rfl]
      exact or_iff_left fun hu => by simpa [Exec.Finishes] using hu.2
  | true =>
    simp only [serverStep, hpc] at hstep
    split at hstep <;> obtain rfl := Option.some_inj.mp hstep
    · rename_i hgone
      exact h.callFinal hidle hpc rfl (.inr rfl) fun _ => hgone
    · exact h.callAgain hpc ⟨s.log, rfl⟩ (fun tag => Iff.rfl)
        ⟨h.log.own, h.log.final, h.log.zombie⟩ hidle

/-- A step of the walk of the overflow list, which may take a node out. -/
theorem Inv.of_listStep (h : Inv s ns) {result spurious : Bool} (hlist : s.server.InList)
    (hstep : serverStep s result spurious = some s') : ∃ ns', Inv s' ns' := by
  have hidle := h.idle_of_serverStep hstep
  have hok := h.server
  cases hpc : s.server with
  | lock z =>
    simp only [serverStep, hpc] at hstep
    split at hstep
    · -- whoever left the lock left `overflowLast` right
      rename_i hfree
      obtain rfl := Option.some_inj.mp hstep
      refine ⟨ns, h.goOn hidle hpc rfl rfl rfl (fun i hl => ?_) (fun hl => by cases hl)
        ⟨rfl, ns, ⟨[], rfl, rfl⟩, .inr (h.list.tail hfree)⟩⟩
      rw [hfree] at hl
      cases hl
    · simp at hstep
  | next z p =>
    rw [hpc] at hok
    obtain ⟨hlock, post, hat, htail⟩ := hok
    have hnext := h.next_eq hat
    cases post with
    | nil =>
      simp only [serverStep, hpc, hnext, List.head?_nil, Option.some_inj] at hstep
      subst hstep
      exact ⟨ns, h.setServer hidle hpc rfl rfl rfl ⟨hlock, hat⟩⟩
    | cons q post =>
      have htail : TailOk s ns := htail.resolve_left (by simp)
      simp only [serverStep, hpc, hnext, List.head?_cons, Option.some_inj] at hstep
      subst hstep
      cases z with
      | false => exact ⟨ns, h.setServer hidle hpc rfl rfl rfl ⟨hlock, htail, post, hat⟩⟩
      | true => exact ⟨ns, h.setServer hidle hpc rfl rfl rfl ⟨hlock, htail, post, hat⟩⟩
  | unlockNode p q =>
    rw [hpc] at hok
    obtain ⟨hlock, htail, hat⟩ := hok
    simp only [serverStep, hpc, Option.some_inj] at hstep
    subst hstep
    refine ⟨ns, h.goOn hidle hpc rfl rfl rfl (fun i hl => ?_) (fun _ => htail) hat⟩
    rw [hlock] at hl
    cases Option.some_inj.mp hl
  | callNode p q =>
    rw [hpc] at hok
    simp only [serverStep, hpc, Option.some_inj] at hstep
    subst hstep
    refine ⟨ns, h.runNode hidle (AtNode.mem hok) (by rw [hpc]; rfl) (by rw [hpc]; rfl)
      (by rw [State.popped, hpc]) rfl (by simp [State.popped, State.setServer]) rfl
      (fun hz => by cases hz) ?_ hok⟩
    cases result with
    | true => exact .inl ⟨.inl rfl, rfl⟩
    | false => exact .inr ⟨by rintro (hfin | hfin) <;> exact Bool.false_ne_true hfin, rfl⟩
  | relock p q r =>
    rw [hpc] at hok
    simp only [serverStep, hpc] at hstep
    split at hstep
    · rename_i hfree
      obtain rfl := Option.some_inj.mp hstep
      have hlock : ∀ i : ℕ, s.overflowLock = some (some i) → some (none : Thread) = some (some i) :=
        fun i hl => by rw [hfree] at hl; cases hl
      have htail := h.list.tail hfree
      cases r with
      | true =>
        -- the node is finished, and still in the list: the next step takes it out
        exact ⟨ns, h.goOn hidle hpc rfl rfl rfl hlock (fun hl => by cases hl) ⟨rfl, htail, hok⟩⟩
      | false =>
        obtain ⟨post, hat⟩ := hok
        exact ⟨ns, h.goOn hidle hpc rfl rfl rfl hlock (fun hl => by cases hl)
          ⟨rfl, post, hat.pass, .inr htail⟩⟩
    · simp at hstep
  | zombieNode p q =>
    rw [hpc] at hok
    obtain ⟨hlock, htail, hat⟩ := hok
    simp only [serverStep, hpc] at hstep
    split at hstep <;> obtain rfl := Option.some_inj.mp hstep
    · rename_i hgone
      exact ⟨ns, h.runNode hidle hat.mem (by rw [hpc]; rfl) (by rw [hpc]; rfl)
        (by rw [State.popped, hpc]) rfl (by simp [State.popped, State.setServer]) rfl
        (fun _ => hgone) (.inl ⟨.inr rfl, rfl⟩) ⟨hlock, htail, hat⟩⟩
    · obtain ⟨post, hat⟩ := hat
      exact ⟨ns, h.setServer hidle hpc rfl rfl rfl ⟨hlock, post, hat.pass, .inr htail⟩⟩
  | remove z p q =>
    simp only [serverStep, hpc, Option.some_inj] at hstep
    subst hstep
    exact h.remove hidle hpc
  | setLast p =>
    simp only [serverStep, hpc, Option.some_inj] at hstep
    subst hstep
    exact ⟨ns, h.setOverflowLast hidle hpc⟩
  | unlock =>
    rw [hpc] at hok
    obtain ⟨hlock, htail⟩ := hok
    simp only [serverStep, hpc, Option.some_inj] at hstep
    subst hstep
    refine ⟨ns, h.goOn hidle hpc rfl rfl rfl (fun i hl => ?_) (fun _ => htail) trivial⟩
    rw [hlock] at hl
    cases Option.some_inj.mp hl
  | _ =>
    rw [hpc] at hlist
    exact hlist.elim

/-- Every step of the server's thread. -/
theorem Inv.of_serverStep (h : Inv s ns) {result spurious : Bool}
    (hstep : serverStep s result spurious = some s') : ∃ ns', Inv s' ns' := by
  rcases s.server.parts with hpc | hring | ⟨z, remaining, pos, item, hpc⟩ |
    ⟨z, remaining, item, hpc⟩ | hlist
  · simp [serverStep, hpc] at hstep
  · exact ⟨ns, h.of_ringStep hring hstep⟩
  · have hidle := h.idle_of_serverStep hstep
    simp only [serverStep, hpc, Option.some_inj] at hstep
    subst hstep
    exact ⟨ns, h.release hidle hpc⟩
  · exact ⟨ns, h.of_callStep hpc hstep⟩
  · exact h.of_listStep hlist hstep

/-- Every step of every thread. -/
theorem Inv.of_step (h : Inv s ns) {a : Act} (hwrap : NoFullWrap s a) (hstep : step s a = some s') :
    ∃ ns', Inv s' ns' := by
  cases a with
  | queueWorkProc i =>
    obtain ⟨hidle, rfl⟩ := step_queueWorkProc hstep
    exact ⟨ns, h.queueWorkProc hidle⟩
  | push th spurious =>
    obtain ⟨ns', -, h'⟩ := h.of_pushStep hwrap hstep
    exact ⟨ns', h'⟩
  | processWorkQueue z =>
    obtain ⟨hpc, rfl⟩ := step_processWorkQueue hstep
    have hidle := h.own fun z remaining hreq => by simp [hpc] at hreq
    exact ⟨ns, h.setServer hidle hpc rfl rfl rfl trivial⟩
  | server result spurious => exact h.of_serverStep hstep
  | clientGone tag =>
    obtain rfl := Option.some_inj.mp hstep
    refine ⟨ns, h.ring.congr rfl rfl rfl (fun _ => rfl) (fun _ => Iff.rfl),
      h.list.congr rfl rfl rfl rfl, fun th => (h.push th).rely ?_, h.apart,
      h.server.congr (Nat.le_refl _) rfl rfl rfl (fun _ _ => rfl) (fun _ _ hc => hc), h.own,
      h.items.congr (fun a x => ?_) fun _ => Iff.rfl, h.log.own, h.log.final, fun e he hz => ?_⟩
    · exact Rely.of_same rfl rfl rfl rfl rfl rfl rfl fun hl => ⟨hl, rfl⟩
    · cases a <;> exact Iff.rfl
    · show Function.update s.gone tag true e.item.client = true
      rw [Function.update_apply]
      split
      · rfl
      · exact h.log.zombie e he hz

end WorkQueue
