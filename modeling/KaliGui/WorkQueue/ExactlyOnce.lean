/-
Each work item is run until it is finished, and never afterwards.

* `ExactlyOnce` — what is so in a state: nothing is run that was not queued, nothing
  after it is finished, and what is not finished is in one place;
* `Ahead` — the call that is running will still come to an item;
* `runs_exactly_once` — every run of the threads keeps the former, and a whole call of
  `ProcessWorkQueue` runs every item that is there when it starts.
-/
import KaliGui.WorkQueue.Serving

namespace WorkQueue

open Links Tokens

variable {s s' : State} {ns ns' : List ℕ} {th : Thread} {z : Bool} {item : WorkItem}

/-! ### What the pushing threads leave alone -/

/-- What a step of a pushing thread leaves as it is. -/
structure Frame (s : State) (ns : List ℕ) (s' : State) : Prop where
  server : s'.server = s.server
  log : s'.log = s.log
  gone : s'.gone = s.gone
  dequeuePos : s'.dequeuePos = s.dequeuePos
  enqueuePos : s.enqueuePos ≤ s'.enqueuePos
  claimed : ∀ pos, pos < s.enqueuePos → s'.Claimed pos → s.Claimed pos
  item : ∀ pos, s.released ≤ pos → pos < s.enqueuePos → ¬ s.Claimed pos →
    (s'.cellAt pos).item = (s.cellAt pos).item
  nodeItem : ∀ n ∈ ns, s'.nodeItem n = s.nodeItem n

/-- A step that writes no cell and claims nothing. -/
theorem Frame.of_setPush {pc : Push} (hpush : s'.push = Function.update s.push th pc)
    (hclaim : ∀ pos, pc.claim = some pos → (s.push th).claim = some pos ∨ s.enqueuePos ≤ pos)
    (hserver : s'.server = s.server) (hlog : s'.log = s.log) (hgone : s'.gone = s.gone)
    (hdeq : s'.dequeuePos = s.dequeuePos) (henq : s.enqueuePos ≤ s'.enqueuePos)
    (hcell : ∀ pos, s.released ≤ pos → pos < s.enqueuePos → ¬ s.Claimed pos →
      (s'.cellAt pos).item = (s.cellAt pos).item)
    (hnodeItem : ∀ n ∈ ns, s'.nodeItem n = s.nodeItem n) : Frame s ns s' := by
  refine ⟨hserver, hlog, hgone, hdeq, henq, fun pos hlt => ?_, hcell, hnodeItem⟩
  rintro ⟨th', hc⟩
  rw [hpush, Function.update_apply] at hc
  split at hc
  · rename_i hth
    rcases hclaim pos hc with hold | hle
    · exact ⟨th, hold⟩
    · exact absurd hlt (Nat.not_lt.mpr hle)
  · exact ⟨th', hc⟩

/-- A step of one thread that leaves the ring and the nodes as they are. -/
theorem Frame.of_same {pc : Push} (hpush : s'.push = Function.update s.push th pc)
    (hclaim : pc.claim = none) (hserver : s'.server = s.server) (hlog : s'.log = s.log)
    (hgone : s'.gone = s.gone) (hdeq : s'.dequeuePos = s.dequeuePos)
    (henq : s'.enqueuePos = s.enqueuePos) (hcell : s'.cell = s.cell)
    (hnodeItem : s'.nodeItem = s.nodeItem) : Frame s ns s' := by
  refine Frame.of_setPush hpush (fun pos hpos => ?_) hserver hlog hgone hdeq
    (Nat.le_of_eq henq.symm) (fun pos _ _ _ => ?_) fun n _ => congrFun hnodeItem n
  · exact nomatch hclaim.symm.trans hpos
  · rw [State.cellAt, State.cellAt, hcell]

/-- Writing the item of a claimed cell. -/
theorem Inv.frame_setItem (h : Inv s ns) {pos : ℕ} (hclaim : (s.push th).claim = some pos)
    (x : WorkItem) {pc : Push} (hclaim' : pc.claim = some pos) :
    Frame s ns ((s.setItem pos x).setPush th pc) := by
  refine Frame.of_setPush rfl (fun p hp => .inl ?_) rfl rfl rfl rfl (Nat.le_refl _)
    (fun p hle hlt hnot => ?_) fun _ _ => rfl
  · rw [hclaim, ← hclaim', hp]
  · have hne : p ≠ pos := by
      rintro rfl
      exact hnot ⟨th, hclaim⟩
    have hwin : p < s.released + ringSize := Nat.lt_of_lt_of_le hlt h.ring.room
    exact congrArg Cell.item (h.cellAt_of_claim hclaim _ ⟨hle, hwin⟩ hne)

theorem Inv.frame_pushStep (h : Inv s ns) {spurious : Bool}
    (hwrap : NoFullWrap s (.push th spurious)) (hstep : pushStep s th spurious = some s') :
    Frame s ns s' := by
  rw [pushStep] at hstep
  have hok := h.push th
  cases hpc : s.push th with
  | idle => simp [hpc] at hstep
  | load item =>
    simp only [hpc, Option.some_inj] at hstep
    subst hstep
    exact Frame.of_same rfl rfl rfl rfl rfl rfl rfl rfl rfl
  | sequence item pos =>
    simp only [hpc] at hstep
    have hframe : ∀ pc : Push, pc.claim = none → Frame s ns (s.setPush th pc) := fun pc hclaim =>
      Frame.of_same rfl hclaim rfl rfl rfl rfl rfl rfl rfl
    split at hstep
    · obtain rfl := Option.some_inj.mp hstep
      exact hframe _ rfl
    · split at hstep <;> obtain rfl := Option.some_inj.mp hstep <;> exact hframe _ rfl
  | cas item pos =>
    rw [hpc] at hok
    simp only [hpc] at hstep
    split at hstep
    · rename_i hswap
      obtain rfl := Option.some_inj.mp hstep
      obtain rfl : s.enqueuePos = pos := sameWord_of_near hswap.1 hok.1 (hwrap item pos hpc)
      -- what it claims is behind everything that was there
      refine Frame.of_setPush rfl (fun p hp => .inr ?_) rfl rfl rfl rfl (Nat.le_succ _)
        (fun _ _ _ _ => rfl) fun _ _ => rfl
      exact Nat.le_of_eq (Option.some_inj.mp hp)
    · obtain rfl := Option.some_inj.mp hstep
      exact Frame.of_same rfl rfl rfl rfl rfl rfl rfl rfl rfl
  | function item pos =>
    simp only [hpc, Option.some_inj] at hstep
    subst hstep
    exact h.frame_setItem (by rw [hpc, Push.claim]) _ (by rw [Push.claim])
  | client item pos =>
    simp only [hpc, Option.some_inj] at hstep
    subst hstep
    exact h.frame_setItem (by rw [hpc, Push.claim]) _ (by rw [Push.claim])
  | closure item pos =>
    simp only [hpc, Option.some_inj] at hstep
    subst hstep
    exact h.frame_setItem (by rw [hpc, Push.claim]) _ (by rw [Push.claim])
  | publish item pos =>
    simp only [hpc, Option.some_inj] at hstep
    subst hstep
    exact Frame.of_setPush rfl (by simp [Push.claim]) rfl rfl rfl rfl (Nat.le_refl _)
      (fun p _ _ _ => setSequence_item s pos _ p) fun _ _ => rfl
  | alloc item =>
    simp only [hpc, Option.some_inj] at hstep
    subst hstep
    refine Frame.of_setPush rfl (by simp [Push.claim]) rfl rfl rfl rfl (Nat.le_refl _)
      (fun _ _ _ _ => rfl) fun n hn => ?_
    exact Function.update_of_ne (Nat.ne_of_lt (h.list.lt n hn)) ..
  | lock item node =>
    simp only [hpc] at hstep
    split at hstep
    · obtain rfl := Option.some_inj.mp hstep
      exact Frame.of_same rfl rfl rfl rfl rfl rfl rfl rfl rfl
    · simp at hstep
  | link item node =>
    simp only [hpc, Option.some_inj] at hstep
    subst hstep
    exact Frame.of_same rfl rfl rfl rfl rfl rfl rfl rfl rfl
  | setLast node =>
    simp only [hpc, Option.some_inj] at hstep
    subst hstep
    exact Frame.of_same rfl rfl rfl rfl rfl rfl rfl rfl rfl
  | unlock =>
    simp only [hpc, Option.some_inj] at hstep
    subst hstep
    exact Frame.of_same rfl rfl rfl rfl rfl rfl rfl rfl rfl

/-! ### What the running call will come to -/

def Server.running : Server → Bool
  | .idle => false
  | _ => true

theorem Server.running_eq_false {pc : Server} : pc.running = false ↔ pc = .idle := by
  cases pc <;> simp [Server.running]

/-- Whether the running call is of the zombie sibling. -/
def Server.kind : Server → Option Bool
  | .idle | .setLast _ | .unlock => none
  | .countTail z | .countHead z _ | .scan z _ | .sequence z _ _ | .cas z _ _ | .function z _ _
  | .client z _ _ _ | .closure z _ _ _ _ | .release z _ _ _ | .call z _ _ | .requeue z _
  | .lock z | .next z _ | .remove z _ _ => some z
  | .unlockNode _ _ | .callNode _ _ | .relock _ _ _ => some false
  | .zombieNode _ _ => some true

/-- The running call pops no position from here on. -/
def State.limit (s : State) : ℕ :=
  match s.server with
  | .countTail _ | .countHead _ _ => s.enqueuePos
  | .sequence _ remaining _ | .cas _ remaining _ => s.dequeuePos + remaining + 1
  | .scan _ remaining | .function _ remaining _ | .client _ remaining _ _
  | .closure _ remaining _ _ _ | .release _ remaining _ _ | .call _ remaining _
  | .requeue _ remaining => s.dequeuePos + remaining
  | _ => s.dequeuePos

/-- The running call has not come to the node yet. -/
def Unvisited (ns : List ℕ) (n : ℕ) : Server → Prop
  | .idle | .setLast _ | .unlock => False
  | .next _ p => ∃ post, AtPointer ns p post ∧ n ∈ post
  | .unlockNode p q | .callNode p q | .zombieNode p q =>
    ∃ post, AtPointer ns p (q :: post) ∧ n ∈ q :: post
  | .relock p q _ | .remove _ p q => ∃ post, AtPointer ns p (q :: post) ∧ n ∈ post
  | _ => n ∈ ns

/-- The item is in the ring before the limit, and nothing before it is unpublished. -/
def InRing (s : State) (limit : ℕ) (item : WorkItem) : Prop :=
  ∃ pos, s.dequeuePos ≤ pos ∧ pos < limit ∧ (∀ p, s.dequeuePos ≤ p → p ≤ pos → s.Published p) ∧
    (s.cellAt pos).item = item

/-- The running call will come to the item. -/
structure Ahead (s : State) (ns : List ℕ) (z : Bool) (item : WorkItem) : Prop where
  kind : s.server.kind = some z
  place : s.popped = some item ∨ InRing s s.limit item ∨
    ∃ n, Unvisited ns n s.server ∧ s.nodeItem n = item

theorem AtPointer.mono {p : Option ℕ} {post : List ℕ} (h : AtPointer ns p post) (rest : List ℕ) :
    AtPointer (ns ++ rest) p (post ++ rest) := by
  obtain ⟨pre, rfl, hp⟩ := h
  exact ⟨pre, List.append_assoc .., hp⟩

theorem AtPointer.subset {p : Option ℕ} {post : List ℕ} (h : AtPointer ns p post) : post ⊆ ns := by
  obtain ⟨pre, rfl, -⟩ := h
  exact List.subset_append_right ..

/-- The pushing threads take nothing from what is ahead. -/
theorem Unvisited.mono {n : ℕ} {pc : Server} (h : Unvisited ns n pc) (hns : ns <+: ns') :
    Unvisited ns' n pc := by
  obtain ⟨rest, rfl⟩ := hns
  cases pc with
  | idle => exact h
  | setLast p => exact h
  | unlock => exact h
  | next z p =>
    obtain ⟨post, hat, hn⟩ := h
    exact ⟨post ++ rest, hat.mono rest, List.mem_append_left rest hn⟩
  | unlockNode p q =>
    obtain ⟨post, hat, hn⟩ := h
    exact ⟨post ++ rest, hat.mono rest, List.mem_append_left rest hn⟩
  | callNode p q =>
    obtain ⟨post, hat, hn⟩ := h
    exact ⟨post ++ rest, hat.mono rest, List.mem_append_left rest hn⟩
  | zombieNode p q =>
    obtain ⟨post, hat, hn⟩ := h
    exact ⟨post ++ rest, hat.mono rest, List.mem_append_left rest hn⟩
  | relock p q result =>
    obtain ⟨post, hat, hn⟩ := h
    exact ⟨post ++ rest, hat.mono rest, List.mem_append_left rest hn⟩
  | remove z p q =>
    obtain ⟨post, hat, hn⟩ := h
    exact ⟨post ++ rest, hat.mono rest, List.mem_append_left rest hn⟩
  | _ => exact List.mem_append_left rest h

theorem Unvisited.mem {n : ℕ} {pc : Server} (h : Unvisited ns n pc) : n ∈ ns := by
  cases pc with
  | idle => exact h.elim
  | setLast p => exact h.elim
  | unlock => exact h.elim
  | next z p =>
    obtain ⟨post, hat, hn⟩ := h
    exact hat.subset hn
  | unlockNode p q =>
    obtain ⟨post, hat, hn⟩ := h
    exact hat.subset hn
  | callNode p q =>
    obtain ⟨post, hat, hn⟩ := h
    exact hat.subset hn
  | zombieNode p q =>
    obtain ⟨post, hat, hn⟩ := h
    exact hat.subset hn
  | relock p q result =>
    obtain ⟨post, hat, hn⟩ := h
    exact hat.subset (List.mem_cons_of_mem q hn)
  | remove z p q =>
    obtain ⟨post, hat, hn⟩ := h
    exact hat.subset (List.mem_cons_of_mem q hn)
  | _ => exact h

theorem Frame.popped (hf : Frame s ns s') (h : Inv s ns) : s'.popped = s.popped := by
  refine popped_congr hf.server fun pos hpop => ?_
  obtain ⟨hdeq, hle, -⟩ := h.window_of_popping hpop
  have henq := h.ring.le
  refine hf.item pos hle (by omega) fun hc => ?_
  have := (h.claimed hc).le
  omega

theorem Frame.inRing (hf : Frame s ns s') (h : Inv s ns) {limit limit' : ℕ}
    (hlimit : limit ≤ limit') (hring : InRing s limit item) : InRing s' limit' item := by
  obtain ⟨pos, hle, hlt, hpub, hitem⟩ := hring
  obtain ⟨-, henq, hnot⟩ := hpub pos hle (Nat.le_refl _)
  have hrel := h.ring.released_le
  refine ⟨pos, hf.dequeuePos ▸ hle, Nat.lt_of_lt_of_le hlt hlimit, fun p hp hpos => ?_, ?_⟩
  · obtain ⟨hp', hlt', hnot'⟩ := hpub p (hf.dequeuePos ▸ hp) hpos
    exact ⟨hp, Nat.lt_of_lt_of_le hlt' hf.enqueuePos, fun hc => hnot' (hf.claimed p hlt' hc)⟩
  · rw [hf.item pos (by omega) henq hnot, hitem]

theorem Frame.limit_le (hf : Frame s ns s') : s.limit ≤ s'.limit := by
  rw [State.limit, State.limit, hf.server, hf.dequeuePos]
  cases s.server <;> first | exact hf.enqueuePos | exact Nat.le_refl _

/-- The pushing threads leave what is ahead where it is. -/
theorem Ahead.frame (ha : Ahead s ns z item) (h : Inv s ns) (hf : Frame s ns s')
    (hns : ns <+: ns') : Ahead s' ns' z item := by
  refine ⟨hf.server ▸ ha.kind, ?_⟩
  rcases ha.place with hpop | hring | ⟨n, hn, hitem⟩
  · exact .inl ((hf.popped h).trans hpop)
  · exact .inr (.inl (hf.inRing h hf.limit_le hring))
  · exact .inr (.inr ⟨n, hf.server ▸ hn.mono hns, (hf.nodeItem n hn.mem).trans hitem⟩)

/-! ### The running call goes on -/

theorem InRing.mono {limit limit' : ℕ} (h : InRing s limit item) (hle : limit ≤ limit') :
    InRing s limit' item := by
  obtain ⟨pos, hpos, hlt, h⟩ := h
  exact ⟨pos, hpos, Nat.lt_of_lt_of_le hlt hle, h⟩

theorem not_inRing (s : State) (item : WorkItem) : ¬ InRing s s.dequeuePos item := by
  rintro ⟨pos, hle, hlt, -⟩
  omega

/-- `head - tail`, which the ring is too small to wrap. -/
theorem RingInv.count_eq (h : RingInv s) :
    (s.enqueuePos + (wordSize - s.dequeuePos % wordSize)) % wordSize =
      s.enqueuePos - s.dequeuePos := by
  have hle := h.le
  have hroom := h.room
  have hrel := h.released_le
  rw [wordSize, ringSize] at *
  omega

theorem InRing.sameWord {limit : ℕ} (hring : InRing s limit item) (h : Inv s ns) :
    SameWord (s.cellAt s.dequeuePos).sequence (s.dequeuePos + 1) := by
  obtain ⟨pos, hle, -, hpub, -⟩ := hring
  obtain ⟨-, hlt, hnot⟩ := hpub s.dequeuePos (Nat.le_refl _) hle
  rw [h.ring.taken s.dequeuePos h.ring.released_le hlt hnot]
  rfl

/-- What was the first item of the ring is popped, the others stay ahead. -/
theorem InRing.pop {limit : ℕ} (hring : InRing s limit item) :
    (s.cellAt s.dequeuePos).item = item ∨
      InRing { s with dequeuePos := s.dequeuePos + 1 } limit item := by
  obtain ⟨pos, hle, hlt, hpub, hitem⟩ := hring
  by_cases hpos : pos = s.dequeuePos
  · exact .inl (hpos ▸ hitem)
  · refine .inr ⟨pos, ?_, hlt, fun p hp hp' => ?_, hitem⟩
    · show s.dequeuePos + 1 ≤ pos
      omega
    · have hp : s.dequeuePos + 1 ≤ p := hp
      obtain ⟨-, hrest⟩ := hpub p (by omega) hp'
      exact ⟨hp, hrest⟩

theorem Ahead.goOn (ha : Ahead s ns z item) {pc : Server} (hpc : s.server = pc)
    (hkind : s'.server.kind = pc.kind)
    (hpopped : (s.setServer pc).popped = some item → s'.popped = some item)
    (hring : InRing s (s.setServer pc).limit item →
      s'.popped = some item ∨ InRing s' s'.limit item)
    (hlist : ∀ n, Unvisited ns n pc → Unvisited ns' n s'.server)
    (hnodeItem : s'.nodeItem = s.nodeItem) : Ahead s' ns' z item := by
  subst hpc
  refine ⟨hkind ▸ ha.kind, ?_⟩
  rcases ha.place with hpop | hr | ⟨n, hn, hitem⟩
  · exact .inl (hpopped hpop)
  · exact (hring hr).imp_right .inl
  · exact .inr (.inr ⟨n, hlist n hn, hnodeItem ▸ hitem⟩)

/-- The running call has run the item, with this step. -/
def RunsNow (s s' : State) (z : Bool) (item : WorkItem) : Prop :=
  ∃ e, s'.log = s.log ++ [e] ∧ e.item = item ∧ e.zombie = z

/-- A step in the ring. -/
theorem Ahead.of_ringStep (ha : Ahead s ns z item) (h : Inv s ns) {result spurious : Bool}
    (hring : s.server.InRingPop)
    (hstep : serverStep s result spurious = some s') : Ahead s' ns z item := by
  have hok := h.server
  have hidle := h.idle_of_serverStep hstep
  cases hpc : s.server with
  | countTail z =>
    simp only [serverStep, hpc, Option.some_inj] at hstep
    subst hstep
    exact ha.goOn hpc rfl (fun hp => by cases hp) .inr (fun _ => id) rfl
  | countHead z tail =>
    rw [hpc] at hok
    simp only [serverStep, hpc, Option.some_inj] at hstep
    subst hstep
    obtain rfl : tail = s.dequeuePos := hok
    refine ha.goOn hpc rfl (fun hp => by cases hp) (fun hr => .inr (InRing.mono hr ?_))
      (fun _ => id) rfl
    -- the count reaches to the last position that has been claimed
    show s.enqueuePos ≤ s.dequeuePos + _
    rw [h.ring.count_eq]
    omega
  | scan z remaining =>
    simp only [serverStep, hpc] at hstep
    split at hstep <;> obtain rfl := Option.some_inj.mp hstep
    · rename_i hzero
      subst hzero
      exact ha.goOn hpc rfl (fun hp => by cases hp) .inr (fun _ => id) rfl
    · refine ha.goOn hpc rfl (fun hp => by cases hp) (fun hr => .inr (InRing.mono hr ?_))
        (fun _ => id) rfl
      show s.dequeuePos + remaining ≤ s.dequeuePos + (remaining - 1) + 1
      omega
  | sequence z remaining pos =>
    rw [hpc] at hok
    simp only [serverStep, hpc] at hstep
    obtain rfl : pos = s.dequeuePos := hok
    split at hstep
    · obtain rfl := Option.some_inj.mp hstep
      exact ha.goOn hpc rfl (fun hp => by cases hp) .inr (fun _ => id) rfl
    · rename_i hseq
      split at hstep <;> obtain rfl := Option.some_inj.mp hstep
      · -- the first position is not published, so nothing in the ring is ahead
        exact ha.goOn hpc rfl (fun hp => by cases hp)
          (fun hr => absurd (InRing.sameWord hr h) hseq) (fun _ => id) rfl
      · exact ha.goOn hpc rfl (fun hp => by cases hp)
          (fun hr => absurd (InRing.sameWord hr h) hseq) (fun _ => id) rfl
  | cas z remaining pos =>
    rw [hpc] at hok
    simp only [serverStep, hpc] at hstep
    split at hstep <;> obtain rfl := Option.some_inj.mp hstep
    · obtain ⟨rfl, -, -⟩ := hok
      refine ha.goOn hpc rfl (fun hp => by cases hp) (fun hr => ?_) (fun _ => id) rfl
      -- the item is at the position that is taken, or behind it
      refine (InRing.pop hr).imp (congrArg some) fun hr => InRing.mono hr ?_
      show s.dequeuePos + remaining + 1 ≤ s.dequeuePos + 1 + remaining
      omega
    · exact ha.goOn hpc rfl (fun hp => by cases hp) .inr (fun _ => id) rfl
  | function z remaining pos =>
    simp only [serverStep, hpc, Option.some_inj] at hstep
    subst hstep
    exact ha.goOn hpc rfl id .inr (fun _ => id) rfl
  | client z remaining pos f =>
    simp only [serverStep, hpc, Option.some_inj] at hstep
    subst hstep
    exact ha.goOn hpc rfl id .inr (fun _ => id) rfl
  | closure z remaining pos f c =>
    simp only [serverStep, hpc, Option.some_inj] at hstep
    subst hstep
    exact ha.goOn hpc rfl id .inr (fun _ => id) rfl
  | requeue z remaining =>
    simp only [serverStep, hpc] at hstep
    rw [hidle] at hstep
    obtain rfl := Option.some_inj.mp hstep
    exact ha.goOn hpc rfl (fun hp => by cases hp) .inr (fun _ => id) rfl
  | _ =>
    rw [hpc] at hring
    exact hring.elim

/-- The item that is popped is called, or goes on being popped. -/
theorem Ahead.of_release (ha : Ahead s ns z item) (h : Inv s ns) {z' : Bool} {remaining pos : ℕ}
    {x : WorkItem} (hpc : s.server = .release z' remaining pos x) :
    Ahead ((s.setSequence pos (pos + ringSize)).setServer (.call z' remaining x)) ns z item := by
  have hok := h.server
  rw [hpc] at hok
  have hx : x = (s.cellAt pos).item := hok
  refine ha.goOn hpc rfl (fun hpop => ?_) (fun hr => .inr ?_) (fun _ => id) rfl
  · rw [← Option.some_inj.mp hpop]
    exact congrArg some hx
  · obtain ⟨p, hle, hlt, hpub, hitem⟩ := hr
    exact ⟨p, hle, hlt, hpub, (setSequence_item s pos _ p).trans hitem⟩

theorem Ahead.of_callStep (ha : Ahead s ns z item) (h : Inv s ns)
    (hgone : z = true → s.gone item.client = true) {result spurious z' : Bool} {remaining : ℕ}
    {x : WorkItem} (hpc : s.server = .call z' remaining x)
    (hstep : serverStep s result spurious = some s') :
    RunsNow s s' z item ∨ Ahead s' ns z item := by
  have hidle := h.idle_of_serverStep hstep
  have hkind := ha.kind
  rw [hpc] at hkind
  obtain rfl : z' = z := Option.some_inj.mp hkind
  -- once the item is put back, no cell is claimed that was not
  have hagain : ∀ log, ¬ x = item → Ahead (({ s with log := log }.setPush none
      (.load x)).setServer (.requeue z' remaining)) ns z' item := by
    intro log hx
    refine ha.goOn hpc rfl (fun hpop => ?_) (fun hr => .inr ?_) (fun _ => id) rfl
    · exact absurd (Option.some_inj.mp hpop) hx
    · have hframe : Frame s ns ({ s with log := s.log }.setPush none (.load x)) :=
        Frame.of_same rfl rfl rfl rfl rfl rfl rfl rfl rfl
      exact hframe.inRing h (Nat.le_refl _) hr
  have hdone : ∀ log, ¬ x = item →
      Ahead ({ s with log := log }.setServer (.scan z' remaining)) ns z' item := by
    intro log hx
    refine ha.goOn hpc rfl (fun hpop => ?_) .inr (fun _ => id) rfl
    exact absurd (Option.some_inj.mp hpop) hx
  cases z' with
  | false =>
    simp only [serverStep, hpc] at hstep
    by_cases hx : x = item
    · refine .inl ⟨⟨x, result, false⟩, ?_, hx, rfl⟩
      cases result <;> obtain rfl := Option.some_inj.mp hstep <;> rfl
    · right
      cases result <;> obtain rfl := Option.some_inj.mp hstep
      · exact hagain _ hx
      · exact hdone _ hx
  | true =>
    simp only [serverStep, hpc] at hstep
    split at hstep <;> obtain rfl := Option.some_inj.mp hstep
    · by_cases hx : x = item
      · exact .inl ⟨⟨x, result, true⟩, rfl, hx, rfl⟩
      · exact .inr (hdone _ hx)
    · rename_i hlives
      refine .inr (hagain s.log ?_)
      rintro rfl
      exact hlives (hgone rfl)

/-- Outside of the ring phase nothing in the ring is ahead. -/
theorem Ahead.unvisited (ha : Ahead s ns z item) {pc : Server} (hpc : s.server = pc)
    (hpopped : (s.setServer pc).popped = none) (hlimit : (s.setServer pc).limit = s.dequeuePos) :
    pc.kind = some z ∧ ∃ n, Unvisited ns n pc ∧ s.nodeItem n = item := by
  subst hpc
  refine ⟨ha.kind, ?_⟩
  rcases ha.place with hpop | hring | hlist
  · exact nomatch hpopped.symm.trans hpop
  · exact absurd hring (hlimit ▸ not_inRing s item)
  · exact hlist

/-- A step in the list. -/
theorem Ahead.of_listStep (ha : Ahead s ns z item) (h : Inv s ns) (h' : Inv s' ns')
    (hgone : z = true → s.gone item.client = true) {result spurious : Bool}
    (hlist : s.server.InList) (hstep : serverStep s result spurious = some s') :
    RunsNow s s' z item ∨ Ahead s' ns' z item := by
  cases hpc : s.server with
  | lock z' =>
    obtain ⟨hkind, n, hn, hitem⟩ := ha.unvisited hpc rfl rfl
    simp only [serverStep, hpc] at hstep
    split at hstep
    · obtain rfl := Option.some_inj.mp hstep
      obtain rfl := h.nodes_eq h' rfl
      exact .inr ⟨hkind, .inr (.inr ⟨n, ⟨ns', ⟨[], rfl, rfl⟩, hn⟩, hitem⟩)⟩
    · simp at hstep
  | next z' p =>
    obtain ⟨hkind, n, hn, hitem⟩ := ha.unvisited hpc rfl rfl
    obtain ⟨post, hat, hn⟩ := hn
    have hnext := h.next_eq hat
    cases post with
    | nil => cases hn
    | cons q post =>
      -- the two siblings go on to different steps, with the same node in front of them
      simp only [serverStep, hpc, hnext, List.head?_cons, Option.some_inj] at hstep
      subst hstep
      obtain rfl := h.nodes_eq h' rfl
      obtain rfl : z' = z := Option.some_inj.mp hkind
      refine .inr ⟨?_, .inr (.inr ⟨n, ?_, hitem⟩)⟩
      · cases z' <;> rfl
      · cases z' <;> exact ⟨post, hat, hn⟩
  | unlockNode p q =>
    obtain ⟨hkind, n, hn, hitem⟩ := ha.unvisited hpc rfl rfl
    simp only [serverStep, hpc, Option.some_inj] at hstep
    subst hstep
    obtain rfl := h.nodes_eq h' rfl
    exact .inr ⟨hkind, .inr (.inr ⟨n, hn, hitem⟩)⟩
  | callNode p q =>
    obtain ⟨hkind, n, hn, hitem⟩ := ha.unvisited hpc rfl rfl
    obtain ⟨post, hat, hn⟩ := hn
    simp only [serverStep, hpc, Option.some_inj] at hstep
    subst hstep
    obtain rfl := h.nodes_eq h' rfl
    -- the node is the one that is run, or one behind it
    rcases List.mem_cons.mp hn with rfl | hn
    · exact .inl ⟨_, rfl, hitem, Option.some_inj.mp hkind⟩
    · exact .inr ⟨hkind, .inr (.inr ⟨n, ⟨post, hat, hn⟩, hitem⟩)⟩
  | relock p q r =>
    obtain ⟨hkind, n, hn, hitem⟩ := ha.unvisited hpc rfl rfl
    obtain ⟨post, hat, hn⟩ := hn
    simp only [serverStep, hpc] at hstep
    split at hstep
    · obtain rfl := Option.some_inj.mp hstep
      obtain rfl := h.nodes_eq h' rfl
      refine .inr ⟨?_, .inr (.inr ⟨n, ?_, hitem⟩)⟩
      · cases r <;> exact hkind
      · cases r
        · exact ⟨post, hat.pass, hn⟩
        · exact ⟨post, hat, hn⟩
    · simp at hstep
  | zombieNode p q =>
    obtain ⟨hkind, n, hn, hitem⟩ := ha.unvisited hpc rfl rfl
    obtain ⟨post, hat, hn⟩ := hn
    obtain rfl : true = z := Option.some_inj.mp hkind
    simp only [serverStep, hpc] at hstep
    split at hstep <;> obtain rfl := Option.some_inj.mp hstep <;> obtain rfl := h.nodes_eq h' rfl
    · rcases List.mem_cons.mp hn with rfl | hn
      · exact .inl ⟨_, rfl, hitem, rfl⟩
      · exact .inr ⟨rfl, .inr (.inr ⟨n, ⟨post, hat, hn⟩, hitem⟩)⟩
    · -- only a node of a client that lives is passed
      rename_i hlives
      refine .inr ⟨rfl, .inr (.inr ⟨n, ⟨post, hat.pass, ?_⟩, hitem⟩)⟩
      rcases List.mem_cons.mp hn with rfl | hn
      · exact absurd (hgone rfl) (hitem ▸ hlives)
      · exact hn
  | remove z' p q =>
    obtain ⟨hkind, n, hn, hitem⟩ := ha.unvisited hpc rfl rfl
    obtain ⟨post, ⟨pre, rfl, rfl⟩, hn⟩ := hn
    simp only [serverStep, hpc, Option.some_inj] at hstep
    subst hstep
    have hchain := h.list.chain.remove h.list.nodup (by simp)
    obtain rfl := h'.list.chain.unique hchain
    exact .inr ⟨hkind, .inr (.inr ⟨n, ⟨post, ⟨pre, rfl, rfl⟩, hn⟩, hitem⟩)⟩
  | setLast p => cases (ha.unvisited hpc rfl rfl).1
  | unlock => cases (ha.unvisited hpc rfl rfl).1
  | _ =>
    rw [hpc] at hlist
    exact hlist.elim

/-- What is ahead of the running call is run, or stays ahead. -/
theorem Ahead.of_serverStep (ha : Ahead s ns z item) (h : Inv s ns) (h' : Inv s' ns')
    (hgone : z = true → s.gone item.client = true) {result spurious : Bool}
    (hstep : serverStep s result spurious = some s') :
    RunsNow s s' z item ∨ Ahead s' ns' z item := by
  -- the list is the same as long as its pointers are
  have hsame : ∀ ns₁, Inv s' ns₁ → ns' = ns₁ := fun ns₁ h₁ => h'.list.chain.unique h₁.list.chain
  rcases s.server.parts with hpc | hring | ⟨z', r, pos, x, hpc⟩ | ⟨z', r, x, hpc⟩ | hlist
  · simp [serverStep, hpc] at hstep
  · obtain rfl := hsame ns (h.of_ringStep hring hstep)
    exact .inr (ha.of_ringStep h hring hstep)
  · have hidle := h.idle_of_serverStep hstep
    simp only [serverStep, hpc, Option.some_inj] at hstep
    subst hstep
    obtain rfl := hsame ns (h.release hidle hpc)
    exact .inr (ha.of_release h hpc)
  · obtain rfl := hsame ns (h.of_callStep hpc hstep)
    exact ha.of_callStep h hgone hpc hstep
  · exact ha.of_listStep h h' hgone hlist hstep

theorem Ahead.of_step (ha : Ahead s ns z item) (h : Inv s ns)
    (hgone : z = true → s.gone item.client = true) {a : Act} (hwrap : NoFullWrap s a)
    (hstep : step s a = some s') :
    ∃ ns', Inv s' ns' ∧ (RunsNow s s' z item ∨ Ahead s' ns' z item) := by
  cases a with
  | queueWorkProc i =>
    obtain ⟨hidle, rfl⟩ := step_queueWorkProc hstep
    have hframe : Frame s ns ({ s with queued := s.queued + 1 }.setPush (some i)
        (.load (.of s.queued))) :=
      Frame.of_same rfl rfl rfl rfl rfl rfl rfl rfl rfl
    exact ⟨ns, h.queueWorkProc hidle, .inr (ha.frame h hframe (List.prefix_refl _))⟩
  | push th spurious =>
    obtain ⟨ns', hns, h'⟩ := h.of_pushStep hwrap hstep
    exact ⟨ns', h', .inr (ha.frame h (h.frame_pushStep hwrap hstep) hns)⟩
  | processWorkQueue z' =>
    have hkind := ha.kind
    rw [(step_processWorkQueue hstep).1] at hkind
    exact nomatch hkind
  | server result spurious =>
    obtain ⟨ns', h'⟩ := h.of_serverStep hstep
    exact ⟨ns', h', ha.of_serverStep h h' hgone hstep⟩
  | clientGone tag =>
    obtain ⟨ns', h'⟩ := h.of_step hwrap hstep
    obtain rfl := Option.some_inj.mp hstep
    obtain rfl := h'.list.chain.unique h.list.chain
    exact ⟨ns', h', .inr (ha.goOn rfl rfl id .inr (fun _ => id) rfl)⟩

/-! ### Over runs -/

/-- What a step of the server's thread does outside of the queue. -/
theorem serverStep_log {result spurious : Bool} (hstep : serverStep s result spurious = some s') :
    (∃ rest, s'.log = s.log ++ rest) ∧ s'.gone = s.gone ∧ s'.enqueuePos = s.enqueuePos := by
  rw [serverStep] at hstep
  split at hstep <;> (try dsimp only at hstep) <;> repeat' split at hstep
  all_goals first
    | (obtain rfl := Option.some_inj.mp hstep; exact ⟨⟨[], (List.append_nil _).symm⟩, rfl, rfl⟩)
    | (obtain rfl := Option.some_inj.mp hstep; exact ⟨⟨_, rfl⟩, rfl, rfl⟩)
    | (exact absurd hstep (by simp))

theorem pushStep_log {spurious : Bool} (hstep : pushStep s th spurious = some s') :
    s'.log = s.log ∧ s'.gone = s.gone ∧ s'.enqueuePos ≤ s.enqueuePos + 1 := by
  rw [pushStep] at hstep
  split at hstep <;> (try dsimp only at hstep) <;> repeat' split at hstep
  all_goals first
    | (obtain rfl := Option.some_inj.mp hstep
       exact ⟨rfl, rfl, by first | exact Nat.le_succ _ | exact Nat.le_refl _⟩)
    | (exact absurd hstep (by simp))

/-- Nothing is taken from the log, and no client comes back. -/
theorem step_log {a : Act} (hstep : step s a = some s') :
    (∃ rest, s'.log = s.log ++ rest) ∧ (∀ tag, s.gone tag = true → s'.gone tag = true) ∧
      s'.enqueuePos ≤ s.enqueuePos + 1 := by
  have hnil : s.log = s.log ++ [] := (List.append_nil _).symm
  cases a with
  | queueWorkProc i =>
    obtain ⟨-, rfl⟩ := step_queueWorkProc hstep
    exact ⟨⟨[], hnil⟩, fun _ => id, Nat.le_succ _⟩
  | push th spurious =>
    obtain ⟨hlog, hgone, henq⟩ := pushStep_log hstep
    exact ⟨⟨[], hlog.trans hnil⟩, fun tag ht => hgone ▸ ht, henq⟩
  | processWorkQueue z =>
    obtain ⟨-, rfl⟩ := step_processWorkQueue hstep
    exact ⟨⟨[], hnil⟩, fun _ => id, Nat.le_succ _⟩
  | server result spurious =>
    obtain ⟨hlog, hgone, henq⟩ := serverStep_log hstep
    exact ⟨hlog, fun tag ht => hgone ▸ ht, henq ▸ Nat.le_succ _⟩
  | clientGone tag =>
    obtain rfl := Option.some_inj.mp hstep
    refine ⟨⟨[], hnil⟩, fun tag' ht => ?_, Nat.le_succ _⟩
    show Function.update s.gone tag true tag' = true
    rw [Function.update_apply]
    split
    · rfl
    · exact ht

/-- No run of fewer than `2 ^ 64` steps is long enough for a whole wrap. -/
theorem noFullWrap_of_short {as : List Act} (h : s.enqueuePos + as.length < wordSize) :
    Machine.Meets step NoFullWrap s as := by
  induction as generalizing s with
  | nil => trivial
  | cons a as ih =>
    rw [List.length_cons] at h
    refine ⟨?_, fun s' hs' => ih ?_⟩
    · cases a <;> first | trivial | exact fun item pos _ => by omega
    · have := (step_log hs').2.2
      omega

/-- A producer that has called nothing is idle. -/
theorem idle_of_uncalled {i : ℕ} {as : List Act} (hcalls : .queueWorkProc i ∉ as)
    (hidle : s.push (some i) = .idle) (hrun : Machine.run step s as = some s') :
    s'.push (some i) = .idle := by
  induction as generalizing s with
  | nil =>
    obtain rfl := Option.some_inj.mp hrun
    exact hidle
  | cons a as ih =>
    rw [List.mem_cons, not_or] at hcalls
    obtain ⟨s₁, hstep, hrest⟩ := Machine.run_cons_eq_some.mp hrun
    refine ih hcalls.2 ?_ hrest
    cases a with
    | queueWorkProc j =>
      have hj : i ≠ j := fun h => hcalls.1 (by rw [h])
      obtain ⟨-, rfl⟩ := step_queueWorkProc hstep
      rw [setPush_push_of_ne _ (by simpa using hj)]
      exact hidle
    | push th spurious =>
      by_cases hth : some i = th
      · subst hth
        simp [step, pushStep, hidle] at hstep
      · rw [pushStep_push_of_ne hstep hth]
        exact hidle
    | processWorkQueue z =>
      obtain ⟨-, rfl⟩ := step_processWorkQueue hstep
      exact hidle
    | server result spurious =>
      rw [serverStep_push hstep i]
      exact hidle
    | clientGone tag =>
      obtain rfl := Option.some_inj.mp hstep
      exact hidle

/-- The invariant in every reachable state. -/
theorem Inv.of_run {as : List Act} (hwrap : Machine.Meets step NoFullWrap WorkQueue.initial as)
    (hrun : Machine.run step WorkQueue.initial as = some s) : ∃ ns, Inv s ns :=
  Machine.run_invariant (I := fun s => ∃ ns, Inv s ns)
    (fun _ _ _ ⟨_, h⟩ hw hs => h.of_step hw hs) ⟨[], Inv.initial⟩ hwrap hrun

/-- The item of the call has been run, with the log at `start` or later. -/
def RunSince (start : List Exec) (s : State) (z : Bool) (item : WorkItem) : Prop :=
  ∃ rest, s.log = start ++ rest ∧ ∃ e ∈ rest, e.item = item ∧ e.zombie = z

/-- What is ahead of the running call has been run when no call is running any more. -/
theorem run_of_ahead {as : List Act} (h : Inv s ns) (ha : Ahead s ns z item)
    (hgone : z = true → s.gone item.client = true) (hwrap : Machine.Meets step NoFullWrap s as)
    (hrun : Machine.run step s as = some s') (hidle : s'.server = .idle) :
    RunSince s.log s' z item := by
  have hmain : ∃ ns' rest, Inv s' ns' ∧ s'.log = s.log ++ rest ∧
      (z = true → s'.gone item.client = true) ∧
      ((∃ e ∈ rest, e.item = item ∧ e.zombie = z) ∨ Ahead s' ns' z item) := by
    refine Machine.run_invariant (I := fun t => ∃ ns' rest, Inv t ns' ∧ t.log = s.log ++ rest ∧
      (z = true → t.gone item.client = true) ∧
      ((∃ e ∈ rest, e.item = item ∧ e.zombie = z) ∨ Ahead t ns' z item)) ?_
      ⟨ns, [], h, (List.append_nil _).symm, hgone, .inr ha⟩ hwrap hrun
    rintro t a t' ⟨ns₁, rest, h, hlog, hgone, hdone⟩ hw hs
    obtain ⟨⟨more, hmore⟩, hgoes, -⟩ := step_log hs
    have hlog' : t'.log = s.log ++ (rest ++ more) := by rw [hmore, hlog, List.append_assoc]
    have hgone' : z = true → t'.gone item.client = true := fun hz => hgoes _ (hgone hz)
    rcases hdone with ⟨e, he, hitem⟩ | ha
    · obtain ⟨ns₂, h'⟩ := h.of_step hw hs
      exact ⟨ns₂, _, h', hlog', hgone', .inl ⟨e, List.mem_append_left _ he, hitem⟩⟩
    · obtain ⟨ns₂, h', ⟨e, he, hitem⟩ | ha'⟩ := ha.of_step h hgone hw hs
      · have hmem : e ∈ more := by
          rw [List.append_cancel_left (hmore.symm.trans he)]
          exact List.mem_singleton_self e
        exact ⟨ns₂, _, h', hlog', hgone', .inl ⟨e, List.mem_append_right _ hmem, hitem⟩⟩
      · exact ⟨ns₂, _, h', hlog', hgone', .inr ha'⟩
  obtain ⟨ns', rest, -, hlog, -, hdone | ha'⟩ := hmain
  · exact ⟨rest, hlog, hdone⟩
  · have hkind := ha'.kind
    rw [hidle] at hkind
    exact nomatch hkind

/-! ### Exactly once -/

/-- The calls of `QueueWorkProc` that no thread is in any more have returned `TRUE`. -/
def State.Accepted (s : State) (tag : ℕ) : Prop :=
  tag < s.queued ∧ ∀ i, (s.push (some i)).item? ≠ some (.of tag)

/-- A cell before the item's is claimed and not yet published. -/
def State.Blocked (s : State) (tag : ℕ) : Prop :=
  ∃ pos, s.Published pos ∧ (s.cellAt pos).item = .of tag ∧
    ∃ p, s.dequeuePos ≤ p ∧ p < pos ∧ s.Claimed p

structure ExactlyOnce (s : State) : Prop where
  /-- what is run is what one call was given -/
  own : ∀ e ∈ s.log, ∃ tag < s.queued, e.item = .of tag
  /-- after it returned `TRUE`, or was run as a zombie, it is never run again -/
  final : s.log.Pairwise fun e e' => e.Finishes → e'.item ≠ e.item
  /-- as a zombie only when its client is gone -/
  zombie : ∀ e ∈ s.log, e.zombie = true → s.gone e.item.client = true
  /-- what is not finished is in one place, and nothing else is anywhere -/
  kept : ∃ ns, Chain s.next none ns ∧
    (∀ a x, Holds s ns a x → ∃ tag < s.queued, x = .of tag ∧ ¬ s.Finished tag) ∧
    ∀ tag < s.queued, ¬ s.Finished tag →
      ∃ a, Holds s ns a (.of tag) ∧ ∀ b, Holds s ns b (.of tag) → b = a

theorem Inv.exactlyOnce (h : Inv s ns) : ExactlyOnce s where
  own := h.log.own
  final := h.log.final
  zombie := h.log.zombie
  kept := by
    refine ⟨ns, h.list.chain, fun a x hx => ?_, fun tag ht hnot => ?_⟩
    · obtain ⟨tag, hx, hlt, hnot⟩ := h.items.owner hx
      exact ⟨tag, hlt, hx, hnot⟩
    · exact h.items.unique of_injective ht hnot

/-- When no call runs, the next one has ahead what was accepted and is not finished. -/
theorem Inv.ahead_of_accepted (h : Inv s ns) (hidle : s.server = .idle) {tag : ℕ}
    (haccepted : s.Accepted tag) (hnot : ¬ s.Finished tag) (hblocked : ¬ s.Blocked tag) :
    Ahead (s.setServer (.countTail z)) ns z (.of tag) := by
  refine ⟨rfl, ?_⟩
  obtain ⟨a, ha, -⟩ := h.items.unique of_injective haccepted.1 hnot
  cases a with
  | hand th =>
    cases th with
    | some i => exact absurd ha (haccepted.2 i)
    | none =>
      rw [Holds, h.own (by simp [hidle])] at ha
      cases ha
  | ring pos =>
    obtain ⟨hpub, hitem⟩ := ha
    refine .inr (.inl ⟨pos, hpub.1, hpub.2.1, fun p hle hp => ⟨hle, ?_, fun hc => ?_⟩, hitem⟩)
    · exact Nat.lt_of_le_of_lt hp hpub.2.1
    · rcases Nat.lt_or_eq_of_le hp with hlt | rfl
      · exact hblocked ⟨pos, hpub, hitem, p, hle, hlt, hc⟩
      · exact hpub.2.2 hc
  | node n => exact .inr (.inr ⟨n, ha.1, ha.2.2⟩)
  | server =>
    rw [Holds, State.popped, hidle] at ha
    cases ha

/-- Every run of any number of threads runs each item until it is finished and never
afterwards: in every state `ExactlyOnce` holds, and a whole call of `ProcessWorkQueue`
runs each item that was accepted before it, is not finished, and does not stand in the
ring behind a cell still being written.  So does its zombie sibling, if the item's
client is gone. -/
theorem runs_exactly_once {as : List Act} (hwrap : Machine.Meets step NoFullWrap initial as)
    (hrun : Machine.run step initial as = some s) :
    ExactlyOnce s ∧ ∀ z, ∀ bs s', Machine.Meets step NoFullWrap s (.processWorkQueue z :: bs) →
      Machine.run step s (.processWorkQueue z :: bs) = some s' → s'.server = .idle →
      ∀ tag, s.Accepted tag → ¬ s.Finished tag → ¬ s.Blocked tag →
        (z = true → s.gone tag = true) → RunSince s.log s' z (.of tag) := by
  obtain ⟨ns, h⟩ := Inv.of_run hwrap hrun
  refine ⟨h.exactlyOnce, fun z bs s' hwrap' hrun' hdone tag haccepted hnot hblocked hgone => ?_⟩
  obtain ⟨s₁, hcall, hrest⟩ := Machine.run_cons_eq_some.mp hrun'
  have hwrap₁ := hwrap'.of_step hcall
  obtain ⟨ns₁, h₁⟩ := h.of_step hwrap'.1 hcall
  obtain ⟨hidle, rfl⟩ := step_processWorkQueue hcall
  obtain rfl := h₁.list.chain.unique h.list.chain
  exact run_of_ahead (s := s.setServer (.countTail z)) h₁
    (h.ahead_of_accepted hidle haccepted hnot hblocked) hgone hwrap₁ hrest hdone

/-- A call of `QueueWorkProc` by a producer, or by a function. -/
def queueOne : List Act := .queueWorkProc 0 :: List.replicate 7 (.push (some 0) false)

/-- One item more than the ring holds: the last one is put in the list. -/
def queueMany : List Act := (List.replicate 129 queueOne).flatten

/-- A call of `ProcessWorkQueue`.  The function of the first item in the ring returns `FALSE`,
and the item is put back; that of the next one queues another item; that of the item in the
list returns `FALSE`, too. -/
def firstCall : List Act :=
  Act.processWorkQueue false :: List.replicate 9 (Act.server true false) ++
    Act.server false false :: List.replicate 7 (Act.push none false) ++
    List.replicate 8 (Act.server true false) ++ queueOne ++
    List.replicate 1013 (Act.server true false) ++
    Act.server false false :: List.replicate 4 (Act.server true false)

def clientsGo : List Act := [.clientGone 128, .clientGone 129]

/-- A call of `ProcessWorkQueueZombies`: it puts the first item back, and runs the other one in
the ring and the one in the list, whose clients are gone. -/
def zombieCall : List Act :=
  Act.processWorkQueue true :: List.replicate 10 (Act.server true false) ++
    List.replicate 7 (Act.push none false) ++ List.replicate 17 (Act.server true false)

/-- What the first call has run. -/
def firstRun : List Exec :=
  ⟨.of 0, false, false⟩ :: (List.range' 1 127).map (fun tag => ⟨.of tag, true, false⟩) ++
    [⟨.of 128, false, false⟩]

theorem firstRun_unfinished : ∀ e ∈ firstRun, e.item.client = 128 ∨ e.item.client = 129 →
    e.result = false ∧ e.zombie = false := by decide +kernel

/-- What the run is tested for: the first item is run first, and before the zombie sibling is
called `firstRun` has been run and nobody pushes. -/
def AsExpected (s : State) : Act → Prop
  | .processWorkQueue true =>
    (s.log = firstRun ∧ s.enqueuePos = 130 ∧ s.queued = 130) ∧
      (s.push (some 0)).item? = none ∧ (s.push (some 0)).claim = none ∧
      (s.push none).claim = none ∧ s.gone 128 = true ∧ s.gone 129 = true
  | .server _ _ => ∀ e ∈ s.log.head?, e.item.client = 0
  | _ => True

instance (s : State) : DecidablePred (AsExpected s)
  | .processWorkQueue true => inferInstanceAs (Decidable (_ ∧ _))
  | .server _ _ => inferInstanceAs (Decidable (∀ e ∈ s.log.head?, e.item.client = 0))
  | .processWorkQueue false | .queueWorkProc _ | .push _ _ | .clientGone _ =>
    inferInstanceAs (Decidable True)

theorem zombieCall_runs_exactly_once : ∃ s s',
    Machine.run step initial (queueMany ++ firstCall ++ clientsGo) = some s ∧
    Machine.run step s zombieCall = some s' ∧ s.log = firstRun ∧ ExactlyOnce s ∧
    RunSince s.log s' true (.of 128) ∧ RunSince s.log s' true (.of 129) := by
  have hrun : (Machine.run (Machine.restrict step AsExpected) initial
      (queueMany ++ firstCall ++ clientsGo ++ zombieCall)).map (·.server.running) =
      some false := by decide +kernel
  obtain ⟨s', hs', hidle⟩ := Option.map_eq_some_iff.mp hrun
  obtain ⟨hs', hmeets⟩ := Machine.run_restrict_eq_some hs'
  obtain ⟨s, hs, hcall⟩ := Option.bind_eq_some_iff.mp (Machine.run_append .. ▸ hs')
  obtain ⟨⟨hlog, henq, hqueued⟩, hitem, hclaim, hclaim', hgone, hgone'⟩ :=
    (hmeets.of_append hs).1
  -- nobody pushes
  have hother : ∀ i, i ≠ 0 → s.push (some i) = .idle := by
    intro i hi
    refine idle_of_uncalled (fun hmem => hi ?_) rfl hs
    simpa only [queueMany, firstCall, clientsGo, queueOne, List.mem_append, List.mem_cons,
      List.mem_flatten, List.mem_replicate, exists_eq_right, List.not_mem_nil, reduceCtorEq,
      and_false, or_false, false_or, ne_eq, not_false_eq_true, exists_eq_left,
      true_and, and_true, or_self, Act.queueWorkProc.injEq] using hmem
  have haccepted : ∀ tag < 130, s.Accepted tag := by
    intro tag htag
    refine ⟨hqueued ▸ htag, fun i => ?_⟩
    by_cases hi : i = 0
    · rw [hi, hitem]
      exact (Option.some_ne_none _).symm
    · rw [hother i hi]
      exact (Option.some_ne_none _).symm
  have hblocked : ∀ tag, ¬ s.Blocked tag := by
    rintro tag ⟨-, -, -, p, -, -, th, hc⟩
    have hnone : (s.push th).claim = none := by
      cases th with
      | none => exact hclaim'
      | some i =>
        by_cases hi : i = 0
        · rw [hi, hclaim]
        · rw [hother i hi]
          rfl
    exact absurd (hc.symm.trans hnone) (Option.some_ne_none p)
  have hfinished : ∀ tag, tag = 128 ∨ tag = 129 → ¬ s.Finished tag := by
    rintro tag htag ⟨e, he, hof, hfinishes⟩
    rw [hlog] at he
    obtain ⟨hresult, hzombie⟩ := firstRun_unfinished e he (by rw [hof]; exact htag)
    rw [Exec.Finishes, hresult, hzombie] at hfinishes
    simp at hfinishes
  have hwrap : Machine.Meets step NoFullWrap initial (queueMany ++ firstCall ++ clientsGo) :=
    noFullWrap_of_short (by decide +kernel)
  have hwrap' : Machine.Meets step NoFullWrap s zombieCall :=
    noFullWrap_of_short (by rw [henq]; decide)
  obtain ⟨honce, hcalls⟩ := runs_exactly_once hwrap hs
  have hruns := hcalls true _ s' hwrap' hcall (Server.running_eq_false.mp hidle)
  refine ⟨s, s', hs, hcall, hlog, honce, ?_, ?_⟩
  · exact hruns 128 (haccepted _ (by decide)) (hfinished _ (.inl rfl)) (hblocked _) fun _ => hgone
  · exact hruns 129 (haccepted _ (by decide)) (hfinished _ (.inr rfl)) (hblocked _) fun _ => hgone'

end WorkQueue
