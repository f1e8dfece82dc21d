/-
One pass of `ProcessWorkQueue` (`workqueue.cpp`).

The ring is counted once, and the overflow list is walked to its end; so a call runs what was
there when it began, and nothing twice, as long as nothing is put in the list before it comes
to that end.

* `Present` — what is queued: it has a position in the ring, or is in the list;
* `LeftAlone` — the steps that put nothing before the running call;
* `Passing` — what the running call has run, and still comes to, was there when it began;
* `onePass_of_leftAlone` — a call that is left alone is one pass.
-/
import KaliGui.WorkQueue.Bound
import KaliGui.WorkQueue.Order

namespace WorkQueue

open Links Machine Tokens

variable {s s' : State} {ns ns' : List ℕ} {a : Act} {th : Thread} {item : WorkItem}

/-! ### What is queued -/

/-- The position has been claimed for the item, which is in its cell or about to be. -/
def State.InPosition (s : State) (pos : ℕ) (item : WorkItem) : Prop :=
  s.Published pos ∧ (s.cellAt pos).item = item ∨
    ∃ th, (s.push th).claim = some pos ∧ (s.push th).item? = some item

def Queued (s : State) (ns : List ℕ) : Place → WorkItem → Prop
  | .ring pos, x => s.InPosition pos x
  | .node n, x => n ∈ ns ∧ s.nodeItem n = x
  | _, _ => False

def Present (s : State) (ns : List ℕ) (item : WorkItem) : Prop := ∃ a, Queued s ns a item

/-- Where what is queued can be. -/
def places (s : State) (ns : List ℕ) : List Place :=
  (List.range' s.dequeuePos (s.enqueuePos - s.dequeuePos)).map .ring ++ ns.map .node

theorem length_places (s : State) (ns : List ℕ) :
    (places s ns).length = s.enqueuePos - s.dequeuePos + ns.length := by
  rw [places, List.length_append, List.length_map, List.length_map, List.length_range']

theorem Inv.queued_unique (h : Inv s ns) (b : Place) (x y : WorkItem) (hx : Queued s ns b x)
    (hy : Queued s ns b y) : x = y := by
  cases b with
  | ring pos =>
    rcases hx with ⟨⟨-, -, hnot⟩, rfl⟩ | ⟨th, hclaim, hitem⟩
    · rcases hy with ⟨-, rfl⟩ | ⟨th', hclaim', -⟩
      · rfl
      · exact absurd ⟨th', hclaim'⟩ hnot
    · rcases hy with ⟨⟨-, -, hnot⟩, -⟩ | ⟨th', hclaim', hitem'⟩
      · exact absurd ⟨th, hclaim⟩ hnot
      · -- one thread alone has claimed the position
        by_cases hth : th = th'
        · subst hth
          exact Option.some_inj.mp (hitem.symm.trans hitem')
        · exact absurd hclaim' ((h.apart th th' hth).claim pos hclaim)
  | node n => exact hx.2.symm.trans hy.2
  | hand th => exact hx.elim
  | server => exact hx.elim

theorem Inv.mem_places (h : Inv s ns) {b : Place} (hx : Queued s ns b item) : b ∈ places s ns := by
  have hring : ∀ pos, s.dequeuePos ≤ pos → pos < s.enqueuePos → .ring pos ∈ places s ns := by
    intro pos hle hlt
    refine List.mem_append_left _ (List.mem_map_of_mem ?_)
    rw [List.mem_range'_1]
    omega
  cases b with
  | ring pos =>
    rcases hx with ⟨⟨hle, hlt, -⟩, -⟩ | ⟨th, hclaim, -⟩
    · exact hring pos hle hlt
    · exact hring pos (h.claimOk hclaim).le (h.claimOk hclaim).lt
  | node n => exact List.mem_append_right _ (List.mem_map_of_mem hx.1)
  | hand th => exact hx.elim
  | server => exact hx.elim

/-- There are no more items than positions and nodes. -/
theorem Inv.length_le (h : Inv s ns) {xs : List WorkItem} (hnodup : xs.Nodup)
    (hpresent : ∀ x ∈ xs, Present s ns x) :
    xs.length ≤ s.enqueuePos - s.dequeuePos + ns.length := by
  rw [← length_places]
  refine length_le_of_places h.queued_unique hnodup fun x hx => ?_
  obtain ⟨b, hb⟩ := hpresent x hx
  exact ⟨b, h.mem_places hb, hb⟩

/-- Between two calls, what is queued is one of the items of the queue. -/
theorem Present.own (hx : Present s ns item) (h : Inv s ns) (hidle : s.server = .idle) :
    ∃ tag < s.queued, item = .of tag := by
  have hholds : ∃ b, Holds s ns b item := by
    obtain ⟨b, hb⟩ := hx
    cases b with
    | ring pos =>
      rcases hb with hpub | ⟨th, -, hitem⟩
      · exact ⟨.ring pos, hpub⟩
      · exact ⟨.hand th, hitem⟩
    | node n =>
      refine ⟨.node n, hb.1, ?_, hb.2⟩
      rw [hidle]
      exact nofun
    | hand th => exact hb.elim
    | server => exact hb.elim
  obtain ⟨b, hb⟩ := hholds
  obtain ⟨tag, rfl, hlt, -⟩ := h.items.owner hb
  exact ⟨tag, hlt, rfl⟩

/-! ### Left alone -/

/-- While a call runs, nothing is put in the list, by functions, by `requeue` or by others;
and nothing in the ring before the call has counted it. -/
def LeftAlone (s : State) : Act → Prop
  | .push th spurious =>
    ((s.push th).linking = true → s.server.running = false) ∧
      ∀ pos ∈ (s.push th).swapping, SameWord s.enqueuePos pos ∧ ¬ spurious →
        s.server.running = true → s.server.counted = true
  | _ => True

instance (s : State) : DecidablePred (LeftAlone s)
  | .push th spurious => inferInstanceAs (Decidable ((_ → _) ∧
    ∀ pos ∈ (s.push th).swapping, SameWord s.enqueuePos pos ∧ ¬ spurious → _ → _))
  | .queueWorkProc _ | .processWorkQueue _ | .server _ _ | .clientGone _ =>
    inferInstanceAs (Decidable True)

/-! ### What the running call comes to -/

/-- The running call may still come to what is there: in the ring, to the positions below `e`,
which were claimed when it began. -/
def ToCome (e : ℕ) (s : State) (ns : List ℕ) : Place → Prop
  | .hand th => ∃ pos < e, (s.push th).claim = some pos
  | .ring pos => pos < e
  | .node n => Unvisited ns n s.server
  | .server => True

/-- The running call has run `ran`.  That, and what it still comes to, was there when it
began, with the log at `start` and `e` the next position to be claimed. -/
structure Passing (start : List Exec) (e : ℕ) (P : WorkItem → Prop) (s : State) (ns : List ℕ)
    (ran : List Exec) : Prop where
  log : s.log = start ++ ran
  nodup : (ran.map Exec.item).Nodup
  present : ∀ c ∈ ran, P c.item
  limit : s.limit ≤ e
  le : e ≤ s.enqueuePos
  kind : s.server.kind ≠ some true
  toCome : ∀ b x, Holds s ns b x → ToCome e s ns b → P x ∧ ∀ c ∈ ran, c.item ≠ x

variable {start ran : List Exec} {e : ℕ} {P : WorkItem → Prop}

/-- An item is in one place. -/
theorem Inv.place_unique (h : Inv s ns) {b b' : Place} (hb : Holds s ns b item)
    (hb' : Holds s ns b' item) : b = b' := by
  obtain ⟨tag, rfl, hlt, hnot⟩ := h.items.owner hb
  obtain ⟨c, -, hc⟩ := h.items.unique of_injective hlt hnot
  exact (hc b hb).trans (hc b' hb').symm

/-- A step that calls no function. -/
theorem Passing.move (h : Passing start e P s ns ran) (hlog : s'.log = s.log)
    (hlimit : s'.limit ≤ e) (hle : e ≤ s'.enqueuePos) (hkind : s'.server.kind ≠ some true)
    (hback : ∀ b x, Holds s' ns' b x → ToCome e s' ns' b →
      ∃ b', Holds s ns b' x ∧ ToCome e s ns b') : Passing start e P s' ns' ran := by
  refine ⟨hlog.trans h.log, h.nodup, h.present, hlimit, hle, hkind, fun b x hb hcome => ?_⟩
  obtain ⟨b', hb', hcome'⟩ := hback b x hb hcome
  exact h.toCome b' x hb' hcome'

/-- A step that calls the function of what is in the place `b₀`. -/
theorem Passing.exec (h : Passing start e P s ns ran) (hinv : Inv s ns) {c : Exec} {b₀ : Place}
    (hheld : Holds s ns b₀ c.item) (hcome₀ : ToCome e s ns b₀) (hlog : s'.log = s.log ++ [c])
    (hlimit : s'.limit ≤ e) (hle : e ≤ s'.enqueuePos) (hkind : s'.server.kind ≠ some true)
    (hback : ∀ b x, Holds s' ns' b x → ToCome e s' ns' b →
      ∃ b', b' ≠ b₀ ∧ Holds s ns b' x ∧ ToCome e s ns b') :
    Passing start e P s' ns' (ran ++ [c]) := by
  obtain ⟨hpresent, hnew⟩ := h.toCome b₀ c.item hheld hcome₀
  refine ⟨?_, ?_, fun d hd => ?_, hlimit, hle, hkind, fun b x hb hcome => ?_⟩
  · rw [hlog, h.log, List.append_assoc]
  · rw [List.map_append, List.map_singleton]
    refine List.nodup_append.mpr ⟨h.nodup, List.nodup_singleton _, fun y hy z hz => ?_⟩
    obtain ⟨d, hd, rfl⟩ := List.mem_map.mp hy
    exact List.mem_singleton.mp hz ▸ hnew d hd
  · rcases List.mem_append.mp hd with hd | hd
    · exact h.present d hd
    · exact List.mem_singleton.mp hd ▸ hpresent
  · obtain ⟨b', hne, hb', hcome'⟩ := hback b x hb hcome
    obtain ⟨hx, hran⟩ := h.toCome b' x hb' hcome'
    refine ⟨hx, fun d hd => ?_⟩
    rcases List.mem_append.mp hd with hd | hd
    · exact hran d hd
    · -- it is in another place, so it is not the item that is run
      rw [List.mem_singleton.mp hd]
      rintro rfl
      exact hne (hinv.place_unique hb' hheld)

/-! ### The pushing threads -/

/-- What a thread has claimed at a position that was claimed before, it had claimed before. -/
theorem Inv.claim_pushStep (h : Inv s ns) {spurious : Bool}
    (hwrap : NoFullWrap s (.push th spurious)) (hstep : pushStep s th spurious = some s') {pos : ℕ}
    (hclaim : (s'.push th).claim = some pos) (hlt : pos < s.enqueuePos) :
    (s.push th).claim = some pos ∧ (s'.push th).item? = (s.push th).item? := by
  have hok := h.push th
  cases hpc : s.push th with
  | cas item pos' =>
    rw [hpc] at hok
    simp only [pushStep, hpc] at hstep
    split at hstep <;> obtain rfl := Option.some_inj.mp hstep <;> rw [setPush_push_self] at hclaim
    · next hswap =>
      obtain rfl : pos' = pos := Option.some_inj.mp hclaim
      have hlast := sameWord_of_near hswap.1 hok.1 (hwrap item pos' hpc)
      omega
    · cases hclaim
  | function item pos' =>
    simp only [pushStep, hpc, Option.some_inj] at hstep
    subst hstep
    rw [setPush_push_self] at hclaim ⊢
    exact ⟨hclaim, rfl⟩
  | client item pos' =>
    simp only [pushStep, hpc, Option.some_inj] at hstep
    subst hstep
    rw [setPush_push_self] at hclaim ⊢
    exact ⟨hclaim, rfl⟩
  | closure item pos' =>
    simp only [pushStep, hpc, Option.some_inj] at hstep
    subst hstep
    rw [setPush_push_self] at hclaim ⊢
    exact ⟨hclaim, rfl⟩
  | _ =>
    simp only [pushStep, hpc] at hstep
    repeat' split at hstep
    all_goals first
      | (obtain rfl := Option.some_inj.mp hstep
         rw [setPush_push_self] at hclaim
         cases hclaim)
      | (exact absurd hstep (by simp))

/-- Only when its cell is written is a claimed position published. -/
theorem publish_of_unclaimed {spurious : Bool} (hstep : pushStep s th spurious = some s') {pos : ℕ}
    (hclaimed : s.Claimed pos) (hnot : ¬ s'.Claimed pos) :
    ∃ item, s.push th = .publish item pos := by
  obtain ⟨th', hclaim⟩ := hclaimed
  obtain rfl : th' = th := by
    by_contra hne
    exact hnot ⟨th', pushStep_push_of_ne hstep hne ▸ hclaim⟩
  have hgone : (s'.push th').claim ≠ some pos := fun hclaim' => hnot ⟨th', hclaim'⟩
  have hkept : ∀ pc, s'.push th' = pc → pc.claim ≠ some pos := fun pc hpc => hpc ▸ hgone
  cases hpc : s.push th' with
  | publish item pos' =>
    rw [hpc] at hclaim
    exact ⟨item, congrArg (Push.publish item) (Option.some_inj.mp hclaim)⟩
  | function item pos' =>
    rw [hpc] at hclaim
    simp only [pushStep, hpc, Option.some_inj] at hstep
    subst hstep
    exact absurd hclaim (hkept (.client item pos') (setPush_push_self ..))
  | client item pos' =>
    rw [hpc] at hclaim
    simp only [pushStep, hpc, Option.some_inj] at hstep
    subst hstep
    exact absurd hclaim (hkept (.closure item pos') (setPush_push_self ..))
  | closure item pos' =>
    rw [hpc] at hclaim
    simp only [pushStep, hpc, Option.some_inj] at hstep
    subst hstep
    exact absurd hclaim (hkept (.publish item pos') (setPush_push_self ..))
  | _ =>
    rw [hpc] at hclaim
    cases hclaim

/-- Only a swap that succeeds claims a position. -/
theorem pushStep_enqueuePos {spurious : Bool} (hstep : pushStep s th spurious = some s') :
    s'.enqueuePos = s.enqueuePos ∨
      ∃ item pos, s.push th = .cas item pos ∧ SameWord s.enqueuePos pos ∧ ¬ spurious := by
  cases hpc : s.push th <;> simp only [pushStep, hpc] at hstep <;> repeat' split at hstep
  all_goals first
    | (obtain rfl := Option.some_inj.mp hstep; exact .inl rfl)
    | (next hswap => exact .inr ⟨_, _, rfl, hswap⟩)
    | (exact absurd hstep (by simp))

/-- The pushing threads leave the running call its limit. -/
theorem limit_pushStep (h : Inv s ns) {spurious : Bool} (hwrap : NoFullWrap s (.push th spurious))
    (halone : LeftAlone s (.push th spurious)) (hstep : pushStep s th spurious = some s') :
    s'.limit = s.limit := by
  have hframe := h.frame_pushStep hwrap hstep
  rw [State.limit, State.limit, hframe.server, hframe.dequeuePos]
  rcases pushStep_enqueuePos hstep with henq | ⟨item, pos, hpc, hswap⟩
  · rw [henq]
  · have hcounted := halone.2 pos (by rw [hpc]; rfl) hswap
    cases hserver : s.server <;> rw [hserver] at hcounted <;>
      first | rfl | exact absurd (hcounted rfl) Bool.false_ne_true

theorem Passing.of_pushStep (h : Passing start e P s ns ran) (hinv : Inv s ns) (hinv' : Inv s' ns')
    {spurious : Bool} (hwrap : NoFullWrap s (.push th spurious))
    (halone : LeftAlone s (.push th spurious)) (hstep : pushStep s th spurious = some s') :
    Passing start e P s' ns' ran := by
  have hframe := hinv.frame_pushStep hwrap hstep
  refine h.move hframe.log ?_ (Nat.le_trans h.le hframe.enqueuePos) (hframe.server ▸ h.kind)
    fun b x hb hcome => ?_
  · rw [limit_pushStep hinv hwrap halone hstep]
    exact h.limit
  · cases b with
    | hand th' =>
      obtain ⟨pos, hlt, hclaim⟩ := hcome
      refine ⟨.hand th', ?_⟩
      by_cases hth : th' = th
      · subst hth
        obtain ⟨hclaim', hitem⟩ :=
          hinv.claim_pushStep hwrap hstep hclaim (Nat.lt_of_lt_of_le hlt h.le)
        exact ⟨hitem.symm.trans hb, pos, hlt, hclaim'⟩
      · -- another thread has what it had
        have hpush := pushStep_push_of_ne hstep hth
        exact ⟨(congrArg Push.item? hpush).symm.trans hb, pos, hlt, hpush ▸ hclaim⟩
    | ring pos =>
      have hlt : pos < e := hcome
      have henq : pos < s.enqueuePos := Nat.lt_of_lt_of_le hlt h.le
      obtain ⟨⟨hle, -, hnot⟩, hitem⟩ := hb
      rw [hframe.dequeuePos] at hle
      by_cases hclaimed : s.Claimed pos
      · -- published by this step
        obtain ⟨item, hpc⟩ := publish_of_unclaimed hstep hclaimed hnot
        have hok := hinv.push th
        rw [hpc] at hok
        simp only [pushStep, hpc, Option.some_inj] at hstep
        subst hstep
        refine ⟨.hand th, ?_, pos, hlt, by rw [hpc]; rfl⟩
        have hwritten : (s.cellAt pos).item = x := (setSequence_item s pos _ pos).symm.trans hitem
        rw [Holds, hpc, ← hwritten, hok.2]
        rfl
      · refine ⟨.ring pos, ⟨⟨hle, henq, hclaimed⟩, ?_⟩, hlt⟩
        rw [← hframe.item pos (Nat.le_trans hinv.ring.released_le hle) henq hclaimed]
        exact hitem
    | node n =>
      have hunvisited : Unvisited ns' n s.server := hframe.server ▸ hcome
      obtain rfl : ns' = ns := by
        rcases hinv.nodes_pushStep hinv' hstep with hsame | ⟨item, node, hpc, -⟩
        · exact hsame
        · -- a node is linked in between two calls only
          have hrunning := halone.1 (by rw [hpc]; rfl)
          cases hserver : s.server <;> rw [hserver] at hunvisited hrunning <;>
            first | exact hunvisited.elim | cases hrunning
      have hn : n ∈ ns' := hunvisited.mem
      refine ⟨.node n, ⟨hn, hframe.server ▸ hb.2.1, ?_⟩, hunvisited⟩
      rw [← hframe.nodeItem n hn]
      exact hb.2.2
    | server => exact ⟨.server, (hframe.popped hinv).symm.trans hb, trivial⟩

/-! ### The server's thread -/

theorem limit_of_server {pc : Server} (hpc : s.server = pc) :
    s.limit = (s.setServer pc).limit := by
  rw [State.limit, State.limit, hpc]
  rfl

/-- The finished node is behind the running call. -/
theorem Unvisited.not_dead {n : ℕ} {pc : Server} (h : Unvisited ns n pc) (hnodup : ns.Nodup) :
    pc.dead ≠ some n := by
  have hbehind : ∀ p q, (∃ post, AtPointer ns p (q :: post) ∧ n ∈ post) → q ≠ n := by
    rintro p q ⟨post, ⟨pre, rfl, -⟩, hn⟩ rfl
    exact (List.nodup_cons.mp (List.nodup_append.mp hnodup).2.1).1 hn
  cases pc with
  | relock p q result =>
    cases result with
    | true => exact fun heq => hbehind p q h (Option.some_inj.mp heq)
    | false => exact nofun
  | remove z p q => exact fun heq => hbehind p q h (Option.some_inj.mp heq)
  | _ => exact nofun

/-- A step of the server's thread that leaves what is queued where it is. -/
theorem Passing.goOn (h : Passing start e P s ns ran) (hinv : Inv s ns) {pc : Server}
    (hpc : s.server = pc) (hpush : s'.push = s.push) (hdeq : s'.dequeuePos = s.dequeuePos)
    (henq : s'.enqueuePos = s.enqueuePos) (hitem : ∀ p, (s'.cellAt p).item = (s.cellAt p).item)
    (hnodeItem : s'.nodeItem = s.nodeItem) (hlog : s'.log = s.log)
    (hkind : s'.server.kind ≠ some true) (hlimit : s'.limit ≤ (s.setServer pc).limit)
    (hpopped : ∀ x, s'.popped = some x → (s.setServer pc).popped = some x)
    (hlist : ∀ n, Unvisited ns' n s'.server → Unvisited ns n pc) :
    Passing start e P s' ns' ran := by
  have hlimit' : s'.limit ≤ s.limit := limit_of_server hpc ▸ hlimit
  refine h.move hlog (Nat.le_trans hlimit' h.limit) (henq ▸ h.le) hkind fun b x hb hcome => ?_
  cases b with
  | hand th =>
    obtain ⟨pos, hlt, hclaim⟩ := hcome
    have hsame : s'.push th = s.push th := congrFun hpush th
    exact ⟨.hand th, (congrArg Push.item? hsame).symm.trans hb, pos, hlt, hsame ▸ hclaim⟩
  | ring pos =>
    obtain ⟨⟨hle, hlt, hnot⟩, hx⟩ := hb
    refine ⟨.ring pos, ⟨⟨hdeq ▸ hle, henq ▸ hlt, ?_⟩, (hitem pos).symm.trans hx⟩, hcome⟩
    exact fun hc => hnot ((claimed_of_push hpush pos).mpr hc)
  | node n =>
    have hunvisited : Unvisited ns n s.server := hpc ▸ hlist n hcome
    refine ⟨.node n, ⟨hunvisited.mem, hunvisited.not_dead hinv.list.nodup, ?_⟩, hunvisited⟩
    exact (congrFun hnodeItem n).symm.trans hb.2.2
  | server => exact ⟨.server, (popped_of_server hpc).trans (hpopped x hb), trivial⟩

/-- A step by which the server's thread only goes on, taking or leaving the lock. -/
theorem Passing.setServer (h : Passing start e P s ns ran) (hinv : Inv s ns) {l : Option Thread}
    {p : Option ℕ} {pc pc' : Server} (hpc : s.server = pc) (hkind : pc'.kind ≠ some true)
    (hlimit : (s.setServer pc').limit ≤ (s.setServer pc).limit)
    (hpopped : ∀ x, (s.setServer pc').popped = some x → (s.setServer pc).popped = some x)
    (hlist : ∀ n, Unvisited ns n pc' → Unvisited ns n pc) :
    Passing start e P ({ s with overflowLock := l, overflowLast := p }.setServer pc') ns ran :=
  h.goOn hinv hpc rfl rfl rfl (fun _ => rfl) rfl rfl hkind hlimit hpopped hlist

/-- The first position is popped. -/
theorem Passing.pop (h : Passing start e P s ns ran) (hinv : Inv s ns) {z : Bool}
    {remaining pos : ℕ} (hpc : s.server = .cas z remaining pos) :
    Passing start e P
      ({ s with dequeuePos := s.dequeuePos + 1 }.setServer (.function z remaining pos)) ns ran := by
  have hok := hinv.server
  have hkind := h.kind
  have hlimit := h.limit
  rw [hpc] at hok hkind
  obtain ⟨rfl, hlt, hnot⟩ := hok
  have hcounted : s.limit = s.dequeuePos + remaining + 1 := limit_of_server hpc
  rw [hcounted] at hlimit
  refine h.move rfl ?_ h.le hkind fun b x hb hcome => ?_
  · show s.dequeuePos + 1 + remaining ≤ e
    omega
  · cases b with
    | hand th => exact ⟨.hand th, hb, hcome⟩
    | ring p =>
      obtain ⟨⟨hle, hrest⟩, hx⟩ := hb
      exact ⟨.ring p, ⟨⟨Nat.le_of_succ_le hle, hrest⟩, hx⟩, hcome⟩
    | node n =>
      have hunvisited : Unvisited ns n s.server := by
        rw [hpc]
        exact hcome
      exact ⟨.node n, ⟨hb.1, hunvisited.not_dead hinv.list.nodup, hb.2.2⟩, hunvisited⟩
    | server =>
      refine ⟨.ring s.dequeuePos, ⟨⟨Nat.le_refl _, hlt, hnot⟩, Option.some_inj.mp hb⟩, ?_⟩
      show s.dequeuePos < e
      omega

/-- The item that was popped is run; one that is put back comes behind what was there. -/
theorem Passing.call (h : Passing start e P s ns ran) (hinv : Inv s ns) {remaining : ℕ}
    (hpc : s.server = .call false remaining item) {result : Bool} {pc : Server}
    (hpush : ∀ th, th ≠ none → s'.push th = s.push th) (hnone : (s'.push none).claim = none)
    (hdeq : s'.dequeuePos = s.dequeuePos) (henq : s'.enqueuePos = s.enqueuePos)
    (hcell : s'.cell = s.cell) (hnodeItem : s'.nodeItem = s.nodeItem)
    (hlog : s'.log = s.log ++ [⟨item, result, false⟩]) (hserver : s'.server = pc)
    (hpc' : pc = .scan false remaining ∨ pc = .requeue false remaining) :
    Passing start e P s' ns (ran ++ [⟨item, result, false⟩]) := by
  have hidle : s.push none = .idle := hinv.own (by simp [hpc])
  have hlimit : s'.limit = s.limit := by
    rw [State.limit, State.limit, hserver, hpc, hdeq]
    rcases hpc' with rfl | rfl <;> rfl
  have hpopped' : s'.popped = none := by
    rw [State.popped, hserver]
    rcases hpc' with rfl | rfl <;> rfl
  have hkind : s'.server.kind ≠ some true := by
    rw [hserver]
    rcases hpc' with rfl | rfl <;> rintro ⟨⟩
  have hheld : Holds s ns .server item := by rw [Holds, State.popped, hpc]
  refine h.exec (c := ⟨item, result, false⟩) hinv hheld trivial hlog (hlimit ▸ h.limit)
    (henq ▸ h.le) hkind fun b x hb hcome => ?_
  cases b with
  | hand th =>
    obtain ⟨pos, hlt, hclaim⟩ := hcome
    cases th with
    | none =>
      -- what `requeue` puts back has no position yet
      cases hnone.symm.trans hclaim
    | some i =>
      have hsame := hpush (some i) (Option.some_ne_none i)
      exact ⟨.hand (some i), by rintro ⟨⟩, (congrArg Push.item? hsame).symm.trans hb, pos, hlt,
        hsame ▸ hclaim⟩
  | ring pos =>
    obtain ⟨⟨hle, hlt, hnot⟩, hx⟩ := hb
    refine ⟨.ring pos, by rintro ⟨⟩, ⟨⟨hdeq ▸ hle, henq ▸ hlt, ?_⟩, ?_⟩, hcome⟩
    · rintro ⟨th, hclaim⟩
      cases th with
      | none =>
        rw [hidle] at hclaim
        cases hclaim
      | some i => exact hnot ⟨some i, hpush (some i) (Option.some_ne_none i) ▸ hclaim⟩
    · rw [← hx, State.cellAt, State.cellAt, hcell]
  | node n =>
    have hn : n ∈ ns := hb.1
    refine ⟨.node n, by rintro ⟨⟩, ⟨hn, by rw [hpc]; rintro ⟨⟩, ?_⟩, by rw [ToCome, hpc]; exact hn⟩
    exact (congrFun hnodeItem n).symm.trans hb.2.2
  | server => cases hpopped'.symm.trans hb

/-- The item of a node is run. -/
theorem Passing.callNode (h : Passing start e P s ns ran) (hinv : Inv s ns) {p : Option ℕ} {q : ℕ}
    (hpc : s.server = .callNode p q) (result : Bool) :
    Passing start e P ((s.exec ⟨s.nodeItem q, result, false⟩).setServer (.relock p q result)) ns
      (ran ++ [⟨s.nodeItem q, result, false⟩]) := by
  have hok := hinv.server
  rw [hpc] at hok
  obtain ⟨post, hat⟩ := hok
  have hfirst : Unvisited ns q s.server := by
    rw [hpc]
    exact ⟨post, hat, List.mem_cons_self⟩
  have hheld : Holds s ns (.node q) (s.nodeItem q) := ⟨hfirst.mem, by rw [hpc]; exact nofun, rfl⟩
  have hlimit : s.dequeuePos ≤ e := by
    have hs : s.limit = s.dequeuePos := limit_of_server hpc
    exact hs ▸ h.limit
  refine h.exec (c := ⟨s.nodeItem q, result, false⟩) hinv hheld hfirst rfl hlimit h.le nofun
    fun b x hb hcome => ?_
  cases b with
  | hand th => exact ⟨.hand th, nofun, hb, hcome⟩
  | ring pos => exact ⟨.ring pos, nofun, hb, hcome⟩
  | node n =>
    obtain ⟨rest, hat', hn⟩ := hcome
    have hunvisited : Unvisited ns n s.server := by
      rw [hpc]
      exact ⟨rest, hat', List.mem_cons_of_mem q hn⟩
    refine ⟨.node n, ?_, ⟨hb.1, by rw [hpc]; exact nofun, hb.2.2⟩, hunvisited⟩
    -- the other nodes are behind it
    rintro ⟨⟩
    obtain ⟨pre, rfl, -⟩ := hat'
    exact (List.nodup_cons.mp (List.nodup_append.mp hinv.list.nodup).2.1).1 hn
  | server => exact nomatch hb

/-- The pointer says which nodes are to come. -/
theorem AtPointer.unique {link : Option ℕ → Option ℕ} (hchain : Chain link none ns) {p : Option ℕ}
    {post post' : List ℕ} (h : AtPointer ns p post) (h' : AtPointer ns p post') : post = post' := by
  obtain ⟨pre, rfl, rfl⟩ := h
  obtain ⟨pre', heq, hp⟩ := h'
  have hdrop := hchain.drop
  rw [heq] at hchain
  have hdrop' := hchain.drop
  rw [← hp] at hdrop'
  exact hdrop.unique hdrop'

/-- The ring is counted, and its positions are popped one after another. -/
theorem Passing.of_ringStep (h : Passing start e P s ns ran) (hinv : Inv s ns)
    (hinv' : Inv s' ns') {result spurious : Bool} (hring : s.server.InRingPop)
    (hstep : serverStep s result spurious = some s') : Passing start e P s' ns' ran := by
  have hidle := hinv.idle_of_serverStep hstep
  have hok := hinv.server
  have hkind := h.kind
  cases hpc : s.server with
  | countTail z =>
    rw [hpc] at hkind
    simp only [serverStep, hpc, Option.some_inj] at hstep
    subst hstep
    obtain rfl := hinv.nodes_eq hinv' rfl
    exact h.setServer hinv hpc hkind (Nat.le_refl _) (fun _ => id) fun _ => id
  | countHead z tail =>
    rw [hpc] at hok hkind
    simp only [serverStep, hpc, Option.some_inj] at hstep
    subst hstep
    obtain rfl := hinv.nodes_eq hinv' rfl
    obtain rfl : tail = s.dequeuePos := hok
    refine h.setServer hinv hpc hkind ?_ (fun _ => id) fun _ => id
    -- the whole ring is counted
    have hle := hinv.ring.le
    rw [hinv.ring.count_eq]
    show s.dequeuePos + (s.enqueuePos - s.dequeuePos) ≤ s.enqueuePos
    omega
  | scan z remaining =>
    rw [hpc] at hkind
    simp only [serverStep, hpc] at hstep
    split at hstep <;> obtain rfl := Option.some_inj.mp hstep <;>
      obtain rfl := hinv.nodes_eq hinv' rfl
    · exact h.setServer hinv hpc hkind (Nat.le_add_right _ _) (fun _ => id) fun _ => id
    · refine h.setServer hinv hpc hkind ?_ (fun _ => id) fun _ => id
      show s.dequeuePos + (remaining - 1) + 1 ≤ s.dequeuePos + remaining
      omega
  | sequence z remaining pos =>
    rw [hpc] at hkind
    simp only [serverStep, hpc] at hstep
    split at hstep
    · obtain rfl := Option.some_inj.mp hstep
      obtain rfl := hinv.nodes_eq hinv' rfl
      exact h.setServer hinv hpc hkind (Nat.le_refl _) (fun _ => id) fun _ => id
    · split at hstep <;> obtain rfl := Option.some_inj.mp hstep <;>
        obtain rfl := hinv.nodes_eq hinv' rfl
      · -- the ring looks empty, and what is left of it is not popped in this call
        exact h.setServer hinv hpc hkind
          (Nat.le_add_right s.dequeuePos (remaining + 1)) (fun _ => id) fun _ => id
      · exact h.setServer hinv hpc hkind (Nat.le_refl _) (fun _ => id) fun _ => id
  | cas z remaining pos =>
    rw [hpc] at hkind
    simp only [serverStep, hpc] at hstep
    split at hstep <;> obtain rfl := Option.some_inj.mp hstep <;>
      obtain rfl := hinv.nodes_eq hinv' rfl
    · exact h.pop hinv hpc
    · exact h.setServer hinv hpc hkind (Nat.le_refl _) (fun _ => id) fun _ => id
  | function z remaining pos | client z remaining pos f | closure z remaining pos f c =>
    rw [hpc] at hkind
    simp only [serverStep, hpc, Option.some_inj] at hstep
    subst hstep
    obtain rfl := hinv.nodes_eq hinv' rfl
    exact h.setServer hinv hpc hkind (Nat.le_refl _) (fun _ => id) fun _ => id
  | requeue z remaining =>
    rw [hpc] at hkind
    simp only [serverStep, hpc, hidle, Option.some_inj] at hstep
    subst hstep
    obtain rfl := hinv.nodes_eq hinv' rfl
    exact h.setServer hinv hpc hkind (Nat.le_refl _) (fun _ => id) fun _ => id
  | _ => simp [hpc, Server.InRingPop] at hring

/-- The item that was popped is run, and put back if its function returns `FALSE`. -/
theorem Passing.of_callStep (h : Passing start e P s ns ran) (hinv : Inv s ns)
    (hinv' : Inv s' ns') {z : Bool} {remaining : ℕ} (hpc : s.server = .call z remaining item)
    {result spurious : Bool} (hstep : serverStep s result spurious = some s') :
    Passing start e P s' ns' (ran ++ [⟨item, result, false⟩]) := by
  have hkind := h.kind
  rw [hpc] at hkind
  cases z with
  | true => exact absurd rfl hkind
  | false =>
    have hidle : s.push none = .idle := hinv.own (by simp [hpc])
    simp only [serverStep, hpc] at hstep
    split at hstep <;> obtain rfl := Option.some_inj.mp hstep <;>
      obtain rfl := hinv.nodes_eq hinv' rfl
    · refine h.call hinv hpc (fun _ _ => rfl) ?_ rfl rfl rfl rfl rfl rfl (.inl rfl)
      exact congrArg Push.claim hidle
    · refine h.call hinv hpc (fun th hth => setPush_push_of_ne _ hth _) ?_ rfl rfl rfl rfl rfl
        rfl (.inr rfl)
      show (((s.exec ⟨item, result, false⟩).setPush none (.load item)).push none).claim = none
      rw [setPush_push_self]
      rfl

/-- The lock is taken again; a node that stays in the list is passed. -/
theorem Passing.relock (h : Passing start e P s ns ran) (hinv : Inv s ns) {p : Option ℕ} {q : ℕ}
    {result : Bool} (hpc : s.server = .relock p q result) :
    Passing start e P ({ s with overflowLock := some none }.setServer
      (if result then .remove false p q else .next false (some q))) ns ran := by
  have hok := hinv.server
  rw [hpc] at hok
  obtain ⟨post, hat⟩ := hok
  cases result with
  | true => exact h.setServer hinv hpc (by rintro ⟨⟩) (Nat.le_refl _) (fun _ => id) fun _ => id
  | false =>
    refine h.setServer hinv hpc (by rintro ⟨⟩) (Nat.le_refl _) (fun _ => id) ?_
    rintro n ⟨rest, hat', hn⟩
    obtain rfl := hat'.unique hinv.list.chain hat.pass
    exact ⟨rest, hat, hn⟩

/-- A node is taken out: the running call is past it. -/
theorem Passing.remove (h : Passing start e P s ns ran) (hinv : Inv s ns) {z : Bool}
    {p : Option ℕ} {q : ℕ} (hpc : s.server = .remove z p q)
    (hinv' : Inv ({ s with next := Function.update s.next p (s.next (some q)) }.setServer
      (.next z p)) ns') :
    Passing start e P ({ s with next := Function.update s.next p (s.next (some q)) }.setServer
      (.next z p)) ns' ran := by
  have hok := hinv.server
  have hkind := h.kind
  rw [hpc] at hok hkind
  obtain ⟨-, -, post, ⟨pre, rfl, rfl⟩⟩ := hok
  have hnodes : ns' = pre ++ post := by
    refine hinv'.list.chain.unique ?_
    exact hinv.list.chain.remove hinv.list.nodup (by simp)
  subst hnodes
  refine h.goOn hinv hpc rfl rfl rfl (fun _ => rfl) rfl rfl hkind (Nat.le_refl _)
    (fun _ => id) ?_
  rintro n ⟨rest, hat, hn⟩
  obtain rfl := hat.unique hinv'.list.chain ⟨pre, rfl, rfl⟩
  exact ⟨rest, ⟨pre, rfl, rfl⟩, hn⟩

/-- The overflow list is walked to its end. -/
theorem Passing.of_listStep (h : Passing start e P s ns ran) (hinv : Inv s ns)
    (hinv' : Inv s' ns') {result spurious : Bool} (hlist : s.server.InList)
    (hstep : serverStep s result spurious = some s') : ∃ ran', Passing start e P s' ns' ran' := by
  have hkind := h.kind
  -- `kind` says that it is not the walk for a client that is gone
  cases hpc : s.server with
  | lock z =>
    rw [hpc] at hkind
    simp only [serverStep, hpc] at hstep
    split at hstep
    · obtain rfl := Option.some_inj.mp hstep
      obtain rfl := hinv.nodes_eq hinv' rfl
      refine ⟨ran, h.setServer hinv hpc hkind (Nat.le_refl _) (fun _ => id) ?_⟩
      rintro n ⟨_, hat, hn⟩
      exact hat.subset hn
    · simp at hstep
  | next z p =>
    rw [hpc] at hkind
    simp only [serverStep, hpc] at hstep
    split at hstep <;> obtain rfl := Option.some_inj.mp hstep <;>
      obtain rfl := hinv.nodes_eq hinv' rfl
    · exact ⟨ran, h.setServer hinv hpc (by rintro ⟨⟩) (Nat.le_refl _) (fun _ => id)
        fun _ => False.elim⟩
    · cases z with
      | true => exact absurd rfl hkind
      | false =>
        refine ⟨ran, h.setServer hinv hpc (by rintro ⟨⟩) (Nat.le_refl _) (fun _ => id) ?_⟩
        rintro n ⟨post, hat, hn⟩
        exact ⟨_, hat, hn⟩
  | unlockNode p q =>
    simp only [serverStep, hpc, Option.some_inj] at hstep
    subst hstep
    obtain rfl := hinv.nodes_eq hinv' rfl
    exact ⟨ran, h.setServer hinv hpc (by rintro ⟨⟩) (Nat.le_refl _) (fun _ => id) fun _ => id⟩
  | callNode p q =>
    simp only [serverStep, hpc, Option.some_inj] at hstep
    subst hstep
    obtain rfl := hinv.nodes_eq hinv' rfl
    exact ⟨_, h.callNode hinv hpc result⟩
  | relock p q r =>
    simp only [serverStep, hpc] at hstep
    split at hstep
    · obtain rfl := Option.some_inj.mp hstep
      obtain rfl := hinv.nodes_eq hinv' rfl
      exact ⟨ran, h.relock hinv hpc⟩
    · simp at hstep
  | zombieNode p q =>
    rw [hpc] at hkind
    exact absurd rfl hkind
  | remove z p q =>
    simp only [serverStep, hpc, Option.some_inj] at hstep
    subst hstep
    exact ⟨ran, h.remove hinv hpc hinv'⟩
  | setLast p | unlock =>
    simp only [serverStep, hpc, Option.some_inj] at hstep
    subst hstep
    obtain rfl := hinv.nodes_eq hinv' rfl
    exact ⟨ran, h.setServer hinv hpc (by rintro ⟨⟩) (Nat.le_refl _) (fun _ => id)
      fun _ => False.elim⟩
  | _ => simp [hpc, Server.InList] at hlist

/-- Every step of the server's thread in `ProcessWorkQueue`. -/
theorem Passing.of_serverStep (h : Passing start e P s ns ran) (hinv : Inv s ns)
    (hinv' : Inv s' ns') {result spurious : Bool}
    (hstep : serverStep s result spurious = some s') : ∃ ran', Passing start e P s' ns' ran' := by
  rcases s.server.parts with hpc | hring | ⟨z, remaining, pos, item, hpc⟩ |
    ⟨z, remaining, item, hpc⟩ | hlist
  · simp [serverStep, hpc] at hstep
  · exact ⟨ran, h.of_ringStep hinv hinv' hring hstep⟩
  · have hok := hinv.server
    have hkind := h.kind
    rw [hpc] at hok hkind
    simp only [serverStep, hpc, Option.some_inj] at hstep
    subst hstep
    obtain rfl := hinv.nodes_eq hinv' rfl
    obtain rfl : item = (s.cellAt pos).item := hok
    exact ⟨ran, h.goOn hinv hpc rfl rfl rfl (setSequence_item s pos _) rfl rfl hkind
      (Nat.le_refl _) (fun _ => id) fun _ => id⟩
  · exact ⟨_, h.of_callStep hinv hinv' hpc hstep⟩
  · exact h.of_listStep hinv hinv' hlist hstep

/-! ### Over runs -/

/-- A step that leaves the ring, the nodes and the server's thread as they are. -/
theorem Passing.of_same (h : Passing start e P s ns ran) (hserver : s'.server = s.server)
    (hdeq : s'.dequeuePos = s.dequeuePos) (henq : s'.enqueuePos = s.enqueuePos)
    (hcell : s'.cell = s.cell) (hnodeItem : s'.nodeItem = s.nodeItem) (hlog : s'.log = s.log)
    (hclaim : ∀ th, (s'.push th).claim = (s.push th).claim)
    (hitem : ∀ th pos, (s.push th).claim = some pos → (s'.push th).item? = (s.push th).item?) :
    Passing start e P s' ns ran := by
  have hlimit : s'.limit = s.limit := by rw [State.limit, State.limit, hserver, hdeq, henq]
  refine h.move hlog (hlimit ▸ h.limit) (henq ▸ h.le) (hserver ▸ h.kind) fun b x hb hcome => ?_
  cases b with
  | hand th =>
    obtain ⟨pos, hlt, hpos⟩ := hcome
    rw [hclaim] at hpos
    exact ⟨.hand th, (hitem th pos hpos).symm.trans hb, pos, hlt, hpos⟩
  | ring pos =>
    obtain ⟨⟨hle, hlt, hnot⟩, hx⟩ := hb
    refine ⟨.ring pos, ⟨⟨hdeq ▸ hle, henq ▸ hlt, ?_⟩, ?_⟩, hcome⟩
    · rintro ⟨th, hc⟩
      exact hnot ⟨th, (hclaim th).trans hc⟩
    · rw [← hx, State.cellAt, State.cellAt, hcell]
  | node n =>
    refine ⟨.node n, ⟨hb.1, hserver ▸ hb.2.1, ?_⟩, ?_⟩
    · rw [← hb.2.2, hnodeItem]
    · rw [ToCome, ← hserver]
      exact hcome
  | server =>
    refine ⟨.server, (popped_congr hserver fun pos _ => ?_).symm.trans hb, trivial⟩
    rw [State.cellAt, State.cellAt, hcell]

theorem Passing.of_step (h : Passing start e P s ns ran) (hinv : Inv s ns)
    (hwrap : NoFullWrap s a) (halone : LeftAlone s a) (hcall : ∀ z, a ≠ .processWorkQueue z)
    (hstep : WorkQueue.step s a = some s') :
    ∃ ns' ran', Inv s' ns' ∧ Passing start e P s' ns' ran' := by
  obtain ⟨ns', hinv'⟩ := hinv.of_step hwrap hstep
  cases a with
  | queueWorkProc i =>
    obtain ⟨hidle, rfl⟩ := step_queueWorkProc hstep
    obtain rfl := hinv'.list.chain.unique hinv.list.chain
    refine ⟨ns', ran, hinv', h.of_same rfl rfl rfl rfl rfl rfl (fun th => ?_)
      fun th pos hpos => ?_⟩
    · by_cases hth : th = some i
      · subst hth
        rw [setPush_push_self, hidle]
        rfl
      · rw [setPush_push_of_ne _ hth]
    · by_cases hth : th = some i
      · subst hth
        rw [hidle] at hpos
        exact nomatch hpos
      · rw [setPush_push_of_ne _ hth]
  | push th spurious =>
    exact ⟨ns', ran, hinv', h.of_pushStep hinv hinv' hwrap halone hstep⟩
  | processWorkQueue z => exact absurd rfl (hcall z)
  | server result spurious =>
    obtain ⟨ran', h'⟩ := h.of_serverStep hinv hinv' hstep
    exact ⟨ns', ran', hinv', h'⟩
  | clientGone tag =>
    obtain rfl := Option.some_inj.mp hstep
    obtain rfl := hinv'.list.chain.unique hinv.list.chain
    exact ⟨ns', ran, hinv', h.of_same rfl rfl rfl rfl rfl rfl (fun _ => rfl) fun _ _ _ => rfl⟩

/-- When a call begins, it still comes to what is queued, and to nothing else. -/
theorem Passing.begin (s : State) (ns : List ℕ) :
    Passing s.log s.enqueuePos (Present s ns) (s.setServer (.countTail false)) ns [] := by
  refine ⟨(List.append_nil _).symm, List.nodup_nil, nofun, Nat.le_refl _, Nat.le_refl _, nofun,
    fun b x hb hcome => ⟨?_, nofun⟩⟩
  cases b with
  | hand th =>
    obtain ⟨pos, -, hclaim⟩ := hcome
    exact ⟨.ring pos, .inr ⟨th, hclaim, hb⟩⟩
  | ring pos => exact ⟨.ring pos, .inl hb⟩
  | node n => exact ⟨.node n, hb.1, hb.2.2⟩
  | server => exact nomatch hb

theorem Reentrant.inv_of_run {as : List Act} (hwrap : Meets Reentrant.step NoFullWrap initial as)
    (hrun : run Reentrant.step initial as = some s) : (∃ ns, Inv s ns) ∧ Nested s :=
  run_invariant (I := fun s => (∃ ns, Inv s ns) ∧ Nested s)
    (fun _ _ _ ⟨⟨_, h⟩, hnested⟩ hwrap hs =>
      ⟨h.of_step hwrap (step_eq_some.mp hs).2, hnested.of_step hs⟩)
    ⟨⟨[], .initial⟩, .initial⟩ hwrap hrun

/-- What a call has done by `t` that began in `s` and took the steps `bs`, and those of others. -/
structure OnePass (s : State) (ns : List ℕ) (bs : List Act) (t : State) : Prop where
  /-- what was there when it began has been run, each item at most once, and nothing else -/
  runs : ∃ ran, t.log = s.log ++ ran ∧ (ran.map Exec.item).Nodup ∧
    (∀ c ∈ ran, Present s ns c.item) ∧ ran.length ≤ s.enqueuePos - s.dequeuePos + ns.length
  /-- until it returns it can go on, or waits for a thread that can -/
  goesOn : GoesOn t
  bounded : ownSteps bs ≤
    21 * (s.enqueuePos - s.dequeuePos) + 5 * ns.length + 7 + 26 * otherSteps bs

/-- A call of `ProcessWorkQueue` that is left alone is one pass: it runs what was there when it
began, each item at most once, and returns. -/
theorem onePass_of_leftAlone {as bs : List Act} {t : State}
    (hwrap : Meets Reentrant.step NoFullWrap initial as)
    (hrun : run Reentrant.step initial as = some s)
    (hwrap' : Meets Reentrant.step NoFullWrap s (.processWorkQueue false :: bs))
    (hcall : ∀ a ∈ bs, ∀ z, a ≠ .processWorkQueue z)
    (hrun' : run Reentrant.step s (.processWorkQueue false :: bs) = some t)
    (halone : Meets Reentrant.step LeftAlone s (.processWorkQueue false :: bs)) :
    ∃ ns, Chain s.next none ns ∧ OnePass s ns bs t := by
  obtain ⟨⟨ns, h⟩, hnested⟩ := Reentrant.inv_of_run hwrap hrun
  refine ⟨ns, h.list.chain, ?_⟩
  obtain ⟨s₁, hbegin, hrest⟩ := run_cons_eq_some.mp hrun'
  obtain ⟨-, hstep⟩ := Reentrant.step_eq_some.mp hbegin
  obtain ⟨ns₁, h₁⟩ := h.of_step hwrap'.1 hstep
  obtain ⟨-, rfl⟩ := step_processWorkQueue hstep
  obtain rfl := h₁.list.chain.unique h.list.chain
  have hok := ((hwrap'.of_step hbegin).and (halone.of_step hbegin)).and
    (meets_of_forall_mem hcall (s.setServer (.countTail false)))
  have hpassing : ∃ ns' ran, Nested t ∧ Inv t ns' ∧
      Passing s.log s.enqueuePos (Present s ns₁) t ns' ran := by
    refine run_invariant (I := fun t => ∃ ns' ran, Nested t ∧ Inv t ns' ∧
      Passing s.log s.enqueuePos (Present s ns₁) t ns' ran) ?_
      ⟨ns₁, [], hnested.of_step hbegin, h₁, .begin s ns₁⟩ hok hrest
    rintro u a u' ⟨ns', ran, hnested, hinv, hp⟩ ⟨⟨hw, ha⟩, hc⟩ hs
    obtain ⟨ns₂, ran', hinv', hp'⟩ := hp.of_step hinv hw ha hc (Reentrant.step_eq_some.mp hs).2
    exact ⟨ns₂, ran', hnested.of_step hs, hinv', hp'⟩
  obtain ⟨ns', ran, hnested', -, hp⟩ := hpassing
  -- in a call of `ProcessWorkQueue` no function is called with the lock
  have hspared : Spared t := by
    intro _
    have hkind := hp.kind
    cases hpc : t.server <;> first | rfl | exact absurd (hpc ▸ rfl) hkind
  refine ⟨⟨ran, hp.log, hp.nodup, hp.present, ?_⟩, hnested'.goesOn hspared,
    steps_le h hwrap' hcall hrun'⟩
  rw [← List.length_map (f := Exec.item)]
  refine h.length_le hp.nodup fun x hx => ?_
  obtain ⟨c, hc, rfl⟩ := List.mem_map.mp hx
  exact hp.present c hc

theorem firstCall_onePass : ∃ s t ns, run Reentrant.step initial queueMany = some s ∧
    run Reentrant.step s firstCall = some t ∧ t.server = .idle ∧ Chain s.next none ns ∧
    OnePass s ns firstCall.tail t := by
  have hdone : (run (restrict Reentrant.step LeftAlone) initial (queueMany ++ firstCall)).map
      (·.server.running) = some false := by decide +kernel
  obtain ⟨t, ht, hidle⟩ := Option.map_eq_some_iff.mp hdone
  obtain ⟨ht, halone⟩ := run_restrict_eq_some ht
  obtain ⟨s, hs, hcall⟩ := Option.bind_eq_some_iff.mp (run_append .. ▸ ht)
  have hwrap : Meets Reentrant.step NoFullWrap initial (queueMany ++ firstCall) :=
    Reentrant.noFullWrap_of_short (by decide +kernel)
  obtain ⟨ns, hchain, hpass⟩ := onePass_of_leftAlone
    (Reentrant.noFullWrap_of_short (by decide +kernel)) hs (hwrap.of_append hs)
    (by decide +kernel) hcall (halone.of_append hs)
  exact ⟨s, t, ns, hs, hcall, Server.running_eq_false.mp hidle, hchain, hpass⟩

/-- The function of the one item that is queued queues 129 more, of which the last finds the
ring full, and returns `TRUE`.  The walk of the list comes to that one. -/
def fillsRing : List Act :=
  List.replicate 9 (Act.server true false) ++ queueMany ++
    List.replicate 6 (Act.server true false)

/-- The call runs what was queued while it ran. -/
theorem fillsRing_runs_new : ∃ s t ns, run Reentrant.step initial (queueBy 1) = some s ∧
    Chain s.next none ns ∧ (∀ a ∈ fillsRing, ∀ z, a ≠ .processWorkQueue z) ∧
    run Reentrant.step s (.processWorkQueue false :: fillsRing) = some t ∧
    ∃ ran, t.log = s.log ++ ran ∧ ∃ c ∈ ran, ¬ Present s ns c.item := by
  have hqueued : (run Reentrant.step initial (queueBy 1)).map
      (fun s => (s.queued, s.log, s.server.running)) = some (1, [], false) := by decide
  have hran : (run Reentrant.step initial (queueBy 1 ++ .processWorkQueue false :: fillsRing)).map
      State.log = some [⟨.of 0, true, false⟩, ⟨.of 129, true, false⟩] := by decide +kernel
  obtain ⟨s, hs, heq⟩ := Option.map_eq_some_iff.mp hqueued
  obtain ⟨hone, heq⟩ := Prod.mk.inj heq
  obtain ⟨hlog, hidle⟩ := Prod.mk.inj heq
  obtain ⟨t, ht, hlog'⟩ := Option.map_eq_some_iff.mp hran
  obtain ⟨⟨ns, h⟩, -⟩ := Reentrant.inv_of_run (Reentrant.noFullWrap_of_short (by decide)) hs
  rw [run_append_of_eq hs] at ht
  have hnone : t.log = s.log ++ t.log := by rw [hlog, List.nil_append]
  refine ⟨s, t, ns, hs, h.list.chain, by decide +kernel, ht, t.log, hnone,
    ⟨.of 129, true, false⟩, by simp [hlog'], fun hpresent => ?_⟩
  -- before the call one item had been queued
  obtain ⟨tag, hlt, htag⟩ := hpresent.own h (Server.running_eq_false.mp hidle)
  have hnew : 129 = tag := of_injective htag
  omega

end WorkQueue
