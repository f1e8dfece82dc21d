/-
The connection to the activity and the buffers announced on it
(`cmdentrypoint.cpp`).

`getXConnection` makes a socket pair and queues a work item; run by the server
thread, the item registers the descriptor with the input thread, stores it in
`conn_fd` and announces the shared state and the root buffer.  When the peer
hangs up, the input thread calls `handleLorieEvents` with `X_NOTIFY_ERROR`, which
closes the descriptor, resets `conn_fd` and empties `registeredBuffers`, whichever
connection it was.  Connections are numbered in the order `getXConnection` made
them; work items run in that order.

* `Connection.step` — work items, hang-ups, their notifications, and the calls of
  `lorieRegisterBuffer` and `lorieUnregisterBuffer`, in any order;
* `Connection.Coherent` — `conn_fd` and `registeredBuffers` fit the connections
  there are;
* `connection_coherent_iff_no_overlap` — they do in exactly the runs in which no
  connection is made while another one is still open.
-/
import KaliGui.Lib.Run
import Mathlib.Data.List.Nodup
import Mathlib.Data.List.Range
import Mathlib.Logic.Function.Basic
import Mathlib.Tactic.Common

namespace Lorie.Connection

open Machine

/-- What the server writes to a connection about its buffers. -/
inductive Msg
  | sharedServerState
  | addBuffer (id : ℕ)
  | removeBuffer (id : ℕ)
  deriving DecidableEq, Repr

/-- The buffer is announced, and not withdrawn since, by the messages written to
a connection, the newest one first. -/
def Announced : List Msg → ℕ → Prop
  | [], _ => False
  | .sharedServerState :: msgs, b => Announced msgs b
  | .addBuffer id :: msgs, b => b = id ∨ Announced msgs b
  | .removeBuffer id :: msgs, b => b ≠ id ∧ Announced msgs b

structure State where
  /-- `none` for -1 -/
  connFd : Option ℕ
  /-- the ids on the list `registeredBuffers` -/
  registeredBuffers : List ℕ
  /-- the id of the screen pixmap's buffer -/
  root : ℕ
  /-- what was written to each connection, the newest message first -/
  sent : ℕ → List Msg
  /-- how many connections `getXConnection` has made -/
  created : ℕ
  /-- the connections whose work item has not run yet -/
  queued : List ℕ
  /-- the descriptors the input thread watches -/
  devices : List ℕ
  /-- the connections whose peer has hung up -/
  hungUp : List ℕ

/-- `write` of a message, to the connection `conn_fd` names. -/
def State.send (s : State) (c : ℕ) (m : Msg) : State :=
  { s with sent := Function.update s.sent c (m :: s.sent c) }

/-- `lorieSendSharedServerState`. -/
def lorieSendSharedServerState (s : State) : State :=
  match s.connFd with
  | none => s
  | some c => s.send c .sharedServerState

/-- `lorieRegisterBuffer`. -/
def lorieRegisterBuffer (s : State) (id : ℕ) : State :=
  match s.connFd with
  | none => s
  | some c =>
    if id ∈ s.registeredBuffers then s
    else { s.send c (.addBuffer id) with registeredBuffers := id :: s.registeredBuffers }

/-- `lorieUnregisterBuffer`. -/
def lorieUnregisterBuffer (s : State) (id : ℕ) : State :=
  if id ∈ s.registeredBuffers then
    match s.connFd with
    | none => s
    | some c =>
      { s.send c (.removeBuffer id) with registeredBuffers := s.registeredBuffers.erase id }
  else s

/-- `lorieActivityConnected`. -/
def lorieActivityConnected (s : State) : State :=
  lorieRegisterBuffer (lorieSendSharedServerState s) s.root

/-- The work item of `getXConnection`. -/
def connectWorkProc (s : State) (c : ℕ) : State :=
  lorieActivityConnected { s with devices := c :: s.devices, connFd := some c }

/-- `handleLorieEvents` with `X_NOTIFY_ERROR`. -/
def handleError (s : State) (c : ℕ) : State :=
  { s with devices := s.devices.erase c, connFd := none, registeredBuffers := [] }

inductive Action
  /-- `getXConnection` is called -/
  | getXConnection
  /-- the server thread runs the oldest queued connect item -/
  | connect
  /-- the peer of a connection closes its end -/
  | hangUp (c : ℕ)
  /-- the input thread is notified of it -/
  | notifyError (c : ℕ)
  /-- a pixmap's buffer is shared with the activity -/
  | register (id : ℕ)
  /-- a pixmap other than the screen's is destroyed -/
  | destroyPixmap (id : ℕ)
  /-- the screen gets a new pixmap, which is registered -/
  | replaceRoot (id : ℕ)
  deriving DecidableEq, Repr

def step (s : State) : Action → Option State
  | .getXConnection =>
    some { s with created := s.created + 1, queued := s.queued ++ [s.created] }
  | .connect =>
    match s.queued with
    | [] => none
    | c :: cs => some (connectWorkProc { s with queued := cs } c)
  | .hangUp c =>
    if c < s.created ∧ c ∉ s.hungUp then some { s with hungUp := c :: s.hungUp } else none
  | .notifyError c =>
    if c ∈ s.devices ∧ c ∈ s.hungUp then some (handleError s c) else none
  | .register id => some (lorieRegisterBuffer s id)
  | .destroyPixmap id => if id ≠ s.root then some (lorieUnregisterBuffer s id) else none
  | .replaceRoot id => some (lorieRegisterBuffer { s with root := id } id)

/-- The server after `initBuffers` and the creation of its screen. -/
def initial (root : ℕ) : State where
  connFd := none
  registeredBuffers := []
  root := root
  sent _ := []
  created := 0
  queued := []
  devices := []
  hungUp := []

/-- Every work item has run and every hang-up has been handled. -/
def Quiescent (s : State) : Prop := s.queued = [] ∧ ∀ c ∈ s.devices, c ∉ s.hungUp

/-- The newest connection that has not hung up. -/
def newestAlive (s : State) : Option ℕ :=
  (List.range s.created).reverse.find? fun c => c ∉ s.hungUp

structure Coherent (s : State) : Prop where
  newest : Quiescent s → s.connFd = newestAlive s
  /-- no hang-up of an older connection disables the newest one -/
  enabled : ∀ c ∈ s.devices, c ∉ s.hungUp → (∀ d ∈ s.devices, d ≤ c) → s.connFd = some c
  announced : ∀ id ∈ s.registeredBuffers, ∃ c, s.connFd = some c ∧ Announced (s.sent c) id
  root : ∀ c, s.connFd = some c → Announced (s.sent c) s.root

/-- The step does not run a connect item while an earlier connection is open, its
hang-up not handled yet. -/
def NoOverlap (s : State) (a : Action) : Prop := a = .connect → s.devices = []

/-! ### What the calls leave unchanged -/

section Frame

variable (s : State) (id : ℕ)

@[simp] theorem sendState_connFd : (lorieSendSharedServerState s).connFd = s.connFd := by
  rw [lorieSendSharedServerState]
  split <;> rfl

@[simp] theorem sendState_registeredBuffers :
    (lorieSendSharedServerState s).registeredBuffers = s.registeredBuffers := by
  rw [lorieSendSharedServerState]
  split <;> rfl

@[simp] theorem register_connFd : (lorieRegisterBuffer s id).connFd = s.connFd := by
  rw [lorieRegisterBuffer]
  repeat' split <;> try rfl

@[simp] theorem register_root : (lorieRegisterBuffer s id).root = s.root := by
  rw [lorieRegisterBuffer]
  repeat' split <;> try rfl

/-- A registration of a registered buffer sends nothing. -/
theorem register_of_mem (h : id ∈ s.registeredBuffers) : lorieRegisterBuffer s id = s := by
  rw [lorieRegisterBuffer]
  split
  · rfl
  · rw [if_pos h]

theorem mem_register_of_mem {b : ℕ} (h : b ∈ s.registeredBuffers) :
    b ∈ (lorieRegisterBuffer s id).registeredBuffers := by
  rw [lorieRegisterBuffer]
  split
  · exact h
  · split
    · exact h
    · exact List.mem_cons_of_mem id h

theorem mem_register_self {c : ℕ} (h : s.connFd = some c) :
    id ∈ (lorieRegisterBuffer s id).registeredBuffers := by
  by_cases hmem : id ∈ s.registeredBuffers
  · exact mem_register_of_mem s id hmem
  · simp only [lorieRegisterBuffer, h, if_neg hmem]
    exact List.mem_cons_self

end Frame

/-! ### The invariant -/

/-- While no two connections overlap: at most one device is registered, `conn_fd`
names it, and what is registered is announced on it. -/
structure Inv (s : State) : Prop where
  devices : s.devices = s.connFd.toList
  closed : s.connFd = none → s.registeredBuffers = []
  announced : ∀ id ∈ s.registeredBuffers, ∃ c, s.connFd = some c ∧ Announced (s.sent c) id
  nodup : s.registeredBuffers.Nodup
  created : ∀ c, s.connFd = some c → c < s.created
  queued : ∀ c ∈ s.queued, c < s.created ∧ s.connFd ≠ some c
  queuedNodup : s.queued.Nodup
  unsent : ∀ c, c ∈ s.queued ∨ s.created ≤ c → s.sent c = []
  covered : ∀ c < s.created, c ∈ s.queued ∨ s.connFd = some c ∨ c ∈ s.hungUp

/-- The screen pixmap's buffer is registered while there is a connection. -/
def RootRegistered (s : State) : Prop := ∀ c, s.connFd = some c → s.root ∈ s.registeredBuffers

theorem inv_initial (root : ℕ) : Inv (initial root) where
  devices := rfl
  closed _ := rfl
  announced id h := absurd h List.not_mem_nil
  nodup := List.nodup_nil
  created c h := by simp [initial] at h
  queued c h := absurd h List.not_mem_nil
  queuedNodup := List.nodup_nil
  unsent c _ := rfl
  covered c h := absurd h (Nat.not_lt_zero c)

theorem newestAlive_eq_none {s : State} (h : ∀ c < s.created, c ∈ s.hungUp) :
    newestAlive s = none := by
  rw [newestAlive, List.find?_eq_none]
  intro c hc
  rw [List.mem_reverse, List.mem_range] at hc
  simp [h c hc]

theorem newestAlive_eq_some {s : State} {c : ℕ} (hc : c < s.created) (halive : c ∉ s.hungUp)
    (h : ∀ d < s.created, d ≠ c → d ∈ s.hungUp) : newestAlive s = some c := by
  have hmem : c ∈ (List.range s.created).reverse := by
    rw [List.mem_reverse, List.mem_range]
    exact hc
  rcases hfind : newestAlive s with _ | d
  · rw [newestAlive, List.find?_eq_none] at hfind
    exact absurd (by simpa using halive) (hfind c hmem)
  · have hd : d < s.created := by
      have := List.mem_of_find?_eq_some hfind
      rwa [List.mem_reverse, List.mem_range] at this
    have hdalive : d ∉ s.hungUp := by simpa using List.find?_some hfind
    by_contra hne
    exact hdalive (h d hd fun heq => hne (by rw [heq]))

/-- The invariant, with the screen's buffer registered, is all that coherence asks. -/
theorem Inv.coherent {s : State} (h : Inv s) (hroot : RootRegistered s) : Coherent s where
  newest := by
    rintro ⟨hqueued, hhandled⟩
    have covered : ∀ c < s.created, s.connFd = some c ∨ c ∈ s.hungUp := by
      intro c hc
      rcases h.covered c hc with hq | hrest
      · rw [hqueued] at hq
        exact absurd hq List.not_mem_nil
      · exact hrest
    rcases hfd : s.connFd with _ | c
    · refine (newestAlive_eq_none fun c hc => (covered c hc).resolve_left ?_).symm
      rw [hfd]
      simp
    · refine (newestAlive_eq_some (h.created c hfd) (hhandled c ?_) fun d hd hne => ?_).symm
      · rw [h.devices, hfd]
        exact List.mem_singleton_self c
      · refine (covered d hd).resolve_left fun heq => hne ?_
        exact Option.some_inj.mp (heq.symm.trans hfd)
  enabled c hc _ _ := by
    rw [h.devices, Option.mem_toList] at hc
    exact hc
  announced := h.announced
  root c hc := by
    obtain ⟨d, hd, hann⟩ := h.announced _ (hroot c hc)
    rwa [Option.some_inj.mp (hc.symm.trans hd)]

/-- A message to the current connection, after which the registered buffers are
announced. -/
theorem Inv.write {s : State} (h : Inv s) {c : ℕ} {m : Msg} {ids : List ℕ}
    (hc : s.connFd = some c) (hids : ids.Nodup)
    (hann : ∀ id ∈ ids, Announced (m :: s.sent c) id) :
    Inv { s.send c m with registeredBuffers := ids } where
  devices := h.devices
  closed hnone := by
    change s.connFd = none at hnone
    simp [hc] at hnone
  announced id hid := by
    refine ⟨c, hc, ?_⟩
    show Announced (Function.update s.sent c (m :: s.sent c) c) id
    rw [Function.update_self]
    exact hann id hid
  nodup := hids
  created := h.created
  queued := h.queued
  queuedNodup := h.queuedNodup
  unsent d hd := by
    have hne : d ≠ c := by
      rintro rfl
      rcases hd with hq | hge
      · exact (h.queued d hq).2 hc
      · exact absurd (h.created d hc) (Nat.not_lt.mpr hge)
    show Function.update s.sent c (m :: s.sent c) d = []
    rw [Function.update_of_ne hne]
    exact h.unsent d hd
  covered := h.covered

/-- The registered buffers are announced on `c` whenever it is the current connection. -/
theorem Inv.announced_on {s : State} (h : Inv s) {c id : ℕ} (hc : s.connFd = some c)
    (hid : id ∈ s.registeredBuffers) : Announced (s.sent c) id := by
  obtain ⟨d, hd, hann⟩ := h.announced id hid
  rwa [Option.some_inj.mp (hc.symm.trans hd)]

theorem Inv.sendState {s : State} (h : Inv s) : Inv (lorieSendSharedServerState s) := by
  rw [lorieSendSharedServerState]
  split
  · exact h
  next c hc => exact h.write hc h.nodup fun id hid => h.announced_on hc hid

theorem Inv.register {s : State} (h : Inv s) (id : ℕ) : Inv (lorieRegisterBuffer s id) := by
  rw [lorieRegisterBuffer]
  split
  · exact h
  next c hc =>
    split
    · exact h
    next hid =>
      refine h.write hc (List.nodup_cons.mpr ⟨hid, h.nodup⟩) fun b hb => ?_
      exact (List.mem_cons.mp hb).imp_right fun hb => h.announced_on hc hb

theorem Inv.unregister {s : State} (h : Inv s) (id : ℕ) : Inv (lorieUnregisterBuffer s id) := by
  rw [lorieUnregisterBuffer]
  split
  · split
    · exact h
    next c hc =>
      refine h.write hc (h.nodup.erase id) fun b hb => ?_
      obtain ⟨hne, hmem⟩ := h.nodup.mem_erase_iff.mp hb
      exact ⟨hne, h.announced_on hc hmem⟩
  · exact h

theorem RootRegistered.register {s : State} (h : RootRegistered s) (id : ℕ) :
    RootRegistered (lorieRegisterBuffer s id) := by
  intro c hc
  rw [register_connFd] at hc
  rw [register_root]
  exact mem_register_of_mem s id (h c hc)

theorem rootRegistered_register_root (s : State) :
    RootRegistered (lorieRegisterBuffer s s.root) := by
  intro c hc
  rw [register_connFd] at hc
  rw [register_root]
  exact mem_register_self s s.root hc

theorem RootRegistered.unregister {s : State} (h : RootRegistered s) {id : ℕ}
    (hne : id ≠ s.root) : RootRegistered (lorieUnregisterBuffer s id) := by
  rw [lorieUnregisterBuffer]
  split
  · split
    · exact h
    · exact fun c hc => (List.mem_erase_of_ne hne.symm).mpr (h c hc)
  · exact h

/-- The connect item of the oldest queued connection, with no device registered. -/
theorem Inv.connect {s : State} (h : Inv s) {c : ℕ} {cs : List ℕ}
    (hq : s.queued = c :: cs) (hdev : s.devices = []) :
    Inv { s with queued := cs, devices := c :: s.devices, connFd := some c } := by
  have hfd : s.connFd = none := by
    rw [h.devices] at hdev
    exact Option.toList_eq_nil_iff.mp hdev
  have hmem : ∀ d ∈ cs, d ∈ s.queued := fun d hd => hq ▸ List.mem_cons_of_mem c hd
  have hc : c ∈ s.queued := hq ▸ List.mem_cons_self
  have hnodup : (c :: cs).Nodup := hq ▸ h.queuedNodup
  refine ⟨?_, ?_, ?_, h.nodup, ?_, ?_, (List.nodup_cons.mp hnodup).2, ?_, ?_⟩
  · rw [hdev]
    rfl
  · simp
  · intro id hid
    change id ∈ s.registeredBuffers at hid
    rw [h.closed hfd] at hid
    exact absurd hid List.not_mem_nil
  · intro d hd
    rw [← Option.some_inj.mp hd]
    exact (h.queued c hc).1
  · intro d hd
    refine ⟨(h.queued d (hmem d hd)).1, fun heq => ?_⟩
    rw [← Option.some_inj.mp heq] at hd
    exact (List.nodup_cons.mp hnodup).1 hd
  · intro d hd
    exact h.unsent d (hd.imp_left (hmem d))
  · intro d hd
    rcases h.covered d hd with hqd | hfd' | hup
    · rw [hq] at hqd
      rcases List.mem_cons.mp hqd with rfl | hqd
      · exact Or.inr (Or.inl rfl)
      · exact Or.inl hqd
    · simp [hfd] at hfd'
    · exact Or.inr (Or.inr hup)

/-- The hang-up of the one open connection, handled. -/
theorem Inv.handleError {s : State} (h : Inv s) {c : ℕ} (hdev : c ∈ s.devices)
    (hup : c ∈ s.hungUp) : Inv (handleError s c) := by
  have hfd : s.connFd = some c := by
    rwa [h.devices, Option.mem_toList] at hdev
  refine ⟨?_, fun _ => rfl, fun id hid => absurd hid List.not_mem_nil, List.nodup_nil, ?_, ?_,
    h.queuedNodup, h.unsent, fun d hd => ?_⟩
  · show s.devices.erase c = []
    rw [h.devices, hfd]
    simp
  · simp [Connection.handleError]
  · exact fun d hd => ⟨(h.queued d hd).1, by simp [Connection.handleError]⟩
  · rcases h.covered d hd with hq | hfd' | hup'
    · exact Or.inl hq
    · rw [hfd, Option.some_inj] at hfd'
      exact Or.inr (Or.inr (hfd' ▸ hup))
    · exact Or.inr (Or.inr hup')

/-- A step that makes no connections overlap keeps the invariant. -/
theorem inv_step {s s' : State} {a : Action} (h : Inv s ∧ RootRegistered s)
    (hok : NoOverlap s a) (hstep : step s a = some s') : Inv s' ∧ RootRegistered s' := by
  obtain ⟨h, hroot⟩ := h
  cases a with
  | getXConnection =>
    obtain rfl := Option.some_inj.mp hstep
    -- the connection is new, and so is its item in the work queue
    refine ⟨⟨h.devices, h.closed, h.announced, h.nodup, ?_, ?_, ?_, ?_, ?_⟩, hroot⟩
    · exact fun c hc => Nat.lt_succ_of_lt (h.created c hc)
    · intro c hc
      rcases List.mem_append.mp hc with hc | hc
      · exact ⟨Nat.lt_succ_of_lt (h.queued c hc).1, (h.queued c hc).2⟩
      · obtain rfl := List.mem_singleton.mp hc
        exact ⟨Nat.lt_succ_self _, fun hfd => absurd (h.created _ hfd) (Nat.lt_irrefl _)⟩
    · refine List.nodup_append'.mpr ⟨h.queuedNodup, List.nodup_singleton _, ?_⟩
      intro c hc hc'
      obtain rfl := List.mem_singleton.mp hc'
      exact absurd (h.queued _ hc).1 (Nat.lt_irrefl _)
    · intro c hc
      refine h.unsent c ?_
      rcases hc with hc | hc
      · rcases List.mem_append.mp hc with hc | hc
        · exact Or.inl hc
        · exact Or.inr (List.mem_singleton.mp hc).ge
      · exact Or.inr (Nat.le_of_succ_le hc)
    · intro c hc
      rcases Nat.lt_succ_iff_lt_or_eq.mp hc with hc | rfl
      · exact (h.covered c hc).imp_left fun hq => List.mem_append_left _ hq
      · exact Or.inl (List.mem_append_right _ (List.mem_singleton_self _))
  | connect =>
    simp only [step] at hstep
    split at hstep <;> [simp at hstep; skip]
    next c cs hq =>
      obtain rfl := Option.some_inj.mp hstep
      exact ⟨((h.connect hq (hok rfl)).sendState).register _, rootRegistered_register_root _⟩
  | hangUp c =>
    simp only [step] at hstep
    split at hstep <;> [skip; simp at hstep]
    next hc =>
      obtain rfl := Option.some_inj.mp hstep
      refine ⟨⟨h.devices, h.closed, h.announced, h.nodup, h.created, h.queued, h.queuedNodup,
        h.unsent, fun d hd => ?_⟩, hroot⟩
      exact (h.covered d hd).imp_right fun hd => hd.imp_right fun hd => List.mem_cons_of_mem c hd
  | notifyError c =>
    simp only [step] at hstep
    split at hstep <;> [skip; simp at hstep]
    next hc =>
      obtain rfl := Option.some_inj.mp hstep
      exact ⟨h.handleError hc.1 hc.2, fun d hd => by simp [handleError] at hd⟩
  | register id =>
    obtain rfl := Option.some_inj.mp hstep
    exact ⟨h.register id, hroot.register id⟩
  | destroyPixmap id =>
    simp only [step] at hstep
    split at hstep <;> [skip; simp at hstep]
    next hne =>
      obtain rfl := Option.some_inj.mp hstep
      exact ⟨h.unregister id, hroot.unregister hne⟩
  | replaceRoot id =>
    obtain rfl := Option.some_inj.mp hstep
    have hinv : Inv { s with root := id } := ⟨h.devices, h.closed, h.announced, h.nodup,
      h.created, h.queued, h.queuedNodup, h.unsent, h.covered⟩
    exact ⟨hinv.register id, rootRegistered_register_root { s with root := id }⟩

/-- A connect item that runs while another connection is open announces the
screen's buffer nowhere: it is on the list already. -/
theorem overlap_not_coherent {s s' : State} (h : Inv s) (hroot : RootRegistered s)
    (hdev : s.devices ≠ []) (hstep : step s .connect = some s') : ¬ Coherent s' := by
  intro hcoh
  simp only [step] at hstep
  split at hstep <;> [simp at hstep; skip]
  next c cs hq =>
    have hmem : s.root ∈ s.registeredBuffers := by
      rcases hfd : s.connFd with _ | d
      · rw [h.devices, hfd] at hdev
        exact absurd rfl hdev
      · exact hroot d hfd
    have hsent : s.sent c = [] := h.unsent c (Or.inl (hq ▸ List.mem_cons_self))
    have hs' : s' = lorieSendSharedServerState
        { s with queued := cs, devices := c :: s.devices, connFd := some c } := by
      rw [← Option.some_inj.mp hstep, connectWorkProc, lorieActivityConnected]
      refine register_of_mem _ _ ?_
      rw [sendState_registeredBuffers]
      exact hmem
    have hann := hcoh.root c (by rw [hs', sendState_connFd])
    rw [hs'] at hann
    simp only [lorieSendSharedServerState, State.send, Function.update_self, Announced,
      hsent] at hann

/-! ### When the connections are coherent -/

/-- `conn_fd` and the registered buffers fit the connections throughout a run if
and only if no connect item runs in it while an earlier connection is open. -/
theorem connection_coherent_iff_no_overlap (root : ℕ) (as : List Action) (s : State)
    (hrun : run step (initial root) as = some s) :
    Always step Coherent (initial root) as ↔ Meets step NoOverlap (initial root) as := by
  refine always_iff_meets (I := fun s => Inv s ∧ RootRegistered s)
    (fun s hs => hs.1.coherent hs.2) (fun s a s' hs hstep => ⟨fun hok => ?_, fun hcoh ha => ?_⟩)
    (fun s a s' hs hok hstep => inv_step hs hok hstep)
    ⟨inv_initial root, fun c hc => by simp [initial] at hc⟩ hrun
  · obtain ⟨h, hroot⟩ := inv_step hs hok hstep
    exact h.coherent hroot
  · by_contra hdev
    subst ha
    exact overlap_not_coherent hs.1 hs.2 hdev hstep hcoh

/-- Two connections; the first one's hang-up is handled after the second one's
connect item has run. -/
def lateHangUp : List Action :=
  [.getXConnection, .connect, .getXConnection, .connect, .hangUp 0, .notifyError 0]

/-- After `lateHangUp` nothing is pending and the newest connection, still alive,
is disabled. -/
theorem lateHangUp_not_coherent :
    ∃ s, run step (initial 1) lateHangUp = some s ∧ Quiescent s ∧
      newestAlive s = some 1 ∧ s.connFd = none ∧
      ¬ Always step Coherent (initial 1) lateHangUp := by
  refine ⟨_, rfl, ⟨rfl, by decide⟩, by decide, rfl, fun hall => ?_⟩
  have hcoh := (((((hall.of_step rfl).of_step rfl).of_step rfl).of_step rfl).of_step rfl).of_step
    rfl
  exact absurd (hcoh.newest ⟨rfl, by decide⟩) (by decide)

/-- A reconnection after the hang-up was handled is coherent throughout. -/
theorem coherent_reconnect :
    Always step Coherent (initial 1)
      [.getXConnection, .connect, .hangUp 0, .notifyError 0, .getXConnection, .connect] := by
  refine (connection_coherent_iff_no_overlap 1 _ _ rfl).mpr ?_
  simp [Meets, NoOverlap, step, initial, connectWorkProc, lorieActivityConnected,
    lorieSendSharedServerState, lorieRegisterBuffer, State.send, handleError]

end Lorie.Connection
