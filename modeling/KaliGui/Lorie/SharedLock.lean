/-
The lock of the shared server state, taken by two processes (`lorie.h`).

The X server and the renderer are separate processes; both map
`lorie_shared_server_state` and take its `lock` with `lorie_mutex_lock` and give
it back with `lorie_mutex_unlock`.  A timed attempt that expires looks at
`*lockingPid` and at `lorieConnectionAlive()`: either it keeps waiting or, taking
the other process for dead, it re-initialises the mutex.  The deadline is read off
`CLOCK_MONOTONIC` and waited for on `CLOCK_REALTIME`, where it is long past: an
attempt that has to wait may expire at once.

`lorieConnectionAlive` reads the process's own `conn_fd`.  Only the work item
queued by `getXConnection` ever sets it, and that runs in the X server: in the
renderer's process it keeps its static initialiser, so there the connection
never looks alive.

* `Lock.step` — one atomic step of either process, with the timeouts as actions;
* `Lock.Inv` — who owns the mutex and how often, while the renderer's attempts
  do not expire;
* `lock_excludes_until_renderer_timeout` — what the lock gives and when.
-/
import KaliGui.Lib.Run
import Mathlib.Data.Int.Notation
import Mathlib.Logic.Function.Basic
import Mathlib.Tactic.Common

namespace Lorie.Lock

open Machine

/-- The two processes that map the shared state. -/
inductive Proc
  | server
  | renderer
  deriving DecidableEq, Repr

/-- The process at the other end of the connection. -/
def Proc.other : Proc → Proc
  | server => renderer
  | renderer => server

@[simp] theorem Proc.other_ne (p : Proc) : p.other ≠ p := by cases p <;> decide

theorem Proc.eq_other_of_ne {p q : Proc} (h : q ≠ p) : q = p.other := by
  cases p <;> cases q <;> first | rfl | exact absurd rfl h

/-! ### The mutex -/

/-- A process-shared recursive pthread mutex. -/
structure Mutex where
  owner : Option Proc
  count : ℕ
  deriving DecidableEq, Repr

/-- The mutex as `pthread_mutex_init` leaves it. -/
def Mutex.init : Mutex := ⟨none, 0⟩

/-- Taking the mutex where that needs no waiting; `none` if another process owns it. -/
def Mutex.tryLock (m : Mutex) (p : Proc) : Option Mutex :=
  match m.owner with
  | none => some ⟨some p, 1⟩
  | some q => if q = p then some ⟨some p, m.count + 1⟩ else none

/-- `pthread_mutex_unlock`; on a recursive mutex it fails with `EPERM`, changing
nothing, when the caller is not the owner. -/
def Mutex.unlock (m : Mutex) (p : Proc) : Mutex :=
  if m.owner = some p then
    if m.count ≤ 1 then Mutex.init else ⟨some p, m.count - 1⟩
  else m

/-- Where taking the mutex needs no waiting, the count goes up by one. -/
theorem Mutex.tryLock_eq_some {m m' : Mutex} {p : Proc} (h : m.tryLock p = some m') :
    m' = ⟨some p, (if m.owner = some p then m.count else 0) + 1⟩ ∧ m.owner ≠ some p.other := by
  rw [Mutex.tryLock] at h
  rcases ho : m.owner with _ | q
  · simp only [ho, Option.some_inj] at h
    simp [← h]
  · simp only [ho] at h
    split at h
    next hq =>
      subst hq
      rw [Option.some_inj] at h
      simp [← h, Ne.symm (Proc.other_ne q)]
    next hq => simp at h

theorem Mutex.tryLock_eq_none {m : Mutex} {p : Proc} (h : m.tryLock p = none) :
    m.owner = some p.other := by
  rw [Mutex.tryLock] at h
  rcases ho : m.owner with _ | q
  · simp [ho] at h
  · simp only [ho] at h
    split at h
    next => simp at h
    next hq => rw [Proc.eq_other_of_ne hq]

theorem Mutex.tryLock_free {m : Mutex} (p : Proc) (h : m.owner = none) :
    m.tryLock p = some ⟨some p, 1⟩ := by
  rw [Mutex.tryLock, h]

/-- What `pthread_mutex_unlock` leaves to its caller when it owned the mutex. -/
theorem Mutex.unlock_owned {m : Mutex} {p : Proc} (h : m.owner = some p) (hc : 0 < m.count) :
    (if (m.unlock p).owner = some p then (m.unlock p).count else 0) = m.count - 1 ∧
      ((m.unlock p).owner = some p → 0 < (m.unlock p).count) ∧
      (m.unlock p).owner ≠ some p.other := by
  rw [Mutex.unlock, if_pos h]
  split
  next hle =>
    refine ⟨?_, ?_, ?_⟩ <;> simp [Mutex.init]
    omega
  next hlt =>
    refine ⟨by simp, fun _ => ?_, by simp [Ne.symm (Proc.other_ne p)]⟩
    show 0 < m.count - 1
    omega

/-! ### Liveness of the connection -/

/-- What `poll` on the one descriptor reports: how many are ready, and whether
`revents` has one of `POLLERR`, `POLLNVAL`, `POLLRDHUP`, `POLLHUP`. -/
structure PollResult where
  ready : ℕ
  broken : Bool
  deriving DecidableEq, Repr

/-- The static initialiser of `conn_fd`. -/
def connFdInit : ℤ := -1

/-- `lorieConnectionAlive`, on the calling process's `conn_fd`. -/
def lorieConnectionAlive (connFd : ℤ) (poll : PollResult) : Bool :=
  if connFd = -1 then false else !(poll.ready == 1 && poll.broken)

/-! ### The two processes -/

/-- Where a process is in `lorie_mutex_lock` or `lorie_mutex_unlock`. -/
inductive Pc
  /-- in neither of the two -/
  | outside
  /-- about to call `pthread_mutex_timedlock` -/
  | trying
  /-- waiting inside `pthread_mutex_timedlock` -/
  | blocked
  /-- it returned `ETIMEDOUT` -/
  | timedOut
  /-- about to overwrite the mutex with a fresh one -/
  | reinit
  /-- it returned `0`, `*lockingPid` is not written yet -/
  | locked
  /-- `*lockingPid` is cleared, the mutex not yet given back -/
  | unlocking
  deriving DecidableEq, Repr

structure Process where
  pc : Pc
  /-- calls of `lorie_mutex_lock` that returned, less the `lorie_mutex_unlock`
  calls made: as long as it is positive the process believes it holds the lock -/
  depth : ℕ
  connFd : ℤ
  deriving DecidableEq, Repr

structure State where
  mutex : Mutex
  /-- `none` for the 0 that `lorie_mutex_unlock` writes -/
  lockingPid : Option Proc
  proc : Proc → Process

/-- The state with one process replaced. -/
def State.set (s : State) (p : Proc) (x : Process) : State :=
  { s with proc := Function.update s.proc p x }

@[simp] theorem State.set_mutex (s : State) (p : Proc) (x : Process) :
    (s.set p x).mutex = s.mutex := rfl

@[simp] theorem State.set_lockingPid (s : State) (p : Proc) (x : Process) :
    (s.set p x).lockingPid = s.lockingPid := rfl

theorem State.set_proc (s : State) (p q : Proc) (x : Process) :
    (s.set p x).proc q = if q = p then x else s.proc q :=
  Function.update_apply s.proc p x q

theorem State.set_proc_server (s : State) (x : Process) :
    (s.set .server x).proc .renderer = s.proc .renderer := by
  rw [State.set_proc, if_neg (by decide)]

inductive Action
  /-- `lorie_mutex_lock` is called -/
  | callLock (p : Proc)
  /-- `pthread_mutex_timedlock` is called -/
  | timedlock (p : Proc)
  /-- a waiting `pthread_mutex_timedlock` gets the mutex -/
  | wake (p : Proc)
  /-- a waiting `pthread_mutex_timedlock` returns `ETIMEDOUT` -/
  | timeout (p : Proc)
  /-- the test after a timeout; `readable` if the socket has data for the process -/
  | check (p : Proc) (readable : Bool)
  /-- `memcpy` and `pthread_mutex_init` -/
  | reinit (p : Proc)
  /-- `*lockingPid = getpid()` and return -/
  | storePid (p : Proc)
  /-- `lorie_mutex_unlock` is called, `*lockingPid = 0` -/
  | callUnlock (p : Proc)
  /-- `pthread_mutex_unlock` and return -/
  | unlock (p : Proc)
  deriving DecidableEq, Repr

/-- `poll` between two live connected peers: nothing but pending data to report. -/
def livePoll (readable : Bool) : PollResult := ⟨if readable then 1 else 0, false⟩

/-- One atomic step.  Both processes stay alive and connected throughout. -/
def step (s : State) : Action → Option State
  | .callLock p =>
    if (s.proc p).pc = .outside then some (s.set p { s.proc p with pc := .trying }) else none
  | .timedlock p =>
    if (s.proc p).pc = .trying then
      match s.mutex.tryLock p with
      | some m => some { s.set p { s.proc p with pc := .locked } with mutex := m }
      | none => some (s.set p { s.proc p with pc := .blocked })
    else none
  | .wake p =>
    if (s.proc p).pc = .blocked then
      (s.mutex.tryLock p).map fun m =>
        { s.set p { s.proc p with pc := .locked } with mutex := m }
    else none
  | .timeout p =>
    if (s.proc p).pc = .blocked then some (s.set p { s.proc p with pc := .timedOut }) else none
  | .check p readable =>
    if (s.proc p).pc = .timedOut then
      if s.lockingPid = some p ∨
          lorieConnectionAlive (s.proc p).connFd (livePoll readable) = true then
        some (s.set p { s.proc p with pc := .trying })
      else some (s.set p { s.proc p with pc := .reinit })
    else none
  | .reinit p =>
    if (s.proc p).pc = .reinit then
      some { s.set p { s.proc p with pc := .trying } with mutex := Mutex.init }
    else none
  | .storePid p =>
    if (s.proc p).pc = .locked then
      some { s.set p { s.proc p with pc := .outside, depth := (s.proc p).depth + 1 } with
        lockingPid := some p }
    else none
  | .callUnlock p =>
    if (s.proc p).pc = .outside ∧ 0 < (s.proc p).depth then
      some { s.set p { s.proc p with pc := .unlocking, depth := (s.proc p).depth - 1 } with
        lockingPid := none }
    else none
  | .unlock p =>
    if (s.proc p).pc = .unlocking then
      some { s.set p { s.proc p with pc := .outside } with mutex := s.mutex.unlock p }
    else none

/-- Server and renderer right after they connected: `fd` is the server's end of
the socket pair, the renderer's `conn_fd` is untouched. -/
def initial (fd : ℕ) : State where
  mutex := Mutex.init
  lockingPid := none
  proc
    | .server => ⟨.outside, 0, fd⟩
    | .renderer => ⟨.outside, 0, connFdInit⟩

/-- Not both processes believe they hold the lock, and neither is about to
re-initialise a mutex the other one holds. -/
def Exclusive (s : State) : Prop :=
  ¬ (0 < (s.proc .server).depth ∧ 0 < (s.proc .renderer).depth) ∧
    ∀ p, ¬ ((s.proc p).pc = .reinit ∧ s.mutex.owner = some p.other)

/-- The step is not the expiry of a timed attempt of the renderer. -/
def NoRendererTimeout (_ : State) (a : Action) : Prop := a ≠ .timeout .renderer

/-- In the server it does, as long as the peer is there. -/
theorem server_connection_alive (fd : ℕ) (readable : Bool) :
    lorieConnectionAlive ((initial fd).proc .server).connFd (livePoll readable) = true := by
  have hfd : ((initial fd).proc .server).connFd ≠ -1 := by
    show ((fd : ℤ)) ≠ -1
    omega
  rw [lorieConnectionAlive, if_neg hfd]
  simp [livePoll]

/-! ### The invariant -/

/-- Whether a process owns the mutex beyond the calls that returned: between the
return of `pthread_mutex_timedlock` and that of `lorie_mutex_lock`, and between
the two writes of `lorie_mutex_unlock`. -/
def Pc.holding : Pc → ℕ
  | .locked | .unlocking => 1
  | _ => 0

/-- While no timed attempt of the renderer expires, the mutex counts exactly what
its owner believes, and nobody is on the way to re-initialise it. -/
structure Inv (fd : ℕ) (s : State) : Prop where
  connServer : (s.proc .server).connFd = fd
  connRenderer : (s.proc .renderer).connFd = connFdInit
  noTimeout : (s.proc .renderer).pc ≠ .timedOut
  noReinit : ∀ p, (s.proc p).pc ≠ .reinit
  owns : ∀ p, (s.proc p).depth + (s.proc p).pc.holding =
    if s.mutex.owner = some p then s.mutex.count else 0
  counted : ∀ p, s.mutex.owner = some p → 0 < s.mutex.count
  pid : ∀ p, s.lockingPid = some p → 0 < (s.proc p).depth
  waits : ∀ p, (s.proc p).pc = .blocked → s.mutex.owner ≠ some p

theorem inv_initial (fd : ℕ) : Inv fd (initial fd) where
  connServer := rfl
  connRenderer := rfl
  noTimeout := by simp [initial]
  noReinit p := by cases p <;> simp [initial]
  owns p := by cases p <;> rfl
  counted p h := by simp [initial, Mutex.init] at h
  pid p h := by simp [initial] at h
  waits p _ := by simp [initial, Mutex.init]

/-- A step of `p` keeps the invariant if it does so for `p` and leaves what the
mutex and `lockingPid` say about the other process as it was. -/
theorem Inv.update {fd : ℕ} {s : State} (h : Inv fd s) {p : Proc} {x : Process} {m : Mutex}
    {l : Option Proc} (hconn : x.connFd = (s.proc p).connFd)
    (htime : p = .renderer → x.pc ≠ .timedOut) (hre : x.pc ≠ .reinit)
    (howns : x.depth + x.pc.holding = if m.owner = some p then m.count else 0)
    (hcount : m.owner = some p → 0 < m.count)
    (hother : m.owner = some p.other → m = s.mutex)
    (hother' : s.mutex.owner = some p.other → m = s.mutex)
    (hpid : l = some p → 0 < x.depth)
    (hpid' : l = some p.other → s.lockingPid = some p.other)
    (hwaits : x.pc = .blocked → m.owner ≠ some p) :
    Inv fd ⟨m, l, Function.update s.proc p x⟩ := by
  -- `p` is as the hypotheses say, and the other process is untouched
  have hproc : ∀ q, q ≠ p → Function.update s.proc p x q = s.proc q :=
    fun q hq => Function.update_of_ne hq x s.proc
  have hself : Function.update s.proc p x p = x := Function.update_self p x s.proc
  have hfd : ∀ q, (Function.update s.proc p x q).connFd = (s.proc q).connFd := by
    intro q
    by_cases hq : q = p
    · subst hq
      rw [hself, hconn]
    · rw [hproc q hq]
  refine ⟨(hfd _).trans h.connServer, (hfd _).trans h.connRenderer, ?_, ?_, ?_, ?_, ?_, ?_⟩
  · show (Function.update s.proc p x .renderer).pc ≠ .timedOut
    by_cases hp : Proc.renderer = p
    · rw [← hp, Function.update_self]
      exact htime hp.symm
    · rw [hproc _ hp]
      exact h.noTimeout
  · intro q
    show (Function.update s.proc p x q).pc ≠ .reinit
    by_cases hq : q = p
    · rw [hq, hself]
      exact hre
    · rw [hproc q hq]
      exact h.noReinit q
  · intro q
    show (Function.update s.proc p x q).depth + (Function.update s.proc p x q).pc.holding =
      if m.owner = some q then m.count else 0
    by_cases hq : q = p
    · rw [hq, hself]
      exact howns
    · -- the other process owns the mutex as before, or neither owns it
      rw [hproc q hq, h.owns q]
      obtain rfl := Proc.eq_other_of_ne hq
      by_cases ho : m.owner = some p.other
      · rw [hother ho]
      · rw [if_neg ho, if_neg fun ho' => ho (by rw [hother' ho', ho'])]
  · intro q hq
    change m.owner = some q at hq
    by_cases hqp : q = p
    · exact hcount (hqp ▸ hq)
    · obtain rfl := Proc.eq_other_of_ne hqp
      have hm := hother hq
      rw [hm] at hq ⊢
      exact h.counted _ hq
  · intro q hq
    change l = some q at hq
    show 0 < (Function.update s.proc p x q).depth
    by_cases hqp : q = p
    · subst hqp
      rw [hself]
      exact hpid hq
    · rw [hproc q hqp]
      obtain rfl := Proc.eq_other_of_ne hqp
      exact h.pid _ (hpid' hq)
  · intro q hq
    change (Function.update s.proc p x q).pc = .blocked at hq
    show m.owner ≠ some q
    by_cases hqp : q = p
    · subst hqp
      rw [hself] at hq
      exact hwaits hq
    · -- who waits does not own it, and is not given it by this step
      rw [hproc q hqp] at hq
      obtain rfl := Proc.eq_other_of_ne hqp
      intro ho
      exact h.waits _ hq (hother ho ▸ ho)

/-- A step of `p` that touches neither the mutex nor `lockingPid`. -/
theorem Inv.set {fd : ℕ} {s : State} (h : Inv fd s) {p : Proc} {pc : Pc}
    (hpc : pc.holding = (s.proc p).pc.holding)
    (htime : p = .renderer → pc ≠ .timedOut) (hre : pc ≠ .reinit)
    (hwaits : pc = .blocked → s.mutex.owner ≠ some p) :
    Inv fd (s.set p { s.proc p with pc := pc }) := by
  refine h.update rfl htime hre ?_ (h.counted p) (fun _ => rfl) (fun _ => rfl) (h.pid p) id hwaits
  show (s.proc p).depth + pc.holding = _
  rw [hpc]
  exact h.owns p

/-- A process that gets the mutex, before it writes `lockingPid`. -/
theorem Inv.acquire {fd : ℕ} {s : State} (h : Inv fd s) {p : Proc} {m : Mutex}
    (hpc : (s.proc p).pc.holding = 0) (hm : s.mutex.tryLock p = some m) :
    Inv fd { s.set p { s.proc p with pc := .locked } with mutex := m } := by
  obtain ⟨rfl, hother⟩ := Mutex.tryLock_eq_some hm
  have howns := h.owns p
  rw [hpc] at howns
  refine h.update rfl (by simp) (by simp) ?_ (fun _ => Nat.succ_pos _) (fun ho => ?_)
    (fun ho => absurd ho hother) (h.pid p) id (by simp)
  · rw [if_pos rfl]
    show (s.proc p).depth + 1 = _
    rw [← howns]
  · exact absurd (Option.some_inj.mp ho) (Proc.other_ne p).symm

/-- Every step but the expiry of a renderer's attempt keeps the invariant. -/
theorem inv_step {fd : ℕ} {s s' : State} {a : Action} (h : Inv fd s)
    (hok : NoRendererTimeout s a) (hstep : step s a = some s') : Inv fd s' := by
  cases a with
  | callLock p =>
    simp only [step] at hstep
    split at hstep <;> simp only [Option.some_inj, reduceCtorEq] at hstep
    next hpc =>
      subst hstep
      exact h.set (by rw [hpc]; rfl) (by simp) (by simp) (by simp)
  | timedlock p =>
    simp only [step] at hstep
    split at hstep <;> [skip; simp at hstep]
    next hpc =>
      split at hstep
      next m hm =>
        obtain rfl := Option.some_inj.mp hstep
        exact h.acquire (by rw [hpc]; rfl) hm
      next hm =>
        -- it waits because the mutex is the other's, so not its own
        obtain rfl := Option.some_inj.mp hstep
        have howner := Mutex.tryLock_eq_none hm
        refine h.set (by rw [hpc]; rfl) (by simp) (by simp) fun _ => ?_
        rw [howner]
        simp
  | wake p =>
    simp only [step] at hstep
    split at hstep <;> [skip; simp at hstep]
    next hpc =>
      obtain ⟨m, hm, rfl⟩ := Option.map_eq_some_iff.mp hstep
      exact h.acquire (by rw [hpc]; rfl) hm
  | timeout p =>
    have hp : p ≠ .renderer := fun hp => hok (by rw [hp])
    simp only [step] at hstep
    split at hstep <;> simp only [Option.some_inj, reduceCtorEq] at hstep
    next hpc =>
      subst hstep
      exact h.set (by rw [hpc]; rfl) (fun hr => absurd hr hp) (by simp) (by simp)
  | check p readable =>
    simp only [step] at hstep
    split at hstep <;> [skip; simp at hstep]
    next hpc =>
      -- only attempts of the server have expired, and its connection looks alive
      obtain rfl : p = .server := by
        cases p with
        | server => rfl
        | renderer => exact absurd hpc h.noTimeout
      have hfd : (s.proc .server).connFd = ((initial fd).proc .server).connFd := h.connServer
      rw [if_pos (Or.inr (by rw [hfd]; exact server_connection_alive fd readable)),
        Option.some_inj] at hstep
      subst hstep
      exact h.set (by rw [hpc]; rfl) (by simp) (by simp) (by simp)
  | reinit p =>
    simp only [step] at hstep
    split at hstep <;> [skip; simp at hstep]
    next hpc => exact absurd hpc (h.noReinit p)
  | storePid p =>
    simp only [step] at hstep
    split at hstep <;> simp only [Option.some_inj, reduceCtorEq] at hstep
    next hpc =>
      -- what counted as the call that holds the mutex counts as a hold from here on
      subst hstep
      have howns := h.owns p
      rw [hpc] at howns
      exact h.update rfl (by simp) (by simp) howns (h.counted p) (fun _ => rfl) (fun _ => rfl)
        (fun _ => Nat.succ_pos _)
        (fun hl => absurd (Option.some_inj.mp hl) (Proc.other_ne p).symm) (by simp)
  | callUnlock p =>
    simp only [step] at hstep
    split at hstep <;> simp only [Option.some_inj, reduceCtorEq] at hstep
    next hpc =>
      subst hstep
      have howns := h.owns p
      rw [hpc.1] at howns
      exact h.update rfl (by simp) (by simp) ((Nat.sub_add_cancel hpc.2).trans howns)
        (h.counted p) (fun _ => rfl) (fun _ => rfl) (by simp) (by simp) (by simp)
  | unlock p =>
    simp only [step] at hstep
    split at hstep <;> simp only [Option.some_inj, reduceCtorEq] at hstep
    next hpc =>
      subst hstep
      have howns := h.owns p
      rw [hpc] at howns
      have howner : s.mutex.owner = some p := by
        by_contra hne
        rw [if_neg hne] at howns
        exact absurd howns (Nat.succ_ne_zero _)
      obtain ⟨hleft, hcount, hother⟩ := Mutex.unlock_owned howner (h.counted p howner)
      refine h.update rfl (by simp) (by simp) ?_ hcount (fun ho => absurd ho hother)
        (fun ho => ?_) (h.pid p) id (by simp)
      · rw [hleft, if_pos howner] at *
        show (s.proc p).depth + 0 = _
        change (s.proc p).depth + 1 = _ at howns
        omega
      · rw [howner] at ho
        exact absurd (Option.some_inj.mp ho) (Proc.other_ne p).symm

/-- Under the invariant a process that believes it holds the lock owns the mutex. -/
theorem Inv.exclusive {fd : ℕ} {s : State} (h : Inv fd s) : Exclusive s := by
  refine ⟨fun ⟨hserver, hrenderer⟩ => ?_, fun p hp => h.noReinit p hp.1⟩
  have owner : ∀ p, 0 < (s.proc p).depth → s.mutex.owner = some p := by
    intro p hp
    by_contra hne
    have howns := h.owns p
    rw [if_neg hne] at howns
    omega
  have heq := (owner _ hserver).symm.trans (owner _ hrenderer)
  simp at heq

/-! ### After a timeout of the renderer -/

/-- A free mutex can go to the server next, whatever the server is doing. -/
theorem server_takes_free {fd : ℕ} {s : State}
    (hfd : (s.proc .server).connFd = fd) (hfree : s.mutex.owner = none)
    (hpc : (s.proc .server).pc.holding = 0) (hre : (s.proc .server).pc ≠ .reinit) :
    ∃ as t, run step s as = some t ∧ t.mutex.owner = some .server ∧
      t.proc .renderer = s.proc .renderer ∧ t.lockingPid = s.lockingPid := by
  have hlock := Mutex.tryLock_free .server hfree
  have trying : ∀ s : State, (s.proc .server).pc = .trying → s.mutex.tryLock .server =
      some ⟨some .server, 1⟩ → ∃ t, run step s [.timedlock .server] = some t ∧
        t.mutex.owner = some .server ∧ t.proc .renderer = s.proc .renderer ∧
        t.lockingPid = s.lockingPid := by
    intro s hs hm
    refine ⟨{ s.set .server { s.proc .server with pc := .locked } with
      mutex := ⟨some .server, 1⟩ }, ?_, rfl,
      s.set_proc_server { s.proc .server with pc := .locked }, rfl⟩
    simp only [run_singleton, step, if_pos hs, hm]
  -- one case for each place the server can be at; the last three hold the mutex or break it
  rcases hs : (s.proc .server).pc with _ | _ | _ | _ | _ | _ | _
  · obtain ⟨t, ht, howner, hproc, hpid⟩ :=
      trying (s.set .server { s.proc .server with pc := .trying })
        (by rw [State.set_proc, if_pos rfl]) hlock
    refine ⟨[.callLock .server, .timedlock .server], t, ?_, howner, hproc.trans ?_, hpid⟩
    · rw [run_cons, step, if_pos hs]
      exact ht
    · rw [State.set_proc_server]
  · exact ⟨_, trying s hs hlock⟩
  · refine ⟨[.wake .server], { s.set .server { s.proc .server with pc := .locked } with
      mutex := ⟨some .server, 1⟩ }, ?_, rfl,
      s.set_proc_server { s.proc .server with pc := .locked }, rfl⟩
    simp only [run_singleton, step, if_pos hs, hlock, Option.map_some]
  · obtain ⟨t, ht, howner, hproc, hpid⟩ :=
      trying (s.set .server { s.proc .server with pc := .trying })
        (by rw [State.set_proc, if_pos rfl]) hlock
    have halive : lorieConnectionAlive (s.proc .server).connFd (livePoll false) = true := by
      rw [hfd]
      exact server_connection_alive fd false
    refine ⟨[.check .server false, .timedlock .server], t, ?_, howner, hproc.trans ?_, hpid⟩
    · rw [run_cons, step, if_pos hs, if_pos (Or.inr halive)]
      exact ht
    · rw [State.set_proc_server]
  · exact absurd hs hre
  · rw [hs] at hpc
    exact absurd hpc (by decide)
  · rw [hs] at hpc
    exact absurd hpc (by decide)

/-- Once an attempt of the renderer has expired with the server owning the
mutex, the renderer's next step leads to its re-initialisation. -/
theorem check_renderer_reinit {s : State} (hpc : (s.proc .renderer).pc = .timedOut)
    (hfd : (s.proc .renderer).connFd = connFdInit) (hpid : s.lockingPid ≠ some .renderer)
    (howner : s.mutex.owner = some .server) :
    ∃ t, run step s [.check .renderer false] = some t ∧ ¬ Exclusive t := by
  have hdead : lorieConnectionAlive (s.proc .renderer).connFd (livePoll false) ≠ true := by
    rw [hfd]
    exact Bool.false_ne_true
  refine ⟨s.set .renderer { s.proc .renderer with pc := .reinit }, ?_, fun hex => ?_⟩
  · rw [run_singleton, step, if_pos hpc, if_neg (not_or.mpr ⟨hpid, hdead⟩)]
  · refine hex.2 .renderer ⟨?_, howner⟩
    rw [State.set_proc, if_pos rfl]

/-- Any expiry of an attempt of the renderer can go on to break the lock. -/
theorem renderer_timeout_breaks {fd : ℕ} {s s' : State} (h : Inv fd s)
    (hstep : step s (.timeout .renderer) = some s') :
    ∃ as t, run step s' as = some t ∧ ¬ Exclusive t := by
  simp only [step] at hstep
  split at hstep <;> simp only [Option.some_inj, reduceCtorEq] at hstep
  next hpc =>
    have hrenderer : s'.proc .renderer = { s.proc .renderer with pc := .timedOut } := by
      rw [← hstep, State.set_proc, if_pos rfl]
    have hserver : s'.proc .server = s.proc .server := by
      rw [← hstep, State.set_proc, if_neg (by decide)]
    have hmutex : s'.mutex = s.mutex := by rw [← hstep]; rfl
    have hlocking : s'.lockingPid = s.lockingPid := by rw [← hstep]; rfl
    -- the renderer was waiting, so it neither owns the mutex nor wrote `lockingPid`
    have hnot : s.mutex.owner ≠ some .renderer := h.waits _ hpc
    have hpid : s.lockingPid ≠ some .renderer := by
      intro hl
      have howns := h.owns .renderer
      rw [if_neg hnot] at howns
      have := h.pid _ hl
      omega
    have reach : ∃ as t, run step s' as = some t ∧ t.mutex.owner = some .server ∧
        t.proc .renderer = s'.proc .renderer ∧ t.lockingPid = s'.lockingPid := by
      rcases ho : s.mutex.owner with _ | p
      · have hfd : (s'.proc .server).connFd = fd := by rw [hserver, h.connServer]
        refine server_takes_free hfd (hmutex ▸ ho) ?_ ?_
        · have howns := h.owns .server
          rw [ho, if_neg (by simp)] at howns
          rw [hserver]
          omega
        · rw [hserver]
          exact h.noReinit _
      · cases p with
        | server => exact ⟨[], s', rfl, hmutex ▸ ho, rfl, rfl⟩
        | renderer => exact absurd ho hnot
    obtain ⟨as, t, hrun, howner, hproc, hl⟩ := reach
    obtain ⟨u, hu, hbroken⟩ := check_renderer_reinit (s := t)
      (by rw [hproc, hrenderer]) (by rw [hproc, hrenderer]; exact h.connRenderer)
      (by rw [hl, hlocking]; exact hpid) howner
    exact ⟨as ++ [.check .renderer false], u, by rw [run_append_of_eq hrun, hu], hbroken⟩

/-! ### What the lock gives -/

/-- In every run in which no timed attempt of the renderer expires the lock
excludes, and after any such run an expiry, where it is possible, can go on to a
state in which it no longer does. -/
theorem lock_excludes_until_renderer_timeout (fd : ℕ) (as : List Action) (s : State)
    (hok : Meets step NoRendererTimeout (initial fd) as)
    (hrun : run step (initial fd) as = some s) :
    Exclusive s ∧ ∀ s', step s (.timeout .renderer) = some s' →
      ∃ bs t, run step s' bs = some t ∧ ¬ Exclusive t := by
  have hinv : Inv fd s :=
    run_invariant (fun s a s' h hok hs => inv_step h hok hs) (inv_initial fd) hok hrun
  exact ⟨hinv.exclusive, fun s' hs' => renderer_timeout_breaks hinv hs'⟩

/-- The server takes the lock and keeps it, the renderer's attempt expires, the
renderer re-initialises the mutex and takes it too. -/
def bothLock : List Action :=
  [.callLock .server, .timedlock .server, .storePid .server,
    .callLock .renderer, .timedlock .renderer, .timeout .renderer, .check .renderer false,
    .reinit .renderer, .timedlock .renderer, .storePid .renderer]

/-- With the server's end of the pair on descriptor 40, both hold the lock after
`bothLock`. -/
theorem bothLock_not_exclusive :
    ∃ s, run step (initial 40) bothLock = some s ∧ ¬ Exclusive s := by
  refine ⟨_, rfl, fun h => h.1 ?_⟩
  decide

/-- The lock excludes while the renderer waits for the server. -/
theorem lock_excludes_renderer_waits :
    ∃ s, run step (initial 40) [.callLock .server, .timedlock .server, .storePid .server,
        .callLock .renderer, .timedlock .renderer] = some s ∧
      Exclusive s ∧ ∃ s', step s (.timeout .renderer) = some s' ∧
        ∃ bs t, run step s' bs = some t ∧ ¬ Exclusive t := by
  have hok : Meets step NoRendererTimeout (initial 40) [.callLock .server, .timedlock .server,
      .storePid .server, .callLock .renderer, .timedlock .renderer] := by
    simp [Meets, NoRendererTimeout]
  obtain ⟨hex, hbreak⟩ := lock_excludes_until_renderer_timeout 40 _ _ hok rfl
  exact ⟨_, rfl, hex, _, rfl, hbreak _ rfl⟩

end Lorie.Lock
