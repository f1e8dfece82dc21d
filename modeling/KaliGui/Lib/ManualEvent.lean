/-
An event that threads set, clear, look at and wait for.

A call of a thread takes effect at one moment between its start and its return.  A wait
takes effect only while the event is set; it may also give up.

* `Op`, `Phase` — the operations, and where a thread is in a call;
* `step` — calls, the moments at which they take effect, and returns, in any order;
* `Seen` — what the threads see of it: the calls, and the returns with their results.
-/
import Mathlib.Data.Int.Notation
import Mathlib.Logic.Function.Basic

namespace ManualEvent

variable {T : Type*}

inductive Op
  | trigger
  | await
  | query
  | reset
  deriving DecidableEq, Repr

/-- Where a thread is: outside, in a call that has not taken effect yet, or in one that
has, with what it returns. -/
inductive Phase
  | idle
  | called (op : Op)
  | done (result : ℤ)
  deriving DecidableEq, Repr

structure State (T : Type*) where
  triggered : Bool
  phase : T → Phase

/-- No thread has called yet. -/
def initial (triggered : Bool) : State T := ⟨triggered, fun _ => .idle⟩

inductive Act (T : Type*)
  | call (t : T) (op : Op)
  /-- the call of the thread takes effect -/
  | effect (t : T)
  /-- a wait gives up -/
  | giveUp (t : T)
  | ret (t : T) (result : ℤ)
  deriving DecidableEq, Repr

/-- What the threads see. -/
inductive Seen (T : Type*)
  | call (t : T) (op : Op)
  | ret (t : T) (result : ℤ)
  deriving DecidableEq, Repr

def Act.seen : Act T → Option (Seen T)
  | .call t op => some (.call t op)
  | .ret t result => some (.ret t result)
  | _ => none

/-- The event after an operation takes effect, and what the operation returns; a wait
takes effect only while the event is set. -/
def Op.effect (triggered : Bool) : Op → Option (Bool × ℤ)
  | .trigger => some (true, 0)
  | .await => if triggered then some (true, 0) else none
  | .query => some (triggered, if triggered then 1 else 0)
  | .reset => some (false, 0)

variable [DecidableEq T]

/-- The state with one thread at another phase. -/
def State.at (s : State T) (t : T) (p : Phase) : State T :=
  { s with phase := Function.update s.phase t p }

def step (s : State T) : Act T → Option (State T)
  | .call t op => if s.phase t = .idle then some (s.at t (.called op)) else none
  | .effect t =>
    match s.phase t with
    | .called op => (op.effect s.triggered).map fun r =>
        { s.at t (.done r.2) with triggered := r.1 }
    | _ => none
  | .giveUp t => if s.phase t = .called .await then some (s.at t (.done (-1))) else none
  | .ret t result => if s.phase t = .done result then some (s.at t .idle) else none

variable {s : State T} {t : T}

theorem step_call (h : s.phase t = .idle) (op : Op) :
    step s (.call t op) = some (s.at t (.called op)) := by
  rw [step, if_pos h]

theorem step_effect {op : Op} {triggered : Bool} {result : ℤ} (h : s.phase t = .called op)
    (heffect : op.effect s.triggered = some (triggered, result)) :
    step s (.effect t) = some { s.at t (.done result) with triggered := triggered } := by
  simp only [step, h, heffect, Option.map_some]

theorem step_giveUp (h : s.phase t = .called .await) :
    step s (.giveUp t) = some (s.at t (.done (-1))) := by
  rw [step, if_pos h]

theorem step_ret {result : ℤ} (h : s.phase t = .done result) :
    step s (.ret t result) = some (s.at t .idle) := by
  rw [step, if_pos h]

end ManualEvent
