/-
A spin lock, by the places in the code where it is held.

* `Exact` — who has the lock is at such a place, and nobody else is;
* `Change` — what one step does with the lock: nothing, or take it where it is free, or give
  it back;
* `Exact.change` — a step of one thread keeps it exact.
-/
import Mathlib.Tactic.Common

namespace SpinLock

variable {T : Type*}

/-- `held t` says that the thread `t` is where the code holds the lock. -/
def Exact (held : T → Prop) (owner : Option T) : Prop := ∀ t, held t ↔ owner = some t

/-- What a step of the thread `t` does, which was where the code holds the lock (`before`) and
is there (`after`). -/
inductive Change (t : T) (before after : Prop) : Option T → Option T → Prop
  | keep {owner : Option T} (same : after ↔ before) : Change t before after owner owner
  | acquire (taken : after) : Change t before after none (some t)
  | release {owner : Option T} (had : before) (left : ¬ after) : Change t before after owner none

variable {held held' : T → Prop} {owner owner' : Option T} {t : T} {before after : Prop}

/-- Two ways to say where the code holds the lock. -/
theorem Change.congr {before' after' : Prop} (h : Change t before after owner owner')
    (hbefore : before' ↔ before) (hafter : after' ↔ after) :
    Change t before' after' owner owner' := by
  cases h with
  | keep same => exact .keep (hafter.trans (same.trans hbefore.symm))
  | acquire taken => exact .acquire (hafter.mpr taken)
  | release had left => exact .release (hbefore.mpr had) fun hin => left (hafter.mp hin)

theorem Exact.congr (h : Exact held owner) (hsame : ∀ u, held' u ↔ held u) : Exact held' owner :=
  fun u => (hsame u).trans (h u)

/-- The others stay where they are. -/
theorem Exact.change (h : Exact held owner) (hc : Change t (held t) (held' t) owner owner')
    (hother : ∀ u, u ≠ t → (held' u ↔ held u)) : Exact held' owner' := by
  intro u
  by_cases hu : u = t
  · subst hu
    cases hc with
    | keep same => exact same.trans (h u)
    | acquire taken => exact iff_of_true taken rfl
    | release had left => exact iff_of_false left nofun
  · rw [hother u hu, h u]
    cases hc with
    | keep same => exact Iff.rfl
    | acquire taken => exact iff_of_false nofun fun heq => hu (Option.some_inj.mp heq).symm
    | release had left =>
      -- it was `t` that had it
      refine iff_of_false (fun heq => hu ?_) nofun
      exact Option.some_inj.mp (heq.symm.trans ((h t).mp had))

end SpinLock
