/-
Presses and releases of buttons.

A stream holds presses (`true`) and releases of any number of buttons.  Replaying it for
one button tells whether its presses and releases alternate, and whether it is held.

* `held` — a button after a stream; `none` if its events do not alternate, beginning
  with a press;
* `replay_append`, `replay_of_forall_ne` — streams one after another, and streams of
  other buttons.
-/
import Mathlib.Data.List.Basic

namespace Presses

/-- A press or release where it alternates with what came before. -/
def turn (pressed : Bool) (held : Option Bool) : Option Bool :=
  if held = some (!pressed) then some pressed else none

@[simp] theorem turn_not (p : Bool) : turn p (some (!p)) = some p := if_pos rfl

@[simp] theorem turn_self (p : Bool) : turn p (some p) = none := by cases p <;> rfl

variable {ι : Type*} [DecidableEq ι]

/-- The button `b` after more events. -/
def replay (b : ι) : Option Bool → List (ι × Bool) → Option Bool
  | h, [] => h
  | h, (c, pressed) :: es => replay b (if c = b then turn pressed h else h) es

def held (b : ι) (es : List (ι × Bool)) : Option Bool := replay b (some false) es

@[simp] theorem replay_nil (b : ι) (h : Option Bool) : replay b h [] = h := rfl

@[simp] theorem held_nil (b : ι) : held b [] = some false := rfl

theorem replay_append (b : ι) (h : Option Bool) (es fs : List (ι × Bool)) :
    replay b h (es ++ fs) = replay b (replay b h es) fs := by
  induction es generalizing h with
  | nil => rfl
  | cons e es ih => exact ih _

theorem held_append (b : ι) (es fs : List (ι × Bool)) :
    held b (es ++ fs) = replay b (held b es) fs := replay_append b _ es fs

/-- Events of other buttons. -/
theorem replay_of_forall_ne {b : ι} {es : List (ι × Bool)} (h : ∀ e ∈ es, e.1 ≠ b)
    (before : Option Bool) : replay b before es = before := by
  induction es with
  | nil => rfl
  | cons e es ih =>
    rw [replay, if_neg (h e List.mem_cons_self)]
    exact ih fun f hf => h f (List.mem_cons_of_mem e hf)

end Presses
