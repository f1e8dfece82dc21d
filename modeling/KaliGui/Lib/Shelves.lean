/-
Lists whose nodes have one link each.

A node with one link is in one list at most: to be put in a list it is taken out of the one
it is in, whichever that is.

* `del`, `add` — a node is taken out, or put at the head of a list;
* `Apart` — no node is in two places;
* `Apart.del`, `Apart.add` — both keep it.
-/
import Mathlib.Data.List.Nodup
import Mathlib.Logic.Function.Basic

namespace Shelves

variable {L α : Type*} [DecidableEq α]

/-- The node is in no list any more. -/
def del (a : α) (lists : L → List α) : L → List α := fun l => (lists l).filter (· ≠ a)

/-- The node is taken out of its list, and put at the head of another. -/
def add [DecidableEq L] (l : L) (a : α) (lists : L → List α) : L → List α :=
  Function.update (del a lists) l (a :: del a lists l)

/-- No node is in two places. -/
structure Apart (lists : L → List α) : Prop where
  nodup : ∀ l, (lists l).Nodup
  same : ∀ a l m, a ∈ lists l → a ∈ lists m → l = m

variable {lists : L → List α} {a b : α} {l m : L}

@[simp] theorem mem_del : b ∈ del a lists l ↔ b ∈ lists l ∧ b ≠ a := by
  rw [del, List.mem_filter, decide_eq_true_eq]

theorem del_of_notMem (h : a ∉ lists l) : del a lists l = lists l := by
  refine List.filter_eq_self.mpr fun b hb => decide_eq_true ?_
  intro heq
  exact h (heq ▸ hb)

theorem length_del_lt (h : a ∈ lists l) : (del a lists l).length < (lists l).length := by
  refine List.length_filter_lt_length_iff_exists.mpr ⟨a, h, ?_⟩
  simp

theorem Apart.del (h : Apart lists) (a : α) : Apart (del a lists) where
  nodup l := (h.nodup l).filter _
  same b l m hl hm := h.same b l m (mem_del.mp hl).1 (mem_del.mp hm).1

omit [DecidableEq α] in
theorem Apart.notMem (h : Apart lists) (hl : a ∈ lists l) (hne : m ≠ l) : a ∉ lists m :=
  fun hm => hne (h.same a m l hm hl)

theorem Apart.perm_del (h : Apart lists) (hl : a ∈ lists l) :
    (lists l).Perm (a :: Shelves.del a lists l) := by
  refine (List.perm_cons_erase hl).trans (.of_eq ?_)
  rw [(h.nodup l).erase_eq_filter, Shelves.del]
  refine congrArg (a :: ·) (List.filter_congr fun b _ => ?_)
  rw [bne, decide_not, beq_eq_decide]

variable [DecidableEq L]

theorem add_self : add l a lists l = a :: Shelves.del a lists l := Function.update_self ..

theorem add_of_ne (h : m ≠ l) : add l a lists m = Shelves.del a lists m :=
  Function.update_of_ne h ..

@[simp] theorem mem_add : b ∈ add l a lists m ↔ b = a ∧ m = l ∨ b ∈ lists m ∧ b ≠ a := by
  by_cases hm : m = l
  · rw [hm, add_self, List.mem_cons, mem_del]
    simp
  · rw [add_of_ne hm, mem_del]
    simp [hm]

theorem Apart.add (h : Apart lists) (l : L) (a : α) : Apart (add l a lists) where
  nodup m := by
    by_cases hm : m = l
    · rw [hm, add_self]
      refine List.nodup_cons.mpr ⟨?_, (h.del a).nodup l⟩
      rw [mem_del]
      exact fun hmem => hmem.2 rfl
    · rw [add_of_ne hm]
      exact (h.del a).nodup m
  same b m n hm hn := by
    rcases mem_add.mp hm with ⟨hb, rfl⟩ | ⟨hm, hne⟩
    · rcases mem_add.mp hn with ⟨-, rfl⟩ | ⟨-, hne⟩
      · rfl
      · exact absurd hb hne
    · rcases mem_add.mp hn with ⟨hb, -⟩ | ⟨hn, -⟩
      · exact absurd hb hne
      · exact h.same b m n hm hn

end Shelves
