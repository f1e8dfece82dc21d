/-
Singly linked lists in memory.

`link` is what the next-pointers hold: `link none` the head's, `link (some n)` that of
the node `n`.  The address of a next-pointer is `none` or `some n` likewise, so code
that keeps the address of the pointer to be written next is modelled as it is.

* `Chain` — the nodes reached from an address, in order;
* `lastAddr` — the address of the pointer that ends them;
* `Chain.concat`, `Chain.remove` — a node linked in at the end, a node taken out.
-/
import Mathlib.Data.List.Nodup
import Mathlib.Logic.Function.Basic

namespace Links

variable {α : Type*}

/-- From the address `a` the pointers lead through the nodes and end. -/
def Chain (link : Option α → Option α) : Option α → List α → Prop
  | a, [] => link a = none
  | a, n :: ns => link a = some n ∧ Chain link (some n) ns

/-- The address of the last pointer. -/
def lastAddr : Option α → List α → Option α
  | a, [] => a
  | _, n :: ns => lastAddr (some n) ns

variable {link : Option α → Option α} {a : Option α} {n : α} {xs ys : List α}

@[simp] theorem lastAddr_nil (a : Option α) : lastAddr a [] = a := rfl

@[simp] theorem lastAddr_cons (a : Option α) (n : α) (ns : List α) :
    lastAddr a (n :: ns) = lastAddr (some n) ns := rfl

theorem lastAddr_append (a : Option α) (xs ys : List α) :
    lastAddr a (xs ++ ys) = lastAddr (lastAddr a xs) ys := by
  induction xs generalizing a with
  | nil => rfl
  | cons x xs ih => exact ih (some x)

theorem lastAddr_concat (a : Option α) (xs : List α) (n : α) :
    lastAddr a (xs ++ [n]) = some n := by
  rw [lastAddr_append]
  rfl

/-- The last address is the first one or that of a node. -/
theorem lastAddr_mem (a : Option α) (xs : List α) :
    lastAddr a xs = a ∨ ∃ n ∈ xs, lastAddr a xs = some n := by
  induction xs generalizing a with
  | nil => exact .inl rfl
  | cons x xs ih =>
    right
    rcases ih (some x) with h | ⟨n, hn, h⟩
    · exact ⟨x, List.mem_cons_self, h⟩
    · exact ⟨n, List.mem_cons_of_mem _ hn, h⟩

theorem chain_nil : Chain link a [] ↔ link a = none := Iff.rfl

theorem chain_cons : Chain link a (n :: xs) ↔ link a = some n ∧ Chain link (some n) xs := Iff.rfl

/-- What the last pointer of the first part leads to. -/
theorem Chain.drop (h : Chain link a (xs ++ ys)) : Chain link (lastAddr a xs) ys := by
  induction xs generalizing a with
  | nil => exact h
  | cons x xs ih => exact ih h.2

theorem Chain.next (h : Chain link a (xs ++ ys)) : link (lastAddr a xs) = ys.head? := by
  have hdrop := h.drop
  cases ys with
  | nil => exact hdrop
  | cons y ys => exact hdrop.1

/-- The pointers say what the chain is. -/
theorem Chain.unique (h : Chain link a xs) (h' : Chain link a ys) : xs = ys := by
  induction xs generalizing a ys with
  | nil =>
    cases ys with
    | nil => rfl
    | cons y ys => exact absurd (h.symm.trans h'.1) (by simp)
  | cons x xs ih =>
    cases ys with
    | nil => exact absurd (h.1.symm.trans h') (by simp)
    | cons y ys =>
      obtain rfl := Option.some_inj.mp (h.1.symm.trans h'.1)
      rw [ih h.2 h'.2]

variable [DecidableEq α]

/-- A pointer elsewhere can be written. -/
theorem Chain.update_of_notMem {b v : Option α} (h : Chain link a xs) (ha : b ≠ a)
    (hxs : ∀ n ∈ xs, b ≠ some n) : Chain (Function.update link b v) a xs := by
  induction xs generalizing a with
  | nil => rwa [chain_nil, Function.update_of_ne ha.symm]
  | cons x xs ih =>
    rw [chain_cons, Function.update_of_ne ha.symm]
    exact ⟨h.1, ih h.2 (hxs x List.mem_cons_self) fun n hn => hxs n (List.mem_cons_of_mem _ hn)⟩

/-- A new node is linked in where the chain ends. -/
theorem Chain.concat (h : Chain link a xs) (hnodup : xs.Nodup) (ha : ∀ x ∈ xs, a ≠ some x)
    (hn : n ∉ xs) (hna : a ≠ some n) (hlink : link (some n) = none) :
    Chain (Function.update link (lastAddr a xs) (some n)) a (xs ++ [n]) := by
  induction xs generalizing a with
  | nil =>
    refine ⟨Function.update_self .., ?_⟩
    rwa [chain_nil, lastAddr_nil, Function.update_of_ne hna.symm]
  | cons x xs ih =>
    obtain ⟨hx, hnodup⟩ := List.nodup_cons.mp hnodup
    rw [List.mem_cons, not_or] at hn
    refine ⟨?_, ih h.2 hnodup (fun y hy heq => ?_) hn.2 ?_⟩
    · -- the first pointer is not the last one
      rw [lastAddr_cons, Function.update_of_ne]
      · exact h.1
      · rcases lastAddr_mem (some x) xs with heq | ⟨y, hy, heq⟩
        · rw [heq]
          exact ha x List.mem_cons_self
        · rw [heq]
          exact ha y (List.mem_cons_of_mem _ hy)
    · exact hx (Option.some_inj.mp heq ▸ hy)
    · exact fun heq => hn.1 (Option.some_inj.mp heq).symm

/-- A node is taken out: the pointer to it gets what its own holds. -/
theorem Chain.remove (h : Chain link a (xs ++ n :: ys)) (hnodup : (xs ++ n :: ys).Nodup)
    (ha : ∀ x ∈ xs ++ n :: ys, a ≠ some x) :
    Chain (Function.update link (lastAddr a xs) (link (some n))) a (xs ++ ys) := by
  induction xs generalizing a with
  | nil =>
    have hrest : Chain link (some n) ys := h.2
    cases ys with
    | nil => rwa [List.nil_append, chain_nil, lastAddr_nil, Function.update_self]
    | cons y ys =>
      refine ⟨by rw [lastAddr_nil, Function.update_self, hrest.1], ?_⟩
      refine hrest.2.update_of_notMem (ha y (by simp)) fun z hz => ?_
      exact ha z (List.mem_cons_of_mem _ (List.mem_cons_of_mem _ hz))
  | cons x xs ih =>
    obtain ⟨hx, hnodup⟩ := List.nodup_cons.mp hnodup
    refine ⟨?_, ih h.2 hnodup fun y hy heq => hx (Option.some_inj.mp heq ▸ hy)⟩
    rw [lastAddr_cons, Function.update_of_ne]
    · exact h.1
    · rcases lastAddr_mem (some x) xs with heq | ⟨y, hy, heq⟩
      · rw [heq]
        exact ha x List.mem_cons_self
      · rw [heq]
        exact ha y (List.mem_cons_of_mem _ (List.mem_append_left _ hy))

end Links
