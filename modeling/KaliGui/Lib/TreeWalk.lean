/-
A walk through a tree in memory.

A node has pointers to its first child, to its next sibling and to its parent.  The walk goes
down to the first child and on to the next sibling, and where there is none up to the parent;
it keeps nothing but the node where it is.  At each node it is told to go down, to leave the
nodes below out, or to stop.

* `Links`, `walk` — the pointers, and the walk;
* `Forest`, `Holds` — trees side by side, and what the pointers are where they are in memory;
* `Forest.visit` — what is done at the nodes, by recursion over the trees;
* `walk_eq` — the walk does the same, and ends.
-/
import Mathlib.Data.Nat.Notation
import Mathlib.Tactic.Common

namespace TreeWalk

variable {W σ : Type*}

structure Links (W : Type*) where
  firstChild : W → Option W
  nextSib : W → Option W
  parent : W → Option W

/-- What a visit says. -/
inductive Answer
  | descend
  | skip
  | stop
  deriving DecidableEq, Repr

/-- Where the walk is. -/
inductive Place (W : Type*)
  /-- before the visit of a node -/
  | enter (w : W)
  /-- past a node and those below it -/
  | leave (w : W)

/-- The walk through the nodes below `root`, and whether a visit stopped it; nothing if a
pointer is missing, or the fuel is used up. -/
def walk [DecidableEq W] (links : Links W) (root : W) (visit : W → σ → Answer × σ) :
    ℕ → Place W → σ → Option (Bool × σ)
  | 0, _, _ => none
  | n + 1, .enter w, s =>
    match visit w s with
    | (.stop, s) => some (true, s)
    | (.skip, s) => walk links root visit n (.leave w) s
    | (.descend, s) =>
      match links.firstChild w with
      | some child => walk links root visit n (.enter child) s
      | none => walk links root visit n (.leave w) s
  | n + 1, .leave w, s =>
    if w = root then some (false, s)
    else
      match links.nextSib w with
      | some sibling => walk links root visit n (.enter sibling) s
      | none =>
        match links.parent w with
        | some parent => walk links root visit n (.leave parent) s
        | none => none

/-! ### Trees -/

/-- Trees, one beside the other. -/
inductive Forest (W : Type*)
  | nil
  /-- a tree, and its siblings -/
  | node (w : W) (children siblings : Forest W)

def Forest.nodes : Forest W → List W
  | .nil => []
  | .node w children siblings => w :: (children.nodes ++ siblings.nodes)

/-- The trees are in memory, from the node `first`, below the node `parent`. -/
def Holds (links : Links W) (parent : W) : Forest W → Option W → Prop
  | .nil, first => first = none
  | .node w children siblings, first =>
    first = some w ∧ links.parent w = some parent ∧
      Holds links w children (links.firstChild w) ∧
      Holds links parent siblings (links.nextSib w)

/-- What is done at the nodes, in order, and whether a visit stopped it. -/
def Forest.visit (visit : W → σ → Answer × σ) : Forest W → σ → Bool × σ
  | .nil, s => (false, s)
  | .node w children siblings, s =>
    match visit w s with
    | (.stop, s) => (true, s)
    | (.skip, s) => siblings.visit visit s
    | (.descend, s) =>
      match children.visit visit s with
      | (true, s) => (true, s)
      | (false, s) => siblings.visit visit s

/-- What is done at a node, and at those below it. -/
def visitTree (visit : W → σ → Answer × σ) (root : W) (children : Forest W) (s : σ) : Bool × σ :=
  match visit root s with
  | (.stop, s) => (true, s)
  | (.skip, s) => (false, s)
  | (.descend, s) => children.visit visit s

/-! ### The walk is the recursion -/

variable [DecidableEq W] {links : Links W} {root parent : W} {visit : W → σ → Answer × σ}

/-- Where the walk goes from a parent whose child this is, or a node whose sibling. -/
def Place.next (parent : W) : Option W → Place W
  | some w => .enter w
  | none => .leave parent

/-- What is left to do, once the trees are visited. -/
def resume (links : Links W) (root : W) (visit : W → σ → Answer × σ) (n : ℕ) (parent : W) :
    Bool × σ → Option (Bool × σ)
  | (true, s) => some (true, s)
  | (false, s) => walk links root visit n (.leave parent) s

theorem walk_leave {w : W} (hne : w ≠ root) (hparent : links.parent w = some parent) (n : ℕ)
    (s : σ) : walk links root visit (n + 1) (.leave w) s =
      walk links root visit n (.next parent (links.nextSib w)) s := by
  rw [walk, if_neg hne]
  cases links.nextSib w with
  | some sibling => rfl
  | none =>
    dsimp only
    rw [hparent]
    rfl

theorem walk_descend {w : W} {s s' : σ} (hvisit : visit w s = (.descend, s')) (n : ℕ) :
    walk links root visit (n + 1) (.enter w) s =
      walk links root visit n (.next w (links.firstChild w)) s' := by
  rw [walk, hvisit]
  cases links.firstChild w with
  | some child => rfl
  | none => rfl

/-- The walk through trees, by induction on them; what comes after is taken along. -/
theorem walk_forest (f : Forest W) : ∀ {parent : W} {first : Option W} (s : σ),
    Holds links parent f first → root ∉ f.nodes →
      ∃ k ≤ 2 * f.nodes.length, ∀ n,
        walk links root visit (n + k) (.next parent first) s =
          resume links root visit n parent (f.visit visit s) := by
  induction f with
  | nil =>
    intro parent first s hholds _
    refine ⟨0, Nat.zero_le _, fun n => ?_⟩
    rw [show first = none from hholds]
    rfl
  | node w children siblings ihc ihs =>
    intro parent first s hholds hroot
    obtain ⟨rfl, hparent, hchildren, hsiblings⟩ := hholds
    rw [Forest.nodes, List.mem_cons, List.mem_append, not_or, not_or] at hroot
    obtain ⟨hne, hrootc, hroots⟩ := hroot
    have hlength : (Forest.node w children siblings).nodes.length =
        children.nodes.length + siblings.nodes.length + 1 := by
      rw [Forest.nodes, List.length_cons, List.length_append]
    -- past the node and those below it, the siblings are next
    have leaves : ∀ s : σ, ∃ k ≤ 2 * siblings.nodes.length + 1, ∀ n,
        walk links root visit (n + k) (.leave w) s =
          resume links root visit n parent (siblings.visit visit s) := by
      intro s
      obtain ⟨k, hk, hwalk⟩ := ihs s hsiblings hroots
      refine ⟨k + 1, by omega, fun n => ?_⟩
      rw [← Nat.add_assoc, walk_leave (Ne.symm hne) hparent, hwalk]
    cases hvisit : visit w s with
    | mk answer s₁ =>
      cases answer with
      | stop =>
        refine ⟨1, by omega, fun n => ?_⟩
        rw [Place.next, walk, hvisit, Forest.visit, hvisit]
        rfl
      | skip =>
        obtain ⟨k, hk, hwalk⟩ := leaves s₁
        refine ⟨k + 1, by omega, fun n => ?_⟩
        rw [Place.next, ← Nat.add_assoc, walk, hvisit, Forest.visit, hvisit]
        exact hwalk n
      | descend =>
        obtain ⟨k, hk, hwalk⟩ := ihc s₁ hchildren hrootc
        cases hall : children.visit visit s₁ with
        | mk stopped s₂ =>
          rw [hall] at hwalk
          cases stopped with
          | true =>
            refine ⟨k + 1, by omega, fun n => ?_⟩
            rw [Place.next, ← Nat.add_assoc, walk_descend hvisit, hwalk, Forest.visit, hvisit]
            dsimp only
            rw [hall]
            rfl
          | false =>
            obtain ⟨k', hk', hwalk'⟩ := leaves s₂
            refine ⟨k' + k + 1, by omega, fun n => ?_⟩
            rw [Place.next, ← Nat.add_assoc, walk_descend hvisit, ← Nat.add_assoc, hwalk,
              Forest.visit, hvisit]
            dsimp only
            rw [hall]
            exact hwalk' n

/-- The walk from `root` visits it and the nodes below it in order, and ends. -/
theorem walk_eq {children : Forest W} (hholds : Holds links root children (links.firstChild root))
    (hroot : root ∉ children.nodes) (s : σ) {fuel : ℕ}
    (hfuel : 2 * children.nodes.length + 2 ≤ fuel) :
    walk links root visit fuel (.enter root) s = some (visitTree visit root children s) := by
  obtain ⟨m, rfl⟩ : ∃ m, fuel = m + 1 := ⟨fuel - 1, by omega⟩
  have hend : ∀ (n : ℕ) (s : σ),
      walk links root visit (n + 1) (.leave root) s = some (false, s) := by
    intro n s
    rw [walk, if_pos rfl]
  obtain ⟨n, rfl⟩ : ∃ n, m = n + 1 := ⟨m - 1, by omega⟩
  cases hvisit : visit root s with
  | mk answer s₁ =>
    rw [visitTree, hvisit]
    cases answer with
    | stop => rw [walk, hvisit]
    | skip =>
      rw [walk, hvisit]
      exact hend n s₁
    | descend =>
      obtain ⟨k, hk, hwalk⟩ : ∃ k ≤ 2 * children.nodes.length, ∀ n,
          walk links root visit (n + k) (.next root (links.firstChild root)) s₁ =
            resume links root visit n root (children.visit visit s₁) :=
        walk_forest children s₁ hholds hroot
      obtain ⟨l, hl⟩ : ∃ l, n + 1 = l + 1 + k := ⟨n - k, by omega⟩
      rw [walk_descend hvisit, hl, hwalk]
      dsimp only
      cases children.visit visit s₁ with
      | mk stopped s₂ =>
        cases stopped with
        | true => rfl
        | false => exact hend l s₂

end TreeWalk
