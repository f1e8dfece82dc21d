/-
Lists in the order of the last use.

Entries have keys, and of the entries of one key only the first may be live.  A use of a key
moves its first entry to the front; an entry that is live and has only dead ones behind it was
used longest ago.  `uses` is the history, the last use first, so that a smaller index is a later
use.

* `touch` — a key is used;
* `Recent` — the live entries are in the order of `uses`;
* `Recent.touch`, `Recent.push`, `Recent.of_live` — what keeps it;
* `Recent.idxOf_le` — the last live entry is the oldest.
-/
import Mathlib.Data.List.Basic
import Mathlib.Data.List.Pairwise

namespace Recency

variable {ε κ : Type*} [DecidableEq κ] {key : ε → κ} {live live' : ε → Prop} {uses : List κ}
  {l : List ε}

/-- The first entry of a key, at the front. -/
def touch (key : ε → κ) (k : κ) (l : List ε) : List ε :=
  match l.find? (key · = k) with
  | none => l
  | some e => e :: l.eraseP (key · = k)

/-- What an entry has to be to stand before another one. -/
def Later (key : ε → κ) (live : ε → Prop) (uses : List κ) (a b : ε) : Prop :=
  live b → key a ≠ key b ∧ (live a → uses.idxOf (key a) < uses.idxOf (key b))

def Recent (key : ε → κ) (live : ε → Prop) (uses : List κ) (l : List ε) : Prop :=
  l.Pairwise (Later key live uses)

theorem touch_cases (key : ε → κ) (k : κ) (l : List ε) :
    (∀ e ∈ l, key e ≠ k) ∧ touch key k l = l ∨
      ∃ l₁ e l₂, l = l₁ ++ e :: l₂ ∧ (∀ x ∈ l₁, key x ≠ k) ∧ key e = k ∧
        touch key k l = e :: (l₁ ++ l₂) := by
  by_cases hmem : ∃ e ∈ l, key e = k
  · obtain ⟨e₀, hmem, hkey⟩ := hmem
    have hdecide : decide (key e₀ = k) = true := decide_eq_true hkey
    obtain ⟨e, l₁, l₂, hbefore, hfound, hl, herase⟩ :=
      List.exists_of_eraseP (p := (key · = k)) hmem hdecide
    have hne : ∀ x ∈ l₁, key x ≠ k := fun x hx hkx => hbefore x hx (decide_eq_true hkx)
    have hfind : l.find? (key · = k) = some e := by
      rw [List.find?_eq_some_iff_append]
      refine ⟨hfound, l₁, l₂, hl, fun x hx => ?_⟩
      rw [Bool.not_eq_true', decide_eq_false_iff_not]
      exact hne x hx
    refine .inr ⟨l₁, e, l₂, hl, hne, of_decide_eq_true hfound, ?_⟩
    rw [touch, hfind, herase]
  · have hne : ∀ e ∈ l, key e ≠ k := fun e he hk => hmem ⟨e, he, hk⟩
    refine .inl ⟨hne, ?_⟩
    have hfind : l.find? (key · = k) = none :=
      List.find?_eq_none.mpr fun e he => by
        rw [decide_eq_true_eq]
        exact hne e he
    rw [touch, hfind]

theorem mem_touch {k : κ} {e : ε} : e ∈ touch key k l ↔ e ∈ l := by
  rcases touch_cases key k l with ⟨-, htouch⟩ | ⟨l₁, e', l₂, hl, -, -, htouch⟩
  · rw [htouch]
  · rw [htouch, hl, List.mem_cons, List.mem_append, List.mem_append, List.mem_cons]
    exact or_left_comm

/-- A use of a key is a later use of its entries, and of no others. -/
theorem later_use {k : κ} {a b : ε} (h : Later key live uses a b) (ha : live a → key a ≠ k)
    (hb : live b → key b ≠ k) : Later key live (k :: uses) a b := by
  intro hlive
  obtain ⟨hne, hlater⟩ := h hlive
  refine ⟨hne, fun hlive' => ?_⟩
  rw [List.idxOf_cons_ne _ (ha hlive').symm, List.idxOf_cons_ne _ (hb hlive).symm]
  exact Nat.succ_lt_succ (hlater hlive')

theorem later_of_used {k : κ} {a b : ε} (ha : key a = k) (hb : live b → key b ≠ k) :
    Later key live (k :: uses) a b := by
  intro hlive
  have hne : key b ≠ k := hb hlive
  refine ⟨fun heq => hne (heq.symm.trans ha), fun _ => ?_⟩
  rw [ha, List.idxOf_cons_self, List.idxOf_cons_ne _ hne.symm]
  exact Nat.succ_pos _

theorem Recent.touch (h : Recent key live uses l) (k : κ) :
    Recent key live (k :: uses) (touch key k l) := by
  rcases touch_cases key k l with ⟨hne, htouch⟩ | ⟨l₁, e, l₂, rfl, hbefore, hkey, htouch⟩
  · rw [htouch]
    exact h.imp_of_mem fun ha hb hab => later_use hab (fun _ => hne _ ha) fun _ => hne _ hb
  · -- behind the first entry of the key, the others of the key are dead
    have hafter : ∀ x ∈ l₂, live x → key x ≠ k := by
      intro x hx hlive hk
      have hlater := (List.pairwise_cons.mp (List.pairwise_append.mp h).2.1).1 x hx
      exact (hlater hlive).1 (hkey.trans hk.symm)
    have hothers : ∀ x ∈ l₁ ++ l₂, live x → key x ≠ k := by
      intro x hx hlive
      rcases List.mem_append.mp hx with hx | hx
      · exact hbefore x hx
      · exact hafter x hx hlive
    rw [htouch]
    refine List.pairwise_cons.mpr ⟨fun x hx => later_of_used hkey (hothers x hx), ?_⟩
    have hrest : (l₁ ++ l₂).Pairwise (Later key live uses) :=
      h.sublist ((List.Sublist.refl l₁).append (List.sublist_cons_self e l₂))
    exact hrest.imp_of_mem fun ha hb hab => later_use hab (hothers _ ha) (hothers _ hb)

/-- A new entry, if no other entry of its key is live. -/
theorem Recent.push {e : ε} (h : Recent key live uses l)
    (hne : ∀ x ∈ l, live x → key x ≠ key e) : Recent key live (key e :: uses) (e :: l) :=
  List.pairwise_cons.mpr ⟨fun x hx => later_of_used rfl (hne x hx),
    h.imp_of_mem fun ha hb hab => later_use hab (hne _ ha) (hne _ hb)⟩

/-- Entries may die. -/
theorem Recent.of_live (h : Recent key live uses l) (hlive : ∀ e ∈ l, live' e → live e) :
    Recent key live' uses l :=
  h.imp_of_mem fun ha hb hab hb' =>
    have hb'' := hlive _ hb hb'
    ⟨(hab hb'').1, fun ha' => (hab hb'').2 (hlive _ ha ha')⟩

theorem Recent.sublist {l' : List ε} (h : Recent key live uses l) (hsub : l'.Sublist l) :
    Recent key live uses l' := List.Pairwise.sublist hsub h

/-- Of the entries before a live entry none has its key. -/
theorem Recent.key_ne {l₁ l₂ : List ε} {e : ε} (h : Recent key live uses (l₁ ++ e :: l₂))
    (he : live e) {x : ε} (hx : x ∈ l₁) : key x ≠ key e :=
  ((List.pairwise_append.mp h).2.2 x hx e List.mem_cons_self he).1

/-- A live entry with only dead ones behind it. -/
theorem Recent.idxOf_le {l₁ l₂ : List ε} {e : ε} (h : Recent key live uses (l₁ ++ e :: l₂))
    (he : live e) (hdead : ∀ x ∈ l₂, ¬ live x) {x : ε} (hx : x ∈ l₁ ++ e :: l₂)
    (hlive : live x) : uses.idxOf (key x) ≤ uses.idxOf (key e) := by
  rcases List.mem_append.mp hx with hx | hx
  · have hlater := (List.pairwise_append.mp h).2.2 x hx e List.mem_cons_self he
    exact Nat.le_of_lt (hlater.2 hlive)
  · rcases List.mem_cons.mp hx with rfl | hx
    · exact Nat.le_refl _
    · exact absurd hlive (hdead x hx)

end Recency
