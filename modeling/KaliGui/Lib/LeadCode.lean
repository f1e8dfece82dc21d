/-
Codes in which the first letter of a word says how many letters follow it.

The letters that follow are told from the first ones, so a text that begins in a word, or is cut
in one, is not split into words.

* `Code` — which letters begin a word, and which follow;
* `Splits`, `WellFormed` — texts that are words one after another;
* `wellFormed_cons_iff` — a text is well formed if its first word is there and the rest is;
* `splits_flatMap` — words one after another are split into these words.
-/
import Mathlib.Data.Nat.Notation
import Mathlib.Data.List.Basic

namespace LeadCode

structure Code (α : Type*) where
  /-- begins a word, and the number of letters that follow -/
  Leads : α → ℕ → Prop
  Tail : α → Prop
  leads_unique : ∀ {c m n}, Leads c m → Leads c n → m = n
  not_tail : ∀ {c n}, Leads c n → ¬ Tail c

variable {α : Type*}

inductive Splits (C : Code α) : List α → List (α × List α) → Prop
  | nil : Splits C [] []
  | cons {c : α} {tails rest : List α} {words : List (α × List α)} : C.Leads c tails.length →
      (∀ t ∈ tails, C.Tail t) → Splits C rest words →
      Splits C (c :: (tails ++ rest)) ((c, tails) :: words)

def WellFormed (C : Code α) (text : List α) : Prop := ∃ words, Splits C text words

/-- The rest of a word, and well formed text. -/
def Owes (C : Code α) : ℕ → List α → Prop
  | 0, text => WellFormed C text
  | n + 1, text => ∃ t rest, text = t :: rest ∧ C.Tail t ∧ Owes C n rest

variable {C : Code α} {c : α} {n : ℕ} {text tails rest : List α}

@[simp] theorem wellFormed_nil : WellFormed C [] := ⟨[], .nil⟩

@[simp] theorem owes_zero : Owes C 0 text ↔ WellFormed C text := Iff.rfl

@[simp] theorem owes_succ_cons {t : α} :
    Owes C (n + 1) (t :: rest) ↔ C.Tail t ∧ Owes C n rest := by
  constructor
  · rintro ⟨_, _, heq, htail, hrest⟩
    cases heq
    exact ⟨htail, hrest⟩
  · rintro ⟨htail, hrest⟩
    exact ⟨t, rest, rfl, htail, hrest⟩

@[simp] theorem not_owes_nil : ¬ Owes C (n + 1) [] := by
  rintro ⟨_, _, heq, -⟩
  cases heq

theorem owes_append (htails : ∀ t ∈ tails, C.Tail t) :
    Owes C tails.length (tails ++ rest) ↔ WellFormed C rest := by
  induction tails with
  | nil => exact Iff.rfl
  | cons t tails ih =>
    rw [List.length_cons, List.cons_append, owes_succ_cons,
      ih fun u hu => htails u (List.mem_cons_of_mem _ hu)]
    exact and_iff_right (htails t List.mem_cons_self)

theorem owes_iff_exists : Owes C n text ↔
    ∃ tails rest, text = tails ++ rest ∧ tails.length = n ∧ (∀ t ∈ tails, C.Tail t) ∧
      WellFormed C rest := by
  constructor
  · intro h
    induction n generalizing text with
    | zero => exact ⟨[], text, rfl, rfl, fun t ht => absurd ht List.not_mem_nil, h⟩
    | succ n ih =>
      obtain ⟨t, rest, rfl, ht, hrest⟩ := h
      obtain ⟨tails, rest', rfl, hlength, htails, hwell⟩ := ih hrest
      exact ⟨t :: tails, rest', rfl, congrArg (· + 1) hlength,
        List.forall_mem_cons.mpr ⟨ht, htails⟩, hwell⟩
  · rintro ⟨tails, rest, rfl, rfl, htails, hwell⟩
    exact (owes_append htails).mpr hwell

theorem Owes.le_length (h : Owes C n text) : n ≤ text.length := by
  obtain ⟨tails, rest, rfl, rfl, -⟩ := owes_iff_exists.mp h
  rw [List.length_append]
  exact Nat.le_add_right _ _

theorem wellFormed_cons_iff (hlead : C.Leads c n) :
    WellFormed C (c :: rest) ↔ Owes C n rest := by
  rw [owes_iff_exists]
  constructor
  · rintro ⟨words, h⟩
    cases h with
    | cons hlead' htails hrest =>
      exact ⟨_, _, rfl, C.leads_unique hlead' hlead, htails, _, hrest⟩
  · rintro ⟨tails, rest', rfl, rfl, htails, words, hwords⟩
    exact ⟨_, .cons hlead htails hwords⟩

theorem not_wellFormed_of_not_lead (hnot : ∀ n, ¬ C.Leads c n) :
    ¬ WellFormed C (c :: rest) := by
  rintro ⟨words, h⟩
  cases h with
  | cons hlead => exact hnot _ hlead

theorem not_wellFormed_of_tail (htail : C.Tail c) : ¬ WellFormed C (c :: rest) :=
  not_wellFormed_of_not_lead fun _ hlead => C.not_tail hlead htail

theorem Splits.fst_mem {words : List (α × List α)} (h : Splits C text words) :
    ∀ word ∈ words, word.1 ∈ text := by
  induction h with
  | nil => exact fun word hword => absurd hword List.not_mem_nil
  | cons _ _ _ ih =>
    refine List.forall_mem_cons.mpr ⟨List.mem_cons_self, fun word hword => ?_⟩
    exact List.mem_cons_of_mem _ (List.mem_append_right _ (ih word hword))

/-- Words one after another are split into these words. -/
theorem splits_flatMap {β : Type*} {word : β → α × List α} {items : List β}
    (hlead : ∀ x ∈ items, C.Leads (word x).1 (word x).2.length)
    (htails : ∀ x ∈ items, ∀ t ∈ (word x).2, C.Tail t) :
    Splits C (items.flatMap fun x => (word x).1 :: (word x).2) (items.map word) := by
  induction items with
  | nil => exact .nil
  | cons x items ih =>
    have hrest := ih (fun y hy => hlead y (List.mem_cons_of_mem _ hy))
      fun y hy => htails y (List.mem_cons_of_mem _ hy)
    rw [List.flatMap_cons, List.map_cons, List.cons_append]
    exact .cons (hlead x List.mem_cons_self) (htails x List.mem_cons_self) hrest

end LeadCode
