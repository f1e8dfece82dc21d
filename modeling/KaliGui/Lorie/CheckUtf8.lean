/-
What `lorieCheckUTF8` reads (`clipboard.c`).

The text of a property has a size and no terminator.  The check goes from sequence to sequence
and looks at the bytes of a sequence before it compares with the size, so a text without a NUL
that is never found wrong is left through its end.

* `lorieCheckUTF8` — the check, with the indices that it reads;
* `CutOff` — sequences one after another, the last perhaps not whole;
* `lorieCheckUTF8_inside_iff` — when it reads only what is there.
-/
import Mathlib.Algebra.Group.Int.Defs
import Mathlib.Algebra.Group.Nat.Defs
import Mathlib.Data.Nat.Notation
import Mathlib.Data.Nat.Basic
import Mathlib.Data.List.Basic
import KaliGui.Lib.Utf8

namespace Lorie.Text

open Utf8 (IsTail)

/-! ### The check -/

/-- The bytes behind `utf[ix]` that the body of the loop looks at, and what it adds to `ix`;
`none` if it returns 0. -/
def checkSequence (utf : ℤ → UInt8) (ix : Int32) : List ℤ × Option Int32 :=
  let c := utf ix.toInt
  if c &&& 0x80 ≠ 0 then
    if ¬ IsTail (utf (ix + 1).toInt) then ([(ix + 1).toInt], none)
    else if c &&& 0xe0 = 0xe0 then
      if ¬ IsTail (utf (ix + 2).toInt) then ([(ix + 1).toInt, (ix + 2).toInt], none)
      else if c &&& 0xf0 = 0xf0 then
        if c &&& 0xf8 ≠ 0xf0 then ([(ix + 1).toInt, (ix + 2).toInt], none)
        else if ¬ IsTail (utf (ix + 3).toInt) then
          ([(ix + 1).toInt, (ix + 2).toInt, (ix + 3).toInt], none)
        else ([(ix + 1).toInt, (ix + 2).toInt, (ix + 3).toInt], some 4)
      else ([(ix + 1).toInt, (ix + 2).toInt], some 3)
    else ([(ix + 1).toInt], some 2)
  else ([], some 1)

/-- `(size_t) ix` -/
def toSize (ix : Int32) : ℤ := ix.toInt % 2 ^ 64

theorem checkSequence_step {utf : ℤ → UInt8} {ix n : Int32}
    (h : (checkSequence utf ix).2 = some n) : n = 1 ∨ n = 2 ∨ n = 3 ∨ n = 4 := by
  simp only [checkSequence] at h
  split_ifs at h <;> cases h <;> decide

/-- A small step forward, or an overflow to a negative value. -/
theorem toInt_add_step {ix n : Int32} (hix : 0 ≤ ix.toInt)
    (hn : n = 1 ∨ n = 2 ∨ n = 3 ∨ n = 4) :
    (ix + n).toInt = ix.toInt + n.toInt ∨ (ix + n).toInt < 0 := by
  have hlt := ix.toInt_lt
  have hstep : 0 ≤ n.toInt ∧ n.toInt ≤ 4 := by
    rcases hn with rfl | rfl | rfl | rfl <;> decide
  rw [Int32.toInt_add, Int.bmod_def]
  split
  · left
    omega
  · right
    omega

theorem toSize_lt_iff {size : UInt32} {ix : Int32} :
    toSize ix < size.toNat ↔ 0 ≤ ix.toInt ∧ ix.toInt < size.toNat := by
  have hlt := ix.toInt_lt
  have hle := ix.le_toInt
  have hsize := size.toNat_lt
  rw [toSize]
  omega

/-- What is left of the size; an `ix` that has overflowed ends the loop. -/
def leftOf (size : UInt32) (ix : Int32) : ℕ :=
  if ix.toInt < 0 then 0 else size.toNat + 5 - ix.toInt.toNat

theorem leftOf_lt {utf : ℤ → UInt8} {size : UInt32} {ix n : Int32}
    (hsize : toSize ix < size.toNat) (h : (checkSequence utf ix).2 = some n) :
    leftOf size (ix + n) < leftOf size ix := by
  obtain ⟨hix, hlt⟩ := toSize_lt_iff.mp hsize
  have hn := checkSequence_step h
  have hpos : 1 ≤ n.toInt := by
    rcases hn with rfl | rfl | rfl | rfl <;> decide
  rw [leftOf, leftOf]
  rcases toInt_add_step hix hn with heq | hneg
  · rw [heq]
    split <;> split <;> omega
  · rw [if_pos hneg]
    split <;> omega

/-- The indices that are read, and what is returned. -/
def checkFrom (utf : ℤ → UInt8) (size : UInt32) (ix : Int32) : List ℤ × Bool :=
  if utf ix.toInt = 0 then ([ix.toInt], true)
  else if _hsize : toSize ix < size.toNat then
    match _h : (checkSequence utf ix).2 with
    | none => (ix.toInt :: (checkSequence utf ix).1, false)
    | some n =>
      let rest := checkFrom utf size (ix + n)
      (ix.toInt :: ((checkSequence utf ix).1 ++ rest.1), rest.2)
  else ([ix.toInt], true)
termination_by leftOf size ix
decreasing_by exact leftOf_lt _hsize _h

/-- `utf` is the memory at `prop->data`, and `size` is `prop->size`. -/
def lorieCheckUTF8 (utf : ℤ → UInt8) (size : UInt32) : List ℤ × Bool := checkFrom utf size 0

/-! ### Texts -/

/-- Sequences one after another, and the beginning of one that may be right. -/
inductive CutOff : List UInt8 → Prop
  | one {c : UInt8} {rest : List UInt8} : c ≠ 0 → c &&& 0x80 = 0 → CutOff rest →
      CutOff (c :: rest)
  | two {c c₁ : UInt8} {rest : List UInt8} : c &&& 0x80 ≠ 0 → c &&& 0xe0 ≠ 0xe0 → IsTail c₁ →
      CutOff rest → CutOff (c :: c₁ :: rest)
  | three {c c₁ c₂ : UInt8} {rest : List UInt8} : c &&& 0xe0 = 0xe0 → c &&& 0xf0 ≠ 0xf0 →
      IsTail c₁ → IsTail c₂ → CutOff rest → CutOff (c :: c₁ :: c₂ :: rest)
  | four {c c₁ c₂ c₃ : UInt8} {rest : List UInt8} : c &&& 0xf8 = 0xf0 → IsTail c₁ →
      IsTail c₂ → IsTail c₃ → CutOff rest → CutOff (c :: c₁ :: c₂ :: c₃ :: rest)
  | nothing : CutOff []
  | first {c : UInt8} : c &&& 0x80 ≠ 0 → CutOff [c]
  | second {c c₁ : UInt8} : c &&& 0xe0 = 0xe0 → IsTail c₁ → CutOff [c, c₁]
  | third {c c₁ c₂ : UInt8} : c &&& 0xf8 = 0xf0 → IsTail c₁ → IsTail c₂ → CutOff [c, c₁, c₂]

theorem and_of_and {c a b : UInt8} (h : c &&& a = b) (d : UInt8) (hd : a &&& d = d) :
    c &&& d = b &&& d := by
  rw [← h, UInt8.and_assoc, hd]

theorem lead_of_three {c : UInt8} (h : c &&& 0xe0 = 0xe0) : c &&& 0x80 ≠ 0 := by
  rw [and_of_and h 0x80 (by decide)]
  decide

theorem three_of_four {c : UInt8} (h : c &&& 0xf0 = 0xf0) : c &&& 0xe0 = 0xe0 := by
  rw [and_of_and h 0xe0 (by decide)]
  decide

theorem four_of_valid {c : UInt8} (h : c &&& 0xf8 = 0xf0) : c &&& 0xf0 = 0xf0 := by
  rw [and_of_and h 0xf0 (by decide)]
  decide

theorem lead_ne_zero {c : UInt8} (h : c &&& 0x80 ≠ 0) : c ≠ 0 := by
  rintro rfl
  exact h (by decide)

theorem not_cutOff_zero (rest : List UInt8) : ¬ CutOff (0 :: rest) := by
  intro h
  cases h with
  | one hzero => exact hzero rfl
  | two hlead => exact lead_ne_zero hlead rfl
  | three hthree => exact lead_ne_zero (lead_of_three hthree) rfl
  | four hfour => exact lead_ne_zero (lead_of_three (three_of_four (four_of_valid hfour))) rfl
  | first hlead => exact lead_ne_zero hlead rfl
  | second hthree => exact lead_ne_zero (lead_of_three hthree) rfl
  | third hfour => exact lead_ne_zero (lead_of_three (three_of_four (four_of_valid hfour))) rfl

theorem cutOff_one {c : UInt8} {rest : List UInt8} (hzero : c ≠ 0) (hc : c &&& 0x80 = 0) :
    CutOff (c :: rest) ↔ CutOff rest := by
  refine ⟨fun h => ?_, .one hzero hc⟩
  cases h with
  | one _ _ hrest => exact hrest
  | two hlead => exact absurd hc hlead
  | three hthree => exact absurd hc (lead_of_three hthree)
  | four hfour => exact absurd hc (lead_of_three (three_of_four (four_of_valid hfour)))
  | first hlead => exact absurd hc hlead
  | second hthree => exact absurd hc (lead_of_three hthree)
  | third hfour => exact absurd hc (lead_of_three (three_of_four (four_of_valid hfour)))

/-- A byte that begins a longer sequence asks for a tail. -/
theorem CutOff.tail {c c₁ : UInt8} {rest : List UInt8} (hc : c &&& 0x80 ≠ 0)
    (h : CutOff (c :: c₁ :: rest)) : IsTail c₁ := by
  cases h with
  | one _ hascii => exact absurd hascii hc
  | two _ _ htail => exact htail
  | three _ _ htail => exact htail
  | four _ htail => exact htail
  | second _ htail => exact htail
  | third _ htail => exact htail

theorem cutOff_two {c c₁ : UInt8} {rest : List UInt8} (hc : c &&& 0x80 ≠ 0)
    (hnot : c &&& 0xe0 ≠ 0xe0) (htail : IsTail c₁) : CutOff (c :: c₁ :: rest) ↔ CutOff rest := by
  refine ⟨fun h => ?_, .two hc hnot htail⟩
  cases h with
  | one _ hascii => exact absurd hascii hc
  | two _ _ _ hrest => exact hrest
  | three hthree => exact absurd hthree hnot
  | four hfour => exact absurd (three_of_four (four_of_valid hfour)) hnot
  | second hthree => exact absurd hthree hnot
  | third hfour => exact absurd (three_of_four (four_of_valid hfour)) hnot

theorem CutOff.tail₂ {c c₁ c₂ : UInt8} {rest : List UInt8} (hc : c &&& 0xe0 = 0xe0)
    (h : CutOff (c :: c₁ :: c₂ :: rest)) : IsTail c₂ := by
  cases h with
  | one _ hascii => exact absurd hascii (lead_of_three hc)
  | two _ hnot => exact absurd hc hnot
  | three _ _ _ htail => exact htail
  | four _ _ htail => exact htail
  | third _ _ htail => exact htail

theorem cutOff_three {c c₁ c₂ : UInt8} {rest : List UInt8} (hc : c &&& 0xe0 = 0xe0)
    (hnot : c &&& 0xf0 ≠ 0xf0) (htail₁ : IsTail c₁) (htail₂ : IsTail c₂) :
    CutOff (c :: c₁ :: c₂ :: rest) ↔ CutOff rest := by
  refine ⟨fun h => ?_, .three hc hnot htail₁ htail₂⟩
  cases h with
  | one _ hascii => exact absurd hascii (lead_of_three hc)
  | two _ hnot => exact absurd hc hnot
  | three _ _ _ _ hrest => exact hrest
  | four hfour => exact absurd (four_of_valid hfour) hnot
  | third hfour => exact absurd (four_of_valid hfour) hnot

/-- The bytes from 0xf8 on are told from those before them by the third byte. -/
theorem not_cutOff_long {c c₁ c₂ : UInt8} {rest : List UInt8} (hc : c &&& 0xf0 = 0xf0)
    (hnot : c &&& 0xf8 ≠ 0xf0) : ¬ CutOff (c :: c₁ :: c₂ :: rest) := by
  intro h
  cases h with
  | one _ hascii => exact lead_of_three (three_of_four hc) hascii
  | two _ hnot => exact hnot (three_of_four hc)
  | three _ hnot => exact hnot hc
  | four hfour => exact hnot hfour
  | third hfour => exact hnot hfour

theorem CutOff.tail₃ {c c₁ c₂ c₃ : UInt8} {rest : List UInt8} (hc : c &&& 0xf0 = 0xf0)
    (h : CutOff (c :: c₁ :: c₂ :: c₃ :: rest)) : IsTail c₃ := by
  cases h with
  | one _ hascii => exact absurd hascii (lead_of_three (three_of_four hc))
  | two _ hnot => exact absurd (three_of_four hc) hnot
  | three _ hnot => exact absurd hc hnot
  | four _ _ _ htail => exact htail

theorem cutOff_four {c c₁ c₂ c₃ : UInt8} {rest : List UInt8} (hc : c &&& 0xf8 = 0xf0)
    (htail₁ : IsTail c₁) (htail₂ : IsTail c₂) (htail₃ : IsTail c₃) :
    CutOff (c :: c₁ :: c₂ :: c₃ :: rest) ↔ CutOff rest := by
  have hfour := four_of_valid hc
  refine ⟨fun h => ?_, .four hc htail₁ htail₂ htail₃⟩
  cases h with
  | one _ hascii => exact absurd hascii (lead_of_three (three_of_four hfour))
  | two _ hnot => exact absurd (three_of_four hfour) hnot
  | three _ hnot => exact absurd hfour hnot
  | four _ _ _ _ hrest => exact hrest

/-! ### One turn -/

section

variable {utf : ℤ → UInt8} {ix : Int32}

theorem checkSequence_one (hlead : utf ix.toInt &&& 0x80 = 0) :
    checkSequence utf ix = ([], some 1) := by
  rw [checkSequence, if_neg (not_not_intro hlead)]

theorem checkSequence_first (hlead : utf ix.toInt &&& 0x80 ≠ 0)
    (htail₁ : ¬ IsTail (utf (ix + 1).toInt)) :
    checkSequence utf ix = ([(ix + 1).toInt], none) := by
  rw [checkSequence, if_pos hlead, if_pos htail₁]

theorem checkSequence_two (hlead : utf ix.toInt &&& 0x80 ≠ 0)
    (htail₁ : IsTail (utf (ix + 1).toInt)) (hthree : utf ix.toInt &&& 0xe0 ≠ 0xe0) :
    checkSequence utf ix = ([(ix + 1).toInt], some 2) := by
  rw [checkSequence, if_pos hlead, if_neg (not_not_intro htail₁), if_neg hthree]

/-- The bytes behind the first of a sequence of three or more. -/
theorem checkSequence_long (hthree : utf ix.toInt &&& 0xe0 = 0xe0)
    (htail₁ : IsTail (utf (ix + 1).toInt)) :
    checkSequence utf ix =
      if ¬ IsTail (utf (ix + 2).toInt) then ([(ix + 1).toInt, (ix + 2).toInt], none)
      else if utf ix.toInt &&& 0xf0 = 0xf0 then
        if utf ix.toInt &&& 0xf8 ≠ 0xf0 then ([(ix + 1).toInt, (ix + 2).toInt], none)
        else if ¬ IsTail (utf (ix + 3).toInt) then
          ([(ix + 1).toInt, (ix + 2).toInt, (ix + 3).toInt], none)
        else ([(ix + 1).toInt, (ix + 2).toInt, (ix + 3).toInt], some 4)
      else ([(ix + 1).toInt, (ix + 2).toInt], some 3) := by
  rw [checkSequence, if_pos (lead_of_three hthree), if_neg (not_not_intro htail₁),
    if_pos hthree]

/-- The byte behind the third of a sequence of four. -/
theorem checkSequence_four (hvalid : utf ix.toInt &&& 0xf8 = 0xf0)
    (htail₁ : IsTail (utf (ix + 1).toInt)) (htail₂ : IsTail (utf (ix + 2).toInt)) :
    checkSequence utf ix =
      if ¬ IsTail (utf (ix + 3).toInt) then
        ([(ix + 1).toInt, (ix + 2).toInt, (ix + 3).toInt], none)
      else ([(ix + 1).toInt, (ix + 2).toInt, (ix + 3).toInt], some 4) := by
  have hfour := four_of_valid hvalid
  rw [checkSequence_long (three_of_four hfour) htail₁, if_neg (not_not_intro htail₂),
    if_pos hfour, if_neg (not_not_intro hvalid)]

theorem first_read (hlead : utf ix.toInt &&& 0x80 ≠ 0) :
    (ix + 1).toInt ∈ (checkSequence utf ix).1 := by
  rw [checkSequence, if_pos hlead]
  split_ifs <;> exact List.mem_cons_self

theorem second_read (hthree : utf ix.toInt &&& 0xe0 = 0xe0)
    (htail₁ : IsTail (utf (ix + 1).toInt)) : (ix + 2).toInt ∈ (checkSequence utf ix).1 := by
  rw [checkSequence_long hthree htail₁]
  split_ifs <;> exact List.mem_cons_of_mem _ List.mem_cons_self

theorem third_read (hvalid : utf ix.toInt &&& 0xf8 = 0xf0)
    (htail₁ : IsTail (utf (ix + 1).toInt)) (htail₂ : IsTail (utf (ix + 2).toInt)) :
    (ix + 3).toInt ∈ (checkSequence utf ix).1 := by
  rw [checkSequence_four hvalid htail₁ htail₂]
  split_ifs <;> exact List.mem_cons_of_mem _ (List.mem_cons_of_mem _ List.mem_cons_self)

end

/-! ### Reads -/

/-- An index of one of the `size` bytes. -/
def Within (size : UInt32) (read : ℤ) : Prop := 0 ≤ read ∧ read < size.toNat

instance (size : UInt32) (read : ℤ) : Decidable (Within size read) :=
  inferInstanceAs (Decidable (_ ∧ _))

/-- The bytes that an `int` can count. -/
def limit (size : UInt32) : ℕ := min size.toNat (2 ^ 31)

theorem toInt_ofNat_small {k : ℕ} (hk : k < 2 ^ 31) : (Int32.ofNat k).toInt = k :=
  Int32.toInt_ofNat_of_lt hk

theorem within_ofNat_iff {size : UInt32} {k : ℕ} (hk : k ≤ 2 ^ 31 + 4) :
    Within size (Int32.ofNat k).toInt ↔ k < limit size := by
  have hsize := size.toNat_lt
  have hvalues : (Int32.size : ℤ) = 2 ^ 32 := rfl
  rw [Within, limit, Int32.toInt_ofNat', Int.bmod_def, hvalues]
  split <;> omega

theorem ofNat_add (k n : ℕ) : Int32.ofNat k + Int32.ofNat n = Int32.ofNat (k + n) :=
  (Int32.ofNat_add k n).symm

section

variable {utf : ℤ → UInt8} {size : UInt32} {ix n : Int32}

theorem checkFrom_found (hzero : utf ix.toInt = 0) : (checkFrom utf size ix).1 = [ix.toInt] := by
  rw [checkFrom, if_pos hzero]

theorem checkFrom_reads_first (utf : ℤ → UInt8) (size : UInt32) (ix : Int32) :
    ix.toInt ∈ (checkFrom utf size ix).1 := by
  rw [checkFrom]
  split
  · exact List.mem_singleton_self _
  split
  · split <;> exact List.mem_cons_self
  · exact List.mem_singleton_self _

theorem checkFrom_wrong (hzero : utf ix.toInt ≠ 0) (hsize : toSize ix < size.toNat)
    (h : (checkSequence utf ix).2 = none) :
    (checkFrom utf size ix).1 = ix.toInt :: (checkSequence utf ix).1 := by
  rw [checkFrom, if_neg hzero, dif_pos hsize]
  split
  · rfl
  · next hsome =>
    rw [h] at hsome
    cases hsome

theorem checkFrom_right (hzero : utf ix.toInt ≠ 0) (hsize : toSize ix < size.toNat)
    (h : (checkSequence utf ix).2 = some n) :
    (checkFrom utf size ix).1 =
      ix.toInt :: ((checkSequence utf ix).1 ++ (checkFrom utf size (ix + n)).1) := by
  rw [checkFrom, if_neg hzero, dif_pos hsize]
  split
  · next hnone =>
    rw [h] at hnone
    cases hnone
  · next step hsome =>
    rw [h] at hsome
    cases hsome
    rfl

end

/-! ### The whole check -/

/-- The `n` bytes from `utf[k]` on. -/
def bytes (utf : ℤ → UInt8) (k n : ℕ) : List UInt8 := (List.range' k n).map fun i : ℕ => utf i

@[simp] theorem bytes_zero (utf : ℤ → UInt8) (k : ℕ) : bytes utf k 0 = [] := rfl

theorem bytes_succ (utf : ℤ → UInt8) (k n : ℕ) :
    bytes utf k (n + 1) = utf k :: bytes utf (k + 1) n := rfl

/-- Only the `size` bytes are read. -/
def Inside (size : UInt32) (reads : List ℤ) : Prop := ∀ read ∈ reads, Within size read

section

variable {utf : ℤ → UInt8} {size : UInt32} {k : ℕ}

theorem inside_cons {read : ℤ} {reads : List ℤ} :
    Inside size (read :: reads) ↔ Within size read ∧ Inside size reads :=
  List.forall_mem_cons

theorem inside_append {reads more : List ℤ} :
    Inside size (reads ++ more) ↔ Inside size reads ∧ Inside size more :=
  List.forall_mem_append

theorem inside_nil : Inside size [] := fun _ h => absurd h List.not_mem_nil

/-- At the end of the text the check reads on. -/
theorem not_inside_end (hend : k = limit size) :
    ¬ Inside size (checkFrom utf size (Int32.ofNat k)).1 := by
  intro h
  have hread := h _ (checkFrom_reads_first utf size (Int32.ofNat k))
  have hle : limit size ≤ 2 ^ 31 := min_le_right _ _
  rw [within_ofNat_iff (by omega)] at hread
  omega

/-- The facts about an index before the end. -/
structure Before (size : UInt32) (k : ℕ) : Prop where
  index : (Int32.ofNat k).toInt = k
  goesOn : toSize (Int32.ofNat k) < size.toNat
  within : Within size (Int32.ofNat k).toInt

theorem before (hk : k < limit size) : Before size k := by
  have hsmall : k < 2 ^ 31 := lt_of_lt_of_le hk (min_le_right _ _)
  have hwithin : Within size (Int32.ofNat k).toInt := (within_ofNat_iff (by omega)).mpr hk
  exact ⟨toInt_ofNat_small hsmall, toSize_lt_iff.mpr hwithin, hwithin⟩

/-- A sequence that is looked at beyond the end. -/
theorem not_inside_past (hk : k < limit size) (hzero : utf k ≠ 0)
    (hpast : (Int32.ofNat (limit size)).toInt ∈ (checkSequence utf (Int32.ofNat k)).1) :
    ¬ Inside size (checkFrom utf size (Int32.ofNat k)).1 := by
  have hbefore := before hk
  rw [← hbefore.index] at hzero
  intro h
  have hread : Within size (Int32.ofNat (limit size)).toInt := by
    cases hseq : (checkSequence utf (Int32.ofNat k)).2 with
    | none =>
      rw [checkFrom_wrong hzero hbefore.goesOn hseq] at h
      exact (inside_cons.mp h).2 _ hpast
    | some n =>
      rw [checkFrom_right hzero hbefore.goesOn hseq] at h
      exact (inside_append.mp (inside_cons.mp h).2).1 _ hpast
  have hle : limit size ≤ 2 ^ 31 := min_le_right _ _
  rw [within_ofNat_iff (by omega)] at hread
  omega

theorem inside_wrong {reads : List ℤ} (hk : k < limit size) (hzero : utf k ≠ 0)
    (hseq : checkSequence utf (Int32.ofNat k) = (reads, none)) (hreads : Inside size reads) :
    Inside size (checkFrom utf size (Int32.ofNat k)).1 := by
  have hbefore := before hk
  rw [← hbefore.index] at hzero
  rw [checkFrom_wrong hzero hbefore.goesOn (by rw [hseq]), hseq]
  exact inside_cons.mpr ⟨hbefore.within, hreads⟩

theorem inside_right_iff {reads : List ℤ} {n : ℕ} (hk : k < limit size) (hzero : utf k ≠ 0)
    (hseq : checkSequence utf (Int32.ofNat k) = (reads, some (Int32.ofNat n)))
    (hreads : Inside size reads) :
    Inside size (checkFrom utf size (Int32.ofNat k)).1 ↔
      Inside size (checkFrom utf size (Int32.ofNat (k + n))).1 := by
  have hbefore := before hk
  rw [← hbefore.index] at hzero
  rw [checkFrom_right hzero hbefore.goesOn (by rw [hseq]), hseq, inside_cons, inside_append,
    ofNat_add]
  simp only [hbefore.within, hreads, true_and]

/-- What is left of the text. -/
def remaining (utf : ℤ → UInt8) (size : UInt32) (k : ℕ) : List UInt8 :=
  bytes utf k (limit size - k)

theorem remaining_end (hk : k = limit size) : remaining utf size k = [] := by
  rw [remaining, hk, Nat.sub_self, bytes_zero]

theorem remaining_cons (hk : k < limit size) :
    remaining utf size k = utf k :: remaining utf size (k + 1) := by
  rw [remaining, remaining, ← bytes_succ]
  congr 1
  omega

theorem next_index {n : ℕ} (hn : k + n < limit size) :
    (Int32.ofNat k + Int32.ofNat n).toInt = ((k + n : ℕ) : ℤ) := by
  rw [ofNat_add, (before hn).index]

theorem within_next {n : ℕ} (hn : k + n < limit size) : Within size ((k + n : ℕ) : ℤ) := by
  rw [← (before hn).index]
  exact (before hn).within

/-- The check from `utf[i]` on tells whether the rest of the text is cut off. -/
def Tells (utf : ℤ → UInt8) (size : UInt32) (i : ℕ) : Prop :=
  Inside size (checkFrom utf size (Int32.ofNat i)).1 ↔ ¬ CutOff (remaining utf size i)

theorem tells_past (hk : k < limit size) (hzero : utf k ≠ 0)
    (hpast : (Int32.ofNat (limit size)).toInt ∈ (checkSequence utf (Int32.ofNat k)).1)
    (hcut : CutOff (remaining utf size k)) : Tells utf size k :=
  iff_of_false (not_inside_past hk hzero hpast) (not_not_intro hcut)

theorem tells_wrong {reads : List ℤ} (hk : k < limit size) (hzero : utf k ≠ 0)
    (hseq : checkSequence utf (Int32.ofNat k) = (reads, none)) (hreads : Inside size reads)
    (hcut : ¬ CutOff (remaining utf size k)) : Tells utf size k :=
  iff_of_true (inside_wrong hk hzero hseq hreads) hcut

theorem tells_right {reads : List ℤ} {n : ℕ} (hk : k < limit size) (hzero : utf k ≠ 0)
    (hseq : checkSequence utf (Int32.ofNat k) = (reads, some (Int32.ofNat n)))
    (hreads : Inside size reads)
    (hcut : CutOff (remaining utf size k) ↔ CutOff (remaining utf size (k + n)))
    (ih : Tells utf size (k + n)) : Tells utf size k := by
  rw [Tells, inside_right_iff hk hzero hseq hreads, hcut]
  exact ih

theorem tells_one (hk : k < limit size) (hzero : utf k ≠ 0) (hlead : utf k &&& 0x80 = 0)
    (ih : Tells utf size (k + 1)) : Tells utf size k := by
  have hseq : checkSequence utf (Int32.ofNat k) = ([], some (Int32.ofNat 1)) := by
    rw [checkSequence_one ((before hk).index ▸ hlead)]
    rfl
  refine tells_right hk hzero hseq inside_nil ?_ ih
  rw [remaining_cons hk, cutOff_one hzero hlead]

/-- From the fourth byte of a sequence on. -/
theorem tells_four (hk : k + 2 < limit size) (hvalid : utf k &&& 0xf8 = 0xf0)
    (htail₁ : IsTail (utf (k + 1 : ℕ))) (htail₂ : IsTail (utf (k + 2 : ℕ)))
    (ih : k + 4 ≤ limit size → Tells utf size (k + 4)) : Tells utf size k := by
  have hfour := four_of_valid hvalid
  have hthree := three_of_four hfour
  have hlead := lead_of_three hthree
  have hindex := (before (by omega : k < limit size)).index
  have hnext₁ : (Int32.ofNat k + 1).toInt = ((k + 1 : ℕ) : ℤ) :=
    next_index (by omega : k + 1 < limit size)
  have hnext₂ : (Int32.ofNat k + 2).toInt = ((k + 2 : ℕ) : ℤ) := next_index hk
  have hvalid' : utf (Int32.ofNat k).toInt &&& 0xf8 = 0xf0 := hindex ▸ hvalid
  have hseq := checkSequence_four hvalid' (hnext₁ ▸ htail₁) (hnext₂ ▸ htail₂)
  rw [hnext₁, hnext₂] at hseq
  have hleft : remaining utf size k =
      utf k :: utf (k + 1 : ℕ) :: utf (k + 2 : ℕ) :: remaining utf size (k + 3) := by
    rw [remaining_cons (by omega), remaining_cons (by omega), remaining_cons hk]
  rcases Nat.lt_or_ge (k + 3) (limit size) with hlt | hge
  · have hnext₃ : (Int32.ofNat k + 3).toInt = ((k + 3 : ℕ) : ℤ) := next_index hlt
    have hreads : Inside size [((k + 1 : ℕ) : ℤ), ((k + 2 : ℕ) : ℤ), ((k + 3 : ℕ) : ℤ)] :=
      inside_cons.mpr ⟨within_next (by omega), inside_cons.mpr ⟨within_next hk,
        inside_cons.mpr ⟨within_next hlt, inside_nil⟩⟩⟩
    rw [remaining_cons hlt] at hleft
    by_cases htail₃ : IsTail (utf (k + 3 : ℕ))
    · refine tells_right (n := 4) (by omega) (lead_ne_zero hlead) ?_ hreads ?_ (ih (by omega))
      · rw [hseq, hnext₃, if_neg (not_not_intro htail₃)]
        rfl
      · rw [hleft, cutOff_four hvalid htail₁ htail₂ htail₃]
    · refine tells_wrong (by omega) (lead_ne_zero hlead) ?_ hreads ?_
      · rw [hseq, hnext₃, if_pos htail₃]
      · rw [hleft]
        exact fun h => htail₃ (h.tail₃ hfour)
  · have hend : k + 3 = limit size := by omega
    refine tells_past (by omega) (lead_ne_zero hlead) ?_ ?_
    · rw [← hend, ← ofNat_add]
      exact third_read hvalid' (hnext₁ ▸ htail₁) (hnext₂ ▸ htail₂)
    · rw [hleft, remaining_end hend]
      exact .third hvalid htail₁ htail₂

/-- From the third byte of a sequence on. -/
theorem tells_three (hk : k + 1 < limit size) (hthree : utf k &&& 0xe0 = 0xe0)
    (htail₁ : IsTail (utf (k + 1 : ℕ))) (ih : ∀ i, k < i → i ≤ limit size → Tells utf size i) :
    Tells utf size k := by
  have hlead := lead_of_three hthree
  have hindex := (before (by omega : k < limit size)).index
  have hnext₁ : (Int32.ofNat k + 1).toInt = ((k + 1 : ℕ) : ℤ) := next_index hk
  have hthree' : utf (Int32.ofNat k).toInt &&& 0xe0 = 0xe0 := hindex ▸ hthree
  have hseq := checkSequence_long hthree' (hnext₁ ▸ htail₁)
  rw [hindex, hnext₁] at hseq
  have hleft : remaining utf size k = utf k :: utf (k + 1 : ℕ) :: remaining utf size (k + 2) := by
    rw [remaining_cons (by omega), remaining_cons hk]
  rcases Nat.lt_or_ge (k + 2) (limit size) with hlt | hge
  · have hnext₂ : (Int32.ofNat k + 2).toInt = ((k + 2 : ℕ) : ℤ) := next_index hlt
    have hreads : Inside size [((k + 1 : ℕ) : ℤ), ((k + 2 : ℕ) : ℤ)] :=
      inside_cons.mpr ⟨within_next hk, inside_cons.mpr ⟨within_next hlt, inside_nil⟩⟩
    rw [remaining_cons hlt] at hleft
    by_cases htail₂ : IsTail (utf (k + 2 : ℕ))
    · by_cases hfour : utf k &&& 0xf0 = 0xf0
      · by_cases hvalid : utf k &&& 0xf8 = 0xf0
        · exact tells_four hlt hvalid htail₁ htail₂ (ih (k + 4) (by omega))
        · refine tells_wrong (by omega) (lead_ne_zero hlead) ?_ hreads ?_
          · rw [hseq, hnext₂, if_neg (not_not_intro htail₂), if_pos hfour, if_pos hvalid]
          · rw [hleft]
            exact not_cutOff_long hfour hvalid
      · refine tells_right (n := 3) (by omega) (lead_ne_zero hlead) ?_ hreads ?_
          (ih _ (by omega) (by omega))
        · rw [hseq, hnext₂, if_neg (not_not_intro htail₂), if_neg hfour]
          rfl
        · rw [hleft, cutOff_three hthree hfour htail₁ htail₂]
    · refine tells_wrong (by omega) (lead_ne_zero hlead) ?_ hreads ?_
      · rw [hseq, hnext₂, if_pos htail₂]
      · rw [hleft]
        exact fun h => htail₂ (h.tail₂ hthree)
  · have hend : k + 2 = limit size := by omega
    refine tells_past (by omega) (lead_ne_zero hlead) ?_ ?_
    · rw [← hend, ← ofNat_add]
      exact second_read hthree' (hnext₁ ▸ htail₁)
    · rw [hleft, remaining_end hend]
      exact .second hthree htail₁

/-- A sequence of more than one byte. -/
theorem tells_two (hk : k < limit size) (hlead : utf k &&& 0x80 ≠ 0)
    (ih : ∀ i, k < i → i ≤ limit size → Tells utf size i) : Tells utf size k := by
  have hindex := (before hk).index
  have hleft := @remaining_cons utf size k hk
  rcases Nat.lt_or_ge (k + 1) (limit size) with hlt | hge
  · have hnext₁ : (Int32.ofNat k + 1).toInt = ((k + 1 : ℕ) : ℤ) := next_index hlt
    have hreads : Inside size [((k + 1 : ℕ) : ℤ)] :=
      inside_cons.mpr ⟨within_next hlt, inside_nil⟩
    rw [remaining_cons hlt] at hleft
    by_cases htail₁ : IsTail (utf (k + 1 : ℕ))
    · by_cases hthree : utf k &&& 0xe0 = 0xe0
      · exact tells_three hlt hthree htail₁ ih
      · refine tells_right (n := 2) hk (lead_ne_zero hlead) ?_ hreads ?_
          (ih _ (by omega) (by omega))
        · rw [checkSequence_two (hindex ▸ hlead) (hnext₁ ▸ htail₁) (hindex ▸ hthree), hnext₁]
          rfl
        · rw [hleft, cutOff_two hlead hthree htail₁]
    · refine tells_wrong hk (lead_ne_zero hlead) ?_ hreads ?_
      · rw [checkSequence_first (hindex ▸ hlead) (hnext₁ ▸ htail₁), hnext₁]
      · rw [hleft]
        exact fun h => htail₁ (h.tail hlead)
  · have hend : k + 1 = limit size := by omega
    refine tells_past hk (lead_ne_zero hlead) ?_ ?_
    · rw [← hend, ← ofNat_add]
      exact first_read (hindex ▸ hlead)
    · rw [hleft, remaining_end hend]
      exact .first hlead

/-- From the end of the text to its beginning. -/
theorem tells (hk : k ≤ limit size) : Tells utf size k := by
  induction hn : limit size - k using Nat.strong_induction_on generalizing k with
  | _ n ih =>
  have hrest : ∀ i, k < i → i ≤ limit size → Tells utf size i :=
    fun i hi hle => ih (limit size - i) (by omega) hle rfl
  rcases Nat.lt_or_eq_of_le hk with hlt | hend
  · rcases eq_or_ne (utf k) 0 with hzero | hzero
    · have hindex := (before hlt).index
      rw [Tells, checkFrom_found (by rw [hindex, hzero]), remaining_cons hlt, hzero]
      exact iff_of_true (inside_cons.mpr ⟨(before hlt).within, inside_nil⟩) (not_cutOff_zero _)
    · by_cases hlead : utf k &&& 0x80 = 0
      · exact tells_one hlt hzero hlead (hrest _ (by omega) (by omega))
      · exact tells_two hlt hlead hrest
  · rw [Tells, remaining_end hend]
    exact iff_of_false (not_inside_end hend) (not_not_intro .nothing)

end

/-- A text that is cut off is one that the check reads past. -/
theorem lorieCheckUTF8_inside_iff (utf : ℤ → UInt8) (size : UInt32) :
    Inside size (lorieCheckUTF8 utf size).1 ↔ ¬ CutOff (bytes utf 0 (limit size)) :=
  tells (Nat.zero_le _)

end Lorie.Text
