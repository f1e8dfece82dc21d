/-
UTF-8, as far as its structure goes.

The first byte of a sequence says by its upper bits how many continuation bytes follow, and the
lower bits of all of them, one after another, are the code point.  Nothing is said of sequences
that are longer than they have to be, and of code points that are no characters.

* `code` — the code of lead bytes and continuation bytes;
* `codePoint` — the code point of a sequence;
* `leadBits_bound` — code points have 21 bits;
* `Shortest` — sequences that are no longer than they have to be.
-/
import Mathlib.Algebra.Group.Nat.Defs
import KaliGui.Lib.LeadCode

namespace Utf8

/-- The first byte of a sequence, and the number of continuation bytes behind it. -/
def Leads (c : UInt8) : ℕ → Prop
  | 0 => c &&& 0x80 = 0
  | 1 => c &&& 0xe0 = 0xc0
  | 2 => c &&& 0xf0 = 0xe0
  | 3 => c &&& 0xf8 = 0xf0
  | _ + 4 => False

/-- A continuation byte. -/
def IsTail (c : UInt8) : Prop := c &&& 0xc0 = 0x80

instance (c : UInt8) : Decidable (IsTail c) := inferInstanceAs (Decidable (_ = _))

instance (c : UInt8) : ∀ n, Decidable (Leads c n)
  | 0 => inferInstanceAs (Decidable (_ = _))
  | 1 => inferInstanceAs (Decidable (_ = _))
  | 2 => inferInstanceAs (Decidable (_ = _))
  | 3 => inferInstanceAs (Decidable (_ = _))
  | _ + 4 => inferInstanceAs (Decidable False)

theorem forall_byte {P : UInt8 → Prop} (h : ∀ c : BitVec 8, P ⟨c⟩) (c : UInt8) : P c :=
  h c.toBitVec

theorem Leads.le {c : UInt8} {n : ℕ} (h : Leads c n) : n ≤ 3 := by
  match n, h with
  | 0, _ | 1, _ | 2, _ | 3, _ => decide

theorem Leads.unique {c : UInt8} {m n : ℕ} (hm : Leads c m) (hn : Leads c n) : m = n := by
  have hall : ∀ c : UInt8, ∀ i : Fin 4, ∀ j : Fin 4, Leads c i → Leads c j → i = j :=
    forall_byte (by decide +kernel)
  have heq := hall c ⟨m, Nat.lt_succ_of_le hm.le⟩ ⟨n, Nat.lt_succ_of_le hn.le⟩ hm hn
  exact congrArg Fin.val heq

theorem Leads.not_isTail {c : UInt8} {n : ℕ} (h : Leads c n) : ¬ IsTail c := by
  have hall : ∀ c : UInt8, ∀ i : Fin 4, Leads c i → ¬ IsTail c := forall_byte (by decide +kernel)
  exact hall c ⟨n, Nat.lt_succ_of_le h.le⟩ h

def code : LeadCode.Code UInt8 where
  Leads := Leads
  Tail := IsTail
  leads_unique := Leads.unique
  not_tail := Leads.not_isTail

/-- Well formed in structure. -/
def WellFormed (text : List UInt8) : Prop := LeadCode.WellFormed code text

/-- Sequences one after another are split into these sequences. -/
theorem splits_words (words : List (UInt8 × List UInt8))
    (h : ∀ word ∈ words, Leads word.1 word.2.length ∧ ∀ t ∈ word.2, IsTail t) :
    LeadCode.Splits code (words.flatMap fun word => word.1 :: word.2) words := by
  have hsplits := LeadCode.splits_flatMap (C := code) (fun word hword => (h word hword).1)
    fun word hword => (h word hword).2
  rwa [List.map_id'] at hsplits

/-- The bits of a first byte that are not taken for the length. -/
def leadBits (c : UInt8) : ℕ → UInt8
  | 0 => c
  | 1 => c &&& 0x1f
  | 2 => c &&& 0x0f
  | _ => c &&& 0x07

/-- The bits of continuation bytes behind those of `v`. -/
def continued (v : ℕ) (tails : List UInt8) : ℕ :=
  tails.foldl (fun v t => v * 64 + (t &&& 0x3f).toNat) v

theorem continued_cons (v : ℕ) (t : UInt8) (tails : List UInt8) :
    continued v (t :: tails) = continued (v * 64 + (t &&& 0x3f).toNat) tails := rfl

def codePoint (word : UInt8 × List UInt8) : ℕ :=
  continued (leadBits word.1 word.2.length).toNat word.2

theorem tailBits_lt (t : UInt8) : (t &&& 0x3f).toNat < 64 :=
  forall_byte (P := fun t => (t &&& 0x3f).toNat < 64) (by decide +kernel) t

theorem leadBits_bound {c : UInt8} {n : ℕ} (h : Leads c n) :
    ((leadBits c n).toNat + 1) * 64 ^ n ≤ 2 ^ 21 := by
  have hall : ∀ c : UInt8, ∀ i : Fin 4, Leads c i →
      ((leadBits c i).toNat + 1) * 64 ^ (i : ℕ) ≤ 2 ^ 21 := forall_byte (by decide +kernel)
  exact hall c ⟨n, Nat.lt_succ_of_le h.le⟩ h

/-- The least code point that needs so many continuation bytes. -/
def leastCodePoint : ℕ → ℕ
  | 0 => 0
  | 1 => 0x80
  | 2 => 0x800
  | _ => 0x10000

def Shortest (word : UInt8 × List UInt8) : Prop := leastCodePoint word.2.length ≤ codePoint word

theorem leastCodePoint_pos {n : ℕ} (hn : 0 < n) : 0 < leastCodePoint n := by
  match n, hn with
  | 1, _ | 2, _ | _ + 3, _ => exact Nat.zero_lt_succ _

/-- Only the byte 0 is short enough for U+0000. -/
theorem Shortest.codePoint_ne_zero {word : UInt8 × List UInt8} (h : Shortest word)
    (hzero : word.1 ≠ 0) : codePoint word ≠ 0 := by
  obtain ⟨c, tails⟩ := word
  cases tails with
  | nil => exact fun hcode => hzero (UInt8.toNat_inj.mp hcode)
  | cons t tails =>
    have hpos := leastCodePoint_pos (Nat.succ_pos tails.length)
    exact Nat.ne_of_gt (Nat.lt_of_lt_of_le hpos h)

end Utf8
