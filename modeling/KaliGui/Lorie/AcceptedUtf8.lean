/-
What `lorieCheckUTF8` accepts (`clipboard.c`).

The check takes a continuation byte for the first of two, and a sequence at the end of the text
for whole if the bytes behind the text would make it so.  Its index is an `int`, and ends at
2^31 whatever the size.

* `Accepts` — how the check splits a text, `accepts_iff`;
* `range` — the bytes up to the first NUL, or up to the size;
* `Misread` — the texts of which the check is wrong;
* `lorieCheckUTF8_agrees_iff` — it accepts well-formed texts, and no others, apart from these.
-/
import Mathlib.Order.Nat
import KaliGui.Lib.Utf8
import KaliGui.Lorie.CheckUtf8

namespace Lorie.Text

open LeadCode (Owes)
open Utf8 (IsTail)

/-! ### How the check splits a text -/

/-- The byte that an `int` finds; it counts to 2^31. -/
def seen (utf : ℤ → UInt8) (k : ℕ) : UInt8 := utf (Int32.ofNat k).toInt

/-- What the check takes for the first byte of a sequence. -/
def TakenFor (c : UInt8) (n : ℕ) : Prop := Utf8.Leads c n ∨ IsTail c ∧ n = 1

/-- Continuation bytes behind `utf[k]`. -/
def TailsBehind (utf : ℤ → UInt8) (k n : ℕ) : Prop := ∀ i < n, IsTail (seen utf (k + 1 + i))

/-- From `utf[k]` on. -/
inductive Accepts (utf : ℤ → UInt8) (size : UInt32) : ℕ → Prop
  | stop {k : ℕ} : limit size ≤ k ∨ seen utf k = 0 → Accepts utf size k
  | sequence {k n : ℕ} : k < limit size → seen utf k ≠ 0 → TakenFor (seen utf k) n →
      TailsBehind utf k n → Accepts utf size (k + 1 + n) → Accepts utf size k

theorem takenFor_one_iff (c : UInt8) :
    TakenFor c 1 ↔ c &&& 0x80 ≠ 0 ∧ c &&& 0xe0 ≠ 0xe0 :=
  Utf8.forall_byte (P := fun c => c &&& 0xe0 = 0xc0 ∨ c &&& 0xc0 = 0x80 ∧ 1 = 1 ↔
    c &&& 0x80 ≠ 0 ∧ c &&& 0xe0 ≠ 0xe0) (by decide +kernel) c

theorem leads_two_iff (c : UInt8) :
    Utf8.Leads c 2 ↔ c &&& 0xe0 = 0xe0 ∧ c &&& 0xf0 ≠ 0xf0 :=
  Utf8.forall_byte (P := fun c => c &&& 0xf0 = 0xe0 ↔ c &&& 0xe0 = 0xe0 ∧ c &&& 0xf0 ≠ 0xf0)
    (by decide +kernel) c

theorem TakenFor.unique {c : UInt8} {m n : ℕ} (hm : TakenFor c m) (hn : TakenFor c n) :
    m = n := by
  rcases hm with hm | ⟨htail, rfl⟩
  · rcases hn with hn | ⟨htail, rfl⟩
    · exact hm.unique hn
    · exact absurd htail hm.not_isTail
  · rcases hn with hn | ⟨-, rfl⟩
    · exact absurd htail hn.not_isTail
    · rfl

theorem takenFor_zero_iff (c : UInt8) : TakenFor c 0 ↔ c &&& 0x80 = 0 :=
  or_iff_left fun h => Nat.zero_ne_one h.2

theorem takenFor_two_iff (c : UInt8) :
    TakenFor c 2 ↔ c &&& 0xe0 = 0xe0 ∧ c &&& 0xf0 ≠ 0xf0 := by
  rw [TakenFor, or_iff_left fun h => absurd h.2 (by decide), leads_two_iff]

theorem takenFor_three_iff (c : UInt8) : TakenFor c 3 ↔ c &&& 0xf8 = 0xf0 :=
  or_iff_left fun h => absurd h.2 (by decide)

theorem TakenFor.le {c : UInt8} {n : ℕ} (h : TakenFor c n) : n ≤ 3 := by
  rcases h with h | ⟨-, rfl⟩
  · exact h.le
  · decide

theorem exists_takenFor_iff {c : UInt8} {n : ℕ} (h : TakenFor c n) {P : ℕ → Prop} :
    (∃ m, TakenFor c m ∧ P m) ↔ P n := by
  constructor
  · rintro ⟨m, hm, hP⟩
    rwa [h.unique hm]
  · exact fun hP => ⟨n, h, hP⟩

section

variable {utf : ℤ → UInt8} {size : UInt32} {k n : ℕ}

theorem tailsBehind_zero : TailsBehind utf k 0 := fun i hi => absurd hi (Nat.not_lt_zero i)

theorem tailsBehind_succ :
    TailsBehind utf k (n + 1) ↔ TailsBehind utf k n ∧ IsTail (seen utf (k + 1 + n)) :=
  Nat.forall_lt_succ_right

theorem TailsBehind.mono {m : ℕ} (h : TailsBehind utf k n) (hle : m ≤ n) : TailsBehind utf k m :=
  fun i hi => h i (hi.trans_le hle)

theorem tailsBehind_one : TailsBehind utf k 1 ↔ IsTail (utf (Int32.ofNat k + 1).toInt) := by
  rw [tailsBehind_succ, and_iff_right tailsBehind_zero, seen, Nat.add_zero, ← ofNat_add]
  rfl

theorem tailsBehind_two : TailsBehind utf k 2 ↔
    IsTail (utf (Int32.ofNat k + 1).toInt) ∧ IsTail (utf (Int32.ofNat k + 2).toInt) := by
  rw [tailsBehind_succ, tailsBehind_one, seen, Nat.add_assoc, ← ofNat_add]
  rfl

theorem tailsBehind_three : TailsBehind utf k 3 ↔
    (IsTail (utf (Int32.ofNat k + 1).toInt) ∧ IsTail (utf (Int32.ofNat k + 2).toInt)) ∧
      IsTail (utf (Int32.ofNat k + 3).toInt) := by
  rw [tailsBehind_succ, tailsBehind_two, seen, Nat.add_assoc, ← ofNat_add]
  rfl

/-- The check returns 0 for a byte from 0xf8 on. -/
theorem not_takenFor {c : UInt8} (hfour : c &&& 0xf0 = 0xf0) (hnot : c &&& 0xf8 ≠ 0xf0) :
    ¬ TakenFor c n := by
  intro h
  have hthree := three_of_four hfour
  match n, h.le with
  | 0, _ => exact lead_of_three hthree ((takenFor_zero_iff c).mp h)
  | 1, _ => exact ((takenFor_one_iff c).mp h).2 hthree
  | 2, _ => exact ((takenFor_two_iff c).mp h).2 hfour
  | 3, _ => exact hnot ((takenFor_three_iff c).mp h)

/-- A sequence of three bytes or more, or of bytes from 0xf8 on. -/
theorem two_le_of_takenFor {c : UInt8} (h : TakenFor c n) (hthree : c &&& 0xe0 = 0xe0) :
    2 ≤ n := by
  match n, h.le with
  | 0, _ => exact absurd ((takenFor_zero_iff c).mp h) (lead_of_three hthree)
  | 1, _ => exact absurd hthree ((takenFor_one_iff c).mp h).2
  | 2, _ | 3, _ => decide

theorem pos_of_takenFor {c : UInt8} (h : TakenFor c n) (hlead : c &&& 0x80 ≠ 0) : 1 ≤ n := by
  rcases Nat.eq_zero_or_pos n with rfl | hpos
  · exact absurd ((takenFor_zero_iff c).mp h) hlead
  · exact hpos

theorem checkSequence_long_iff {step : Int32} (hthree : seen utf k &&& 0xe0 = 0xe0)
    (htail₁ : IsTail (utf (Int32.ofNat k + 1).toInt)) :
    (checkSequence utf (Int32.ofNat k)).2 = some step ↔
      ∃ n, TakenFor (seen utf k) n ∧ TailsBehind utf k n ∧ step = Int32.ofNat (1 + n) := by
  have hseen : utf (Int32.ofNat k).toInt = seen utf k := rfl
  rw [checkSequence_long hthree htail₁, hseen]
  by_cases htail₂ : IsTail (utf (Int32.ofNat k + 2).toInt)
  · rw [if_neg (not_not_intro htail₂)]
    by_cases hfour : seen utf k &&& 0xf0 = 0xf0
    · rw [if_pos hfour]
      by_cases hvalid : seen utf k &&& 0xf8 = 0xf0
      · rw [if_neg (not_not_intro hvalid),
          exists_takenFor_iff ((takenFor_three_iff _).mpr hvalid), tailsBehind_three,
          and_iff_right (And.intro htail₁ htail₂)]
        by_cases htail₃ : IsTail (utf (Int32.ofNat k + 3).toInt)
        · rw [if_neg (not_not_intro htail₃), and_iff_right htail₃, Option.some_inj, eq_comm]
          rfl
        · rw [if_pos htail₃]
          exact iff_of_false nofun fun h => htail₃ h.1
      · rw [if_pos hvalid]
        exact iff_of_false nofun fun ⟨_, hn, _⟩ => not_takenFor hfour hvalid hn
    · rw [if_neg hfour, exists_takenFor_iff ((takenFor_two_iff _).mpr ⟨hthree, hfour⟩),
        tailsBehind_two, and_iff_right (And.intro htail₁ htail₂), Option.some_inj, eq_comm]
      rfl
  · rw [if_pos htail₂]
    refine iff_of_false nofun ?_
    rintro ⟨n, hn, htails, -⟩
    exact htail₂ (tailsBehind_two.mp (htails.mono (two_le_of_takenFor hn hthree))).2

/-- One turn goes over a sequence as the check takes it. -/
theorem checkSequence_eq_some_iff {step : Int32} :
    (checkSequence utf (Int32.ofNat k)).2 = some step ↔
      ∃ n, TakenFor (seen utf k) n ∧ TailsBehind utf k n ∧ step = Int32.ofNat (1 + n) := by
  by_cases hlead : seen utf k &&& 0x80 = 0
  · rw [checkSequence_one hlead, exists_takenFor_iff ((takenFor_zero_iff _).mpr hlead),
      and_iff_right tailsBehind_zero, Option.some_inj, eq_comm]
    rfl
  by_cases htail₁ : IsTail (utf (Int32.ofNat k + 1).toInt)
  · by_cases hthree : seen utf k &&& 0xe0 = 0xe0
    · exact checkSequence_long_iff hthree htail₁
    · rw [checkSequence_two hlead htail₁ hthree,
        exists_takenFor_iff ((takenFor_one_iff _).mpr ⟨hlead, hthree⟩), tailsBehind_one,
        and_iff_right htail₁, Option.some_inj, eq_comm]
      rfl
  · rw [checkSequence_first hlead htail₁]
    refine iff_of_false nofun ?_
    rintro ⟨n, hn, htails, -⟩
    exact htail₁ (tailsBehind_one.mp (htails.mono (pos_of_takenFor hn hlead)))

theorem checkFrom_result_iff {ix : Int32} (hzero : utf ix.toInt ≠ 0)
    (hsize : toSize ix < size.toNat) : (checkFrom utf size ix).2 = true ↔
      ∃ step, (checkSequence utf ix).2 = some step ∧ (checkFrom utf size (ix + step)).2 = true := by
  rw [checkFrom, if_neg hzero, dif_pos hsize]
  split
  next hnone =>
    rw [hnone]
    exact iff_of_false nofun nofun
  next step hsome =>
    rw [hsome]
    constructor
    · exact fun h => ⟨step, rfl, h⟩
    · rintro ⟨_, heq, h⟩
      cases heq
      exact h

theorem checkFrom_end {ix : Int32} (hsize : ¬ toSize ix < size.toNat) :
    (checkFrom utf size ix).2 = true := by
  rw [checkFrom, dif_neg hsize]
  split <;> rfl

theorem checkFrom_nul {ix : Int32} (hzero : utf ix.toInt = 0) :
    (checkFrom utf size ix).2 = true := by
  rw [checkFrom, if_pos hzero]

theorem accepts_sequence_iff (hk : k < limit size) (hzero : seen utf k ≠ 0)
    (hn : TakenFor (seen utf k) n) :
    Accepts utf size k ↔ TailsBehind utf k n ∧ Accepts utf size (k + 1 + n) := by
  constructor
  · intro h
    cases h with
    | stop hstop => exact (hstop.elim (not_le.mpr hk) hzero).elim
    | sequence _ _ hm htails hrest =>
      cases hm.unique hn
      exact ⟨htails, hrest⟩
  · exact fun h => .sequence hk hzero hn h.1 h.2

theorem not_accepts (hk : k < limit size) (hzero : seen utf k ≠ 0)
    (hnot : ∀ n, ¬ TakenFor (seen utf k) n) : ¬ Accepts utf size k := by
  intro h
  cases h with
  | stop hstop => exact hstop.elim (not_le.mpr hk) hzero
  | sequence _ _ hn => exact hnot _ hn

/-- A sequence can go three bytes beyond the end. -/
theorem accepts_iff (hk : k ≤ limit size + 3) :
    (checkFrom utf size (Int32.ofNat k)).2 = true ↔ Accepts utf size k := by
  induction hleft : limit size + 3 - k using Nat.strong_induction_on generalizing k with
  | _ left ih =>
  have hle : limit size ≤ 2 ^ 31 := min_le_right _ _
  have hgoesOn : toSize (Int32.ofNat k) < size.toNat ↔ k < limit size := by
    rw [toSize_lt_iff]
    exact within_ofNat_iff (by omega)
  rcases Nat.lt_or_ge k (limit size) with hlt | hge
  · by_cases hzero : seen utf k = 0
    · exact iff_of_true (checkFrom_nul hzero) (.stop (.inr hzero))
    · rw [checkFrom_result_iff hzero (hgoesOn.mpr hlt)]
      constructor
      · rintro ⟨step, hstep, hrest⟩
        obtain ⟨n, hn, htails, rfl⟩ := checkSequence_eq_some_iff.mp hstep
        have hthree := hn.le
        rw [ofNat_add, ← Nat.add_assoc] at hrest
        exact .sequence hlt hzero hn htails ((ih _ (by omega) (by omega) rfl).mp hrest)
      · intro h
        cases h with
        | stop hstop => exact (hstop.elim (not_le.mpr hlt) hzero).elim
        | sequence _ _ hn htails hrest =>
          have hthree := hn.le
          refine ⟨_, checkSequence_eq_some_iff.mpr ⟨_, hn, htails, rfl⟩, ?_⟩
          rw [ofNat_add, ← Nat.add_assoc]
          exact (ih _ (by omega) (by omega) rfl).mpr hrest
  · exact iff_of_true (checkFrom_end (hgoesOn.not.mpr (not_lt.mpr hge))) (.stop (.inl hge))

/-! ### Well-formed texts -/

/-- The bytes from `utf[k]` on, up to the first NUL, or up to the size. -/
def range (utf : ℤ → UInt8) (size : UInt32) (k : ℕ) : List UInt8 :=
  (bytes utf k (size.toNat - k)).takeWhile (· ≠ 0)

theorem range_zero (hzero : utf k = 0) : range utf size k = [] := by
  rw [range]
  cases size.toNat - k with
  | zero => rfl
  | succ n =>
    rw [bytes_succ, hzero]
    rfl

theorem range_cons (hk : k < size.toNat) (hzero : utf k ≠ 0) :
    range utf size k = utf k :: range utf size (k + 1) := by
  have hleft : size.toNat - k = size.toNat - (k + 1) + 1 := by omega
  rw [range, hleft, bytes_succ, List.takeWhile_cons_of_pos (by simpa using hzero)]
  rfl

theorem isTail_ne_zero {c : UInt8} (h : IsTail c) : c ≠ 0 := by
  rintro rfl
  exact absurd h (by decide)

/-- A word of the text that ends before the size. -/
theorem owes_range_iff (hk : k + n ≤ size.toNat) : Owes Utf8.code n (range utf size k) ↔
    (∀ i < n, IsTail (utf (k + i : ℕ))) ∧ Utf8.WellFormed (range utf size (k + n)) := by
  induction n generalizing k with
  | zero =>
    rw [LeadCode.owes_zero]
    exact (and_iff_right fun i hi => absurd hi (Nat.not_lt_zero i)).symm
  | succ n ih =>
    have hfirst : (∀ i < n + 1, IsTail (utf (k + i : ℕ))) ↔
        IsTail (utf k) ∧ ∀ i < n, IsTail (utf (k + 1 + i : ℕ)) := by
      rw [Nat.forall_lt_succ_left]
      simp only [Nat.add_zero, Nat.add_assoc, Nat.add_comm 1]
    by_cases hzero : utf k = 0
    · rw [range_zero hzero, hfirst, hzero]
      exact iff_of_false LeadCode.not_owes_nil fun h => isTail_ne_zero h.1.1 rfl
    · rw [range_cons (by omega) hzero, LeadCode.owes_succ_cons, ih (by omega), hfirst, and_assoc,
        (by omega : k + 1 + n = k + (n + 1))]
      rfl

end

/-! ### Where the check is wrong -/

/-- From `utf[k]` on, after sequences that are whole: two continuation bytes, in a text that is
split without an error; a sequence that the size or the reach of an `int` cuts off, where the bytes
that are found for the rest of it do not tell what the text is; and a text that is wrong beyond
the reach of an `int`. -/
inductive Misread (utf : ℤ → UInt8) (size : UInt32) : ℕ → Prop
  | whole {k n : ℕ} : utf k ≠ 0 → Utf8.Leads (utf k) n → k + 1 + n ≤ limit size →
      (∀ i < n, IsTail (utf (k + 1 + i : ℕ))) → Misread utf size (k + 1 + n) → Misread utf size k
  | stray {k : ℕ} : k < limit size → IsTail (utf k) → TailsBehind utf k 1 →
      Accepts utf size (k + 2) → Misread utf size k
  | behind {k n : ℕ} : k < limit size → utf k ≠ 0 → Utf8.Leads (utf k) n →
      limit size < k + 1 + n → TailsBehind utf k n → ¬ Utf8.WellFormed (range utf size k) →
      Misread utf size k
  | missed {k n : ℕ} : k < limit size → utf k ≠ 0 → Utf8.Leads (utf k) n →
      limit size < k + 1 + n → ¬ TailsBehind utf k n → Utf8.WellFormed (range utf size k) →
      Misread utf size k
  | unseen {k : ℕ} : k = limit size → ¬ Utf8.WellFormed (range utf size k) → Misread utf size k

section

variable {utf : ℤ → UInt8} {size : UInt32} {k n : ℕ}

theorem limit_le (size : UInt32) : limit size ≤ size.toNat := min_le_left _ _

theorem seen_eq (hk : k < limit size) : seen utf k = utf k := by
  rw [seen, (before hk).index]

theorem tailsBehind_iff (hk : k + 1 + n ≤ limit size) :
    TailsBehind utf k n ↔ ∀ i < n, IsTail (utf (k + 1 + i : ℕ)) := by
  refine forall_congr' fun i => imp_congr_right fun hi => ?_
  rw [seen_eq (by omega : k + 1 + i < limit size)]

theorem wellFormed_range_iff (hk : k + 1 + n ≤ size.toNat) (hzero : utf k ≠ 0)
    (hlead : Utf8.Leads (utf k) n) : Utf8.WellFormed (range utf size k) ↔
      (∀ i < n, IsTail (utf (k + 1 + i : ℕ))) ∧
        Utf8.WellFormed (range utf size (k + 1 + n)) := by
  rw [range_cons (by omega) hzero, ← owes_range_iff hk]
  exact LeadCode.wellFormed_cons_iff hlead

theorem not_wellFormed_range (hk : k < size.toNat) (hzero : utf k ≠ 0)
    (hnot : ∀ n, ¬ Utf8.Leads (utf k) n) : ¬ Utf8.WellFormed (range utf size k) := by
  rw [range_cons hk hzero]
  exact LeadCode.not_wellFormed_of_not_lead hnot

theorem not_misread_nul (hk : k < limit size) (hzero : utf k = 0) : ¬ Misread utf size k := by
  intro h
  cases h with
  | whole hne => exact hne hzero
  | stray _ htail => exact isTail_ne_zero htail hzero
  | behind _ hne => exact hne hzero
  | missed _ hne => exact hne hzero
  | unseen hend => exact hk.ne hend

theorem misread_end_iff (hk : k = limit size) :
    Misread utf size k ↔ ¬ Utf8.WellFormed (range utf size k) := by
  refine ⟨fun h => ?_, .unseen hk⟩
  cases h with
  | whole _ _ hle => omega
  | stray hlt => omega
  | behind hlt => omega
  | missed hlt => omega
  | unseen _ hnot => exact hnot

theorem misread_whole_iff (hle : k + 1 + n ≤ limit size) (hzero : utf k ≠ 0)
    (hlead : Utf8.Leads (utf k) n) : Misread utf size k ↔
      (∀ i < n, IsTail (utf (k + 1 + i : ℕ))) ∧ Misread utf size (k + 1 + n) := by
  refine ⟨fun h => ?_, fun h => .whole hzero hlead hle h.1 h.2⟩
  cases h with
  | whole _ hlead' _ htails hrest =>
    cases hlead'.unique hlead
    exact ⟨htails, hrest⟩
  | stray _ htail => exact absurd htail hlead.not_isTail
  | behind _ _ hlead' hpast =>
    cases hlead'.unique hlead
    omega
  | missed _ _ hlead' hpast =>
    cases hlead'.unique hlead
    omega
  | unseen hend => omega

theorem misread_cut_iff (hk : k < limit size) (hzero : utf k ≠ 0)
    (hlead : Utf8.Leads (utf k) n) (hpast : limit size < k + 1 + n) : Misread utf size k ↔
      ¬ (TailsBehind utf k n ↔ Utf8.WellFormed (range utf size k)) := by
  constructor
  · intro h
    cases h with
    | whole _ hlead' hle =>
      cases hlead'.unique hlead
      omega
    | stray _ htail => exact absurd htail hlead.not_isTail
    | behind _ _ hlead' _ htails hnot =>
      cases hlead'.unique hlead
      exact fun hiff => hnot (hiff.mp htails)
    | missed _ _ hlead' _ hnot hwell =>
      cases hlead'.unique hlead
      exact fun hiff => hnot (hiff.mpr hwell)
    | unseen hend => omega
  · intro hiff
    by_cases htails : TailsBehind utf k n
    · exact .behind hk hzero hlead hpast htails fun hwell => hiff (iff_of_true htails hwell)
    · have hwell : Utf8.WellFormed (range utf size k) :=
        not_not.mp fun hnot => hiff (iff_of_false htails hnot)
      exact .missed hk hzero hlead hpast htails hwell

theorem misread_stray_iff (hk : k < limit size) (hnot : ∀ n, ¬ Utf8.Leads (utf k) n) :
    Misread utf size k ↔ IsTail (utf k) ∧ TailsBehind utf k 1 ∧ Accepts utf size (k + 2) := by
  refine ⟨fun h => ?_, fun h => .stray hk h.1 h.2.1 h.2.2⟩
  cases h with
  | whole _ hlead => exact absurd hlead (hnot _)
  | stray _ htail hone hrest => exact ⟨htail, hone, hrest⟩
  | behind _ _ hlead => exact absurd hlead (hnot _)
  | missed _ _ hlead => exact absurd hlead (hnot _)
  | unseen hend => exact absurd hend hk.ne

/-- From `utf[k]` on, the check is right unless the text is misread. -/
def Agrees (utf : ℤ → UInt8) (size : UInt32) (k : ℕ) : Prop :=
  (Accepts utf size k ↔ Utf8.WellFormed (range utf size k)) ↔ ¬ Misread utf size k

theorem agrees_lead (hk : k < limit size) (hzero : utf k ≠ 0) (hlead : Utf8.Leads (utf k) n)
    (ih : k + 1 + n ≤ limit size → Agrees utf size (k + 1 + n)) : Agrees utf size k := by
  have hle := limit_le size
  have hseen : seen utf k = utf k := seen_eq hk
  have hzero' : seen utf k ≠ 0 := by rwa [hseen]
  have htaken : TakenFor (seen utf k) n := by
    rw [hseen]
    exact .inl hlead
  rw [Agrees, accepts_sequence_iff hk hzero' htaken]
  rcases Nat.lt_or_ge (limit size) (k + 1 + n) with hpast | hin
  · have hrest : Accepts utf size (k + 1 + n) := .stop (.inl hpast.le)
    rw [misread_cut_iff hk hzero hlead hpast, and_iff_left hrest, not_not]
  · have hagrees := ih hin
    rw [Agrees] at hagrees
    rw [misread_whole_iff hin hzero hlead, wellFormed_range_iff (by omega) hzero hlead,
      tailsBehind_iff hin]
    by_cases htails : ∀ i < n, IsTail (utf (k + 1 + i : ℕ))
    · rw [and_iff_right htails, and_iff_right htails, and_iff_right htails]
      exact hagrees
    · exact iff_of_true (iff_of_false (fun h => htails h.1) fun h => htails h.1)
        fun h => htails h.1

theorem agrees_other (hk : k < limit size) (hzero : utf k ≠ 0)
    (hnot : ∀ n, ¬ Utf8.Leads (utf k) n) : Agrees utf size k := by
  have hseen : seen utf k = utf k := seen_eq hk
  have hzero' : seen utf k ≠ 0 := by rwa [hseen]
  have hwrong := not_wellFormed_range (hk.trans_le (limit_le size)) hzero hnot
  rw [Agrees, misread_stray_iff hk hnot, iff_false_right hwrong, not_iff_not]
  by_cases htail : IsTail (utf k)
  · rw [accepts_sequence_iff hk hzero' (by rw [hseen]; exact .inr ⟨htail, rfl⟩),
      and_iff_right htail]
  · have hnone : ¬ Accepts utf size k := by
      refine not_accepts hk hzero' fun n hn => ?_
      rw [hseen] at hn
      exact hn.elim (hnot n) fun h => htail h.1
    exact iff_of_false hnone fun h => htail h.1

/-- From the end of the text to its beginning. -/
theorem agrees (hk : k ≤ limit size) : Agrees utf size k := by
  induction hn : limit size - k using Nat.strong_induction_on generalizing k with
  | _ n ih =>
  rcases Nat.lt_or_eq_of_le hk with hlt | hend
  · by_cases hzero : utf k = 0
    · have hstop : Accepts utf size k := .stop (.inr ((seen_eq hlt).trans hzero))
      have hwell : Utf8.WellFormed (range utf size k) := by
        rw [range_zero hzero]
        exact LeadCode.wellFormed_nil
      exact iff_of_true (iff_of_true hstop hwell) (not_misread_nul hlt hzero)
    · by_cases hlead : ∃ n, Utf8.Leads (utf k) n
      · obtain ⟨m, hlead⟩ := hlead
        exact agrees_lead hlt hzero hlead fun hle => ih _ (by omega) hle rfl
      · exact agrees_other hlt hzero (not_exists.mp hlead)
  · have hstop : Accepts utf size k := .stop (.inl hend.ge)
    rw [Agrees, misread_end_iff hend, not_not, iff_true_left hstop]

end

theorem lorieCheckUTF8_iff (utf : ℤ → UInt8) (size : UInt32) :
    (lorieCheckUTF8 utf size).2 = true ↔ Accepts utf size 0 :=
  accepts_iff (Nat.zero_le _)

/-- The check accepts the well-formed texts, and no others, if and only if it does not misread
the text. -/
theorem lorieCheckUTF8_agrees_iff (utf : ℤ → UInt8) (size : UInt32) :
    ((lorieCheckUTF8 utf size).2 = true ↔ Utf8.WellFormed (range utf size 0)) ↔
      ¬ Misread utf size 0 := by
  rw [lorieCheckUTF8_iff]
  exact agrees (Nat.zero_le _)

theorem length_range_le (utf : ℤ → UInt8) (size : UInt32) (k : ℕ) :
    (range utf size k).length ≤ size.toNat - k := by
  have hle : (range utf size k).length ≤ (bytes utf k (size.toNat - k)).length :=
    (List.takeWhile_prefix _).length_le
  simpa [bytes] using hle

/-- A text that an `int` counts, and that is misread, is not well formed. -/
theorem Misread.not_wellFormed {utf : ℤ → UInt8} {size : UInt32} {k : ℕ}
    (h : Misread utf size k) (hsize : size.toNat ≤ 2 ^ 31) :
    ¬ Utf8.WellFormed (range utf size k) := by
  have hlimit : limit size = size.toNat := min_eq_left hsize
  induction h with
  | whole hzero hlead hle _ _ ih =>
    rw [hlimit] at hle
    rw [wellFormed_range_iff hle hzero hlead]
    exact fun hwell => ih hwell.2
  | stray hlt htail =>
    rw [hlimit] at hlt
    rw [range_cons hlt (isTail_ne_zero htail)]
    exact LeadCode.not_wellFormed_of_tail htail
  | behind _ _ _ _ _ hnot => exact hnot
  | @missed k n hlt hzero hlead hpast =>
    -- the sequence has no place before the size
    rw [hlimit] at hlt hpast
    rw [range_cons hlt hzero]
    intro hwell
    have hlength := ((LeadCode.wellFormed_cons_iff hlead).mp hwell).le_length
    have hle := length_range_le utf size (k + 1)
    omega
  | unseen _ hnot => exact hnot

theorem lorieCheckUTF8_of_wellFormed {utf : ℤ → UInt8} {size : UInt32}
    (hsize : size.toNat ≤ 2 ^ 31) (h : Utf8.WellFormed (range utf size 0)) :
    (lorieCheckUTF8 utf size).2 = true := by
  have hagrees : Agrees utf size 0 := agrees (Nat.zero_le _)
  rw [lorieCheckUTF8_iff]
  exact (hagrees.mpr fun hmisread => hmisread.not_wellFormed hsize h).mpr h

/-- Two continuation bytes are accepted. -/
theorem twoTails_accepted : (lorieCheckUTF8 (fun _ => 0x80) 2).2 = true ∧
    ¬ Utf8.WellFormed (range (fun _ => 0x80) 2 0) := by
  constructor
  · have hend : (checkFrom (fun _ => 0x80) 2 2).2 = true := checkFrom_end (by decide)
    rw [lorieCheckUTF8, checkFrom_result_iff (by decide) (by decide)]
    exact ⟨2, by decide, hend⟩
  · rw [range_cons (by decide) (by decide)]
    exact LeadCode.not_wellFormed_of_tail (by decide : IsTail 0x80)

end Lorie.Text
