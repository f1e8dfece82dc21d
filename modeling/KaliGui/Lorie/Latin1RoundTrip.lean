/-
Latin-1 that comes back (`clipboard.c`).

What is written for a Latin-1 string passes the check and is decoded to the string again as long
as it can be counted.  The index of the check is an `int`, and the second loop of
`lorieUtf8ToLatin1` begins with 4294967295 where the first one begins with `(size_t) -1`.

* `Held`, `memory` — a text in memory;
* `Counted` — the strings that the loops get by with;
* `accepts_encoded_iff` — the check, at the last index of an `int`;
* `decodeAll_short` — a loop that ends before the text does;
* `latin1_roundTrip_iff` — when Latin-1 comes back, and when a text comes out whole.
-/
import KaliGui.Lorie.Latin1

namespace Lorie.Text

open LeadCode (Splits)
open Utf8 (IsTail)

/-! ### Memory -/

/-- A text in memory, with a NUL behind it. -/
structure Held (text : List UInt8) where
  data : ℤ → UInt8
  held : bytes data 0 text.length = text
  ended : data text.length = 0

/-- A text in memory, and NULs everywhere else. -/
def memory (text : List UInt8) : Held text where
  data i := if 0 ≤ i then text.getD i.toNat 0 else 0
  held := by
    refine List.ext_getElem (by simp [bytes]) fun i _ hi => ?_
    simp [bytes, hi]
  ended := by simp

theorem memory_before (text : List UInt8) {i : ℤ} (hi : i < 0) : (memory text).data i = 0 :=
  if_neg (Int.not_le.mpr hi)

namespace Held

variable {text : List UInt8} (m : Held text)

theorem textFrom_zero : textFrom m.data text.length 0 = text := m.held

theorem toNat_length (h : text.length < 2 ^ 32) :
    (UInt32.ofNat text.length).toNat = text.length := by
  rw [UInt32.toNat_ofNat', Nat.mod_eq_of_lt h]

/-- A text that is short enough for the event. -/
def clipboard (h : text.length < 2 ^ 32) : ClipboardData where
  data := m.data
  count := UInt32.ofNat text.length
  ended := by
    rw [toNat_length h]
    exact m.ended

theorem data_ne_zero (htext : ∀ b ∈ text, b ≠ 0) {i : ℕ} (hi : i < text.length) :
    m.data i ≠ 0 := by
  have hmem : m.data i ∈ bytes m.data 0 text.length :=
    List.mem_map.mpr ⟨i, List.mem_range'_1.mpr ⟨Nat.zero_le _, by omega⟩, rfl⟩
  rw [m.held] at hmem
  exact htext _ hmem

theorem strlen_clipboard (h : text.length < 2 ^ 32) (htext : ∀ b ∈ text, b ≠ 0) :
    (m.clipboard h).strlen = text.length := by
  rcases Nat.lt_trichotomy (m.clipboard h).strlen text.length with hlt | heq | hgt
  · exact absurd (m.clipboard h).data_strlen (m.data_ne_zero htext hlt)
  · exact heq
  · exact absurd m.ended ((m.clipboard h).data_ne_zero hgt)

theorem text_clipboard (h : text.length < 2 ^ 32) (htext : ∀ b ∈ text, b ≠ 0) :
    (m.clipboard h).text = text := by
  rw [ClipboardData.text, m.strlen_clipboard h htext]
  exact m.held

end Held

/-! ### What the loops count -/

/-- Bytes from 0x80 on take two. -/
def sizeInUtf8 (s : List UInt8) : ℕ := s.length + s.countP (0x80 ≤ ·)

/-- For a string from index `k` on: two bytes, the first of them at the last index of an `int`,
where the byte at the next index that the check gets does not go on with it. -/
def Straddles (utf : ℤ → UInt8) (k : ℕ) (s : List UInt8) : Prop :=
  ∃ front c rest, s = front ++ c :: rest ∧ 0x80 ≤ c ∧ k + sizeInUtf8 front + 1 = 2 ^ 31 ∧
    ¬ IsTail (utf (-2 ^ 31))

/-- The check and the second loop of the conversion get by with the string. -/
def Counted (utf : ℤ → UInt8) (s : List UInt8) : Prop :=
  sizeInUtf8 s < 2 ^ 32 ∧ ¬ Straddles utf 0 s

theorem two_bytes_iff (c : UInt8) : 0x80 ≤ c ↔ (utf8Of c).2.length = 1 :=
  Utf8.forall_byte (P := fun c => 0x80 ≤ c ↔ (utf8Of c).2.length = 1) (by decide +kernel) c

theorem sizeInUtf8_append (s s' : List UInt8) :
    sizeInUtf8 (s ++ s') = sizeInUtf8 s + sizeInUtf8 s' := by
  rw [sizeInUtf8, sizeInUtf8, sizeInUtf8, List.length_append, List.countP_append]
  omega

theorem sizeInUtf8_cons (c : UInt8) (s : List UInt8) :
    sizeInUtf8 (c :: s) = (utf8Of c).2.length + 1 + sizeInUtf8 s := by
  have hone := length_utf8Of_le c
  have htwo := two_bytes_iff c
  rw [sizeInUtf8, sizeInUtf8, List.length_cons, List.countP_cons]
  by_cases hc : 0x80 ≤ c
  · rw [if_pos (decide_eq_true hc), htwo.mp hc]
    omega
  · rw [if_neg fun h => hc (of_decide_eq_true h)]
    have hnone : (utf8Of c).2.length ≠ 1 := fun h => hc (htwo.mpr h)
    omega

theorem length_encoded (s : List UInt8) : (encoded s).length = sizeInUtf8 s := by
  induction s with
  | nil => rfl
  | cons c s ih => rw [length_encoded_cons, sizeInUtf8_cons, ih]

section

variable {utf : ℤ → UInt8} {size : UInt32} {nul k n : ℕ}

theorem straddles_cons {c : UInt8} {s : List UInt8} : Straddles utf k (c :: s) ↔
    (0x80 ≤ c ∧ k + 1 = 2 ^ 31 ∧ ¬ IsTail (utf (-2 ^ 31))) ∨
      Straddles utf (k + 1 + (utf8Of c).2.length) s := by
  constructor
  · rintro ⟨front, d, rest, heq, hd, hindex, htail⟩
    cases front with
    | nil =>
      obtain ⟨rfl, -⟩ := List.cons.inj heq
      exact .inl ⟨hd, hindex, htail⟩
    | cons e front =>
      obtain ⟨rfl, hrest⟩ := List.cons.inj heq
      rw [sizeInUtf8_cons] at hindex
      exact .inr ⟨front, d, rest, hrest, hd, by omega, htail⟩
  · rintro (⟨hc, hindex, htail⟩ | ⟨front, d, rest, rfl, hd, hindex, htail⟩)
    · exact ⟨[], c, s, rfl, hc, hindex, htail⟩
    · refine ⟨c :: front, d, rest, rfl, hd, ?_, htail⟩
      rw [sizeInUtf8_cons]
      omega

theorem Straddles.lt_size {s : List UInt8} (h : Straddles utf k s) :
    2 ^ 31 < k + sizeInUtf8 s := by
  obtain ⟨front, c, rest, rfl, hc, hindex, -⟩ := h
  rw [sizeInUtf8_append, sizeInUtf8_cons, (two_bytes_iff c).mp hc]
  omega

theorem counted_of_le {s : List UInt8} (h : sizeInUtf8 s ≤ 2 ^ 31) : Counted utf s := by
  refine ⟨by omega, fun hstraddles => ?_⟩
  have hlt := hstraddles.lt_size
  omega

theorem seen_wrapped (utf : ℤ → UInt8) : seen utf (2 ^ 31) = utf (-2 ^ 31) := by
  rw [seen, Int32.toInt_ofNat', Int.bmod_def]
  congr 1

theorem tailsBehind_last (hk : k + 1 = 2 ^ 31) :
    TailsBehind utf k 1 ↔ IsTail (utf (-2 ^ 31)) := by
  rw [tailsBehind_succ, and_iff_right tailsBehind_zero, Nat.add_zero, hk, seen_wrapped]

theorem isTail_of_bytes {tails : List UInt8} (h : bytes utf k tails.length = tails)
    (htails : ∀ t ∈ tails, IsTail t) : ∀ i < tails.length, IsTail (utf (k + i : ℕ)) := by
  intro i hi
  refine htails _ ?_
  rw [← h]
  exact List.mem_map.mpr ⟨k + i, List.mem_range'_1.mpr ⟨by omega, by omega⟩, rfl⟩

/-- The continuation byte of what is written for `c`, if there is one, is missed at the last index
of an `int` only: there it is looked for at the lowest index. -/
theorem tailsBehind_utf8Of {c : UInt8} (hlt : k < 2 ^ 31)
    (hsize : k + 1 + (utf8Of c).2.length ≤ size.toNat)
    (htails : bytes utf (k + 1) (utf8Of c).2.length = (utf8Of c).2) :
    TailsBehind utf k (utf8Of c).2.length ↔
      ¬ (0x80 ≤ c ∧ k + 1 = 2 ^ 31 ∧ ¬ IsTail (utf (-2 ^ 31))) := by
  have hone := length_utf8Of_le c
  have htwo := two_bytes_iff c
  rcases Nat.lt_or_ge (2 ^ 31) (k + 1 + (utf8Of c).2.length) with hpast | hin
  · have hlength : (utf8Of c).2.length = 1 := by omega
    have hindex : k + 1 = 2 ^ 31 := by omega
    rw [hlength, tailsBehind_last hindex, and_iff_right (htwo.mpr hlength),
      and_iff_right hindex, not_not]
  · have hin' : k + 1 + (utf8Of c).2.length ≤ limit size := le_min hsize hin
    refine iff_of_true ((tailsBehind_iff hin').mpr ?_) ?_
    · exact isTail_of_bytes htails (isTail_utf8Of c)
    · rintro ⟨hc, hindex, -⟩
      have hlength := htwo.mp hc
      omega

/-- The check of what is written for a string, from one of its sequences on. -/
theorem accepts_encoded_iff {s : List UInt8} (hs : ∀ c ∈ s, c ≠ 0)
    (hheld : bytes utf k (encoded s).length = encoded s)
    (hsize : size.toNat = k + (encoded s).length) :
    Accepts utf size k ↔ ¬ Straddles utf k s := by
  induction s generalizing k with
  | nil =>
    have hend : size.toNat = k := hsize
    have hle := limit_le size
    refine iff_of_true (.stop (.inl (by omega))) ?_
    rintro ⟨front, c, rest, heq, -⟩
    exact absurd heq (List.append_ne_nil_of_right_ne_nil _ (List.cons_ne_nil _ _)).symm
  | cons c s ih =>
    have hle : limit size ≤ 2 ^ 31 := min_le_right _ _
    rcases Nat.lt_or_ge k (2 ^ 31) with hlt | hbeyond
    swap
    · refine iff_of_true (.stop (.inl (by omega))) ?_
      rintro ⟨front, d, rest, -, -, hindex, -⟩
      omega
    rw [length_encoded_cons] at hheld hsize
    rw [bytes_append, encoded_cons] at hheld
    obtain ⟨hword, hrest⟩ := List.append_inj hheld (by simp [bytes])
    rw [bytes_succ] at hword
    obtain ⟨hfirst, htails⟩ := List.cons.inj hword
    have hlimit : k < limit size := lt_min (by omega) hlt
    have hseen : seen utf k = (utf8Of c).1 := (seen_eq hlimit).trans hfirst
    have hzero : seen utf k ≠ 0 := by
      rw [hseen]
      exact utf8Of_ne_zero (hs c List.mem_cons_self)
    have htaken : TakenFor (seen utf k) (utf8Of c).2.length := by
      rw [hseen]
      exact .inl (leads_utf8Of c)
    rw [Nat.add_comm _ 1, ← Nat.add_assoc] at hrest
    rw [accepts_sequence_iff hlimit hzero htaken,
      ih (fun d hd => hs d (List.mem_cons_of_mem _ hd)) hrest (by omega), straddles_cons, not_or,
      tailsBehind_utf8Of hlt (by omega : k + 1 + (utf8Of c).2.length ≤ size.toNat) htails]

/-! ### A loop that ends too early -/

/-- A sequence of which only the first byte is left. -/
theorem lorieUtf8ToUCS4_cut {src : ℕ} (hlead : Utf8.Leads (utf src) (n + 1)) :
    (lorieUtf8ToUCS4 utf src 1).dst = 0xfffd := by
  rw [lorieUtf8ToUCS4, if_neg Nat.one_ne_zero, lead_eq_some hlead]
  dsimp only
  rw [takeTails, if_pos rfl]

/-- At a byte of which only the first one is left, a loop goes on with a question mark. -/
theorem decodeAll_cut {c : UInt8} {src : ℕ} (hc : c ≠ 0) (htwo : (utf8Of c).2.length = 1)
    (hfirst : utf src = (utf8Of c).1) (turns : ℕ) :
    ∃ rest, (decodeAll utf (turns + 1) src 1).ucs.map toLatin1 = 0x3f :: rest := by
  have hlead : Utf8.Leads (utf src) (0 + 1) := by
    rw [hfirst, Nat.zero_add, ← htwo]
    exact leads_utf8Of c
  have hzero : utf src ≠ 0 := by
    rw [hfirst]
    exact utf8Of_ne_zero hc
  rw [decodeAll_symbol Nat.one_ne_zero hzero]
  dsimp only
  rw [lorieUtf8ToUCS4_cut hlead]
  exact ⟨_, rfl⟩

/-- A byte of which all is left comes back. -/
theorem decodeAll_byte {c : UInt8} {src inLen : ℕ} (hc : c ≠ 0)
    (hword : bytes utf src ((utf8Of c).2.length + 1) = (utf8Of c).1 :: (utf8Of c).2)
    (hfits : (utf8Of c).2.length + 1 ≤ inLen) (hsize : inLen < 2 ^ 64) (turns : ℕ) :
    (decodeAll utf (turns + 1) src inLen).ucs.map toLatin1 =
      c :: (decodeAll utf turns (src + ((utf8Of c).2.length + 1))
        (inLen - ((utf8Of c).2.length + 1))).ucs.map toLatin1 := by
  obtain ⟨-, hmap⟩ := decodeAll_word turns (leads_utf8Of c) (isTail_utf8Of c)
    (utf8Of_ne_zero hc) hword hfits hsize
  have hbyte : latin1Byte (Utf8.codePoint ((utf8Of c).1, (utf8Of c).2)) = c :=
    (congrArg latin1Byte (codePoint_utf8Of c)).trans (latin1Byte_toNat c)
  rw [hmap, hbyte]

/-- It returns what is before its end, or a question mark for the byte there. -/
theorem decodeAll_short {s : List UInt8} (hs : ∀ c ∈ s, c ≠ 0) {src inLen : ℕ}
    (hheld : textFrom utf nul src = encoded s) (hlen : inLen < (encoded s).length)
    (hsize : inLen < 2 ^ 64) (turns : ℕ) :
    ((decodeAll utf turns src inLen).ucs.map toLatin1).takeWhile (· ≠ 0) ≠ s := by
  induction s generalizing src inLen turns with
  | nil => exact absurd hlen (Nat.not_lt_zero _)
  | cons c s ih =>
    have hc : c ≠ 0 := hs c List.mem_cons_self
    have hone := length_utf8Of_le c
    rw [encoded_cons] at hheld
    rw [length_encoded_cons] at hlen
    obtain ⟨-, hword, hrest⟩ := textFrom_word hheld (Nat.succ_pos _)
    rw [List.length_cons] at hword hrest
    cases turns with
    | zero => exact (List.cons_ne_nil c s).symm
    | succ turns =>
      rcases Nat.lt_or_ge inLen ((utf8Of c).2.length + 1) with hcut | hfits
      · rcases Nat.eq_zero_or_pos inLen with rfl | hpos
        · rw [decodeAll, if_pos rfl]
          exact (List.cons_ne_nil c s).symm
        · -- one byte is left, of two
          obtain rfl : inLen = 1 := by omega
          have htwo : (utf8Of c).2.length = 1 := by omega
          rw [bytes_succ] at hword
          obtain ⟨rest, hmap⟩ := decodeAll_cut hc htwo (List.cons.inj hword).1 turns
          rw [hmap, List.takeWhile_cons_of_pos (by decide)]
          intro heq
          obtain ⟨rfl, -⟩ := List.cons.inj heq
          exact absurd htwo (by decide)
      · rw [decodeAll_byte hc hword hfits hsize,
          List.takeWhile_cons_of_pos (by exact decide_eq_true hc)]
        intro heq
        exact ih (fun d hd => hs d (List.mem_cons_of_mem _ hd)) hrest (by omega) (by omega) turns
          (List.cons.inj heq).2

end

/-! ### Latin-1 strings -/

theorem Latin1.ne_zero (s : Latin1) : ∀ c ∈ s.bytes, c ≠ 0 := fun c hc => (s.legal c hc).1

section

variable (s : Latin1) (m : Held (latin1Selection s.bytes))

theorem latin1Selection_ne_zero : ∀ b ∈ latin1Selection s.bytes, b ≠ 0 := by
  rw [latin1Selection_eq]
  exact encoded_ne_zero s.ne_zero

theorem length_latin1Selection : (latin1Selection s.bytes).length = sizeInUtf8 s.bytes := by
  rw [latin1Selection_eq, length_encoded]

theorem lorieCheckUTF8_latin1_iff (hsize : (latin1Selection s.bytes).length < 2 ^ 32) :
    (lorieCheckUTF8 m.data (UInt32.ofNat (latin1Selection s.bytes).length)).2 = true ↔
      ¬ Straddles m.data 0 s.bytes := by
  have hlength := Held.toNat_length hsize
  have hheld := m.held
  rw [lorieCheckUTF8_iff]
  generalize m.data = utf at hheld ⊢
  rw [latin1Selection_eq] at hheld hlength ⊢
  exact accepts_encoded_iff s.ne_zero hheld (hlength.trans (Nat.zero_add _).symm)

/-- A string that the second loop counts. -/
theorem returns_latin1 (hsize : (latin1Selection s.bytes).length < 2 ^ 32) :
    Returns m.data s.bytes := by
  have hsplits := splits_encoded s.bytes
  rw [← latin1Selection_eq, ← m.text_clipboard hsize (latin1Selection_ne_zero s)] at hsplits
  have hreturns := lorieUtf8ToLatin1_words _ hsplits
  have hbytes : (s.bytes.map utf8Of).map (fun word => latin1Byte (Utf8.codePoint word)) =
      s.bytes := by
    rw [List.map_map]
    refine List.map_id'' (fun c => ?_) _
    rw [Function.comp_apply, codePoint_utf8Of, latin1Byte_toNat]
  have hall : s.bytes.takeWhile (· ≠ 0) = s.bytes :=
    List.takeWhile_eq_self_iff.mpr fun c hc => decide_eq_true (s.ne_zero c hc)
  rwa [hbytes, hall] at hreturns

theorem length_lt_of_returns (h : Returns m.data s.bytes) :
    (latin1Selection s.bytes).length < 2 ^ 32 := by
  obtain ⟨turns, hturns⟩ := h
  have hresult := hturns turns le_rfl
  by_contra hlarge
  have hheld := m.textFrom_zero
  generalize m.data = utf at hheld hresult
  rw [latin1Selection_eq] at hheld hlarge
  have hshort := decodeAll_short s.ne_zero hheld
    (by omega : 4294967295 < (encoded s.bytes).length) (by omega) turns
  rw [lorieUtf8ToLatin1] at hresult
  split at hresult
  · dsimp only at hresult
    split at hresult
    · exact hshort (Option.some_inj.mp hresult)
    · cases hresult
  · cases hresult

theorem latin1_counted_iff :
    ((latin1Selection s.bytes).length ≤ 2 * s.bytes.length ∧
      (lorieCheckUTF8 m.data (UInt32.ofNat (latin1Selection s.bytes).length)).2 = true ∧
      Returns m.data s.bytes) ↔ Counted m.data s.bytes := by
  rw [Counted, ← length_latin1Selection]
  constructor
  · rintro ⟨-, hcheck, hreturns⟩
    have hsize := length_lt_of_returns s m hreturns
    exact ⟨hsize, (lorieCheckUTF8_latin1_iff s m hsize).mp hcheck⟩
  · rintro ⟨hsize, hstraddles⟩
    refine ⟨?_, (lorieCheckUTF8_latin1_iff s m hsize).mpr hstraddles, returns_latin1 s m hsize⟩
    rw [latin1Selection_eq]
    exact length_encoded_le s.bytes

end

/-- A Latin-1 string takes at most two bytes each, passes the check and comes back if and only if
it is counted; a text that is well formed comes out with one byte for each code point if and only
if none of them is U+0000. -/
theorem latin1_roundTrip_iff (s : Latin1) (m : Held (latin1Selection s.bytes)) (t : ClipboardData)
    {words : List (UInt8 × List UInt8)} (hwords : Splits Utf8.code t.text words) :
    (((latin1Selection s.bytes).length ≤ 2 * s.bytes.length ∧
        (lorieCheckUTF8 m.data (UInt32.ofNat (latin1Selection s.bytes).length)).2 = true ∧
        Returns m.data s.bytes) ↔ Counted m.data s.bytes) ∧
      (Returns t.data (words.map fun word => latin1Byte (Utf8.codePoint word)) ↔
        ∀ word ∈ words, Utf8.codePoint word ≠ 0) :=
  ⟨latin1_counted_iff s m, returns_words_iff t hwords⟩

/-- An accent, and a text with a symbol that is not in Latin-1. -/
def accent : Latin1 := ⟨[0x63, 0xe9], by simp⟩

def euro : ClipboardData := (memory [0xc3, 0xa9, 0xe2, 0x82, 0xac]).clipboard (by decide)

theorem splits_euro :
    Splits Utf8.code euro.text [(0xc3, [0xa9]), (0xe2, [0x82, 0xac])] := by
  rw [euro, Held.text_clipboard _ _ (by simp)]
  exact Utf8.splits_words [(0xc3, [0xa9]), (0xe2, [0x82, 0xac])] (by decide +kernel)

/-- `c`, `é` comes back, and `é`, `€` is `é` and a question mark. -/
theorem accent_returns :
    (lorieCheckUTF8 (memory (latin1Selection accent.bytes)).data
        (UInt32.ofNat (latin1Selection accent.bytes).length)).2 = true ∧
      Returns (memory (latin1Selection accent.bytes)).data [0x63, 0xe9] ∧
      Returns euro.data [0xe9, 0x3f] := by
  obtain ⟨hlatin1, hwords⟩ :=
    latin1_roundTrip_iff accent (memory (latin1Selection accent.bytes)) euro splits_euro
  have hthree : sizeInUtf8 accent.bytes = 3 := by decide
  obtain ⟨-, hcheck, hreturns⟩ := hlatin1.mpr (counted_of_le (by omega))
  exact ⟨hcheck, hreturns, hwords.mpr (by decide)⟩

/-- Letters, and an accent behind them. -/
def letters (n : ℕ) : Latin1 where
  bytes := List.replicate n 0x61 ++ [0xe9]
  legal := by
    intro c hc
    rcases List.mem_append.mp hc with hletter | haccent
    · rw [List.eq_of_mem_replicate hletter]
      decide
    · rw [List.mem_singleton.mp haccent]
      decide

theorem sizeInUtf8_letters (n : ℕ) : sizeInUtf8 (List.replicate n 0x61) = n := by
  rw [sizeInUtf8, List.length_replicate, List.countP_replicate]
  rfl

theorem letters_refused {n : ℕ} (hn : n + 1 = 2 ^ 31) :
    ¬ (lorieCheckUTF8 (memory (latin1Selection (letters n).bytes)).data
      (UInt32.ofNat (latin1Selection (letters n).bytes).length)).2 = true := by
  have hletters := sizeInUtf8_letters n
  have hsize : (latin1Selection (letters n).bytes).length < 2 ^ 32 := by
    have haccent : sizeInUtf8 [0xe9] = 2 := by decide
    rw [length_latin1Selection, letters, sizeInUtf8_append]
    omega
  rw [lorieCheckUTF8_latin1_iff _ _ hsize, not_not]
  refine ⟨List.replicate n 0x61, 0xe9, [], rfl, by decide, by omega, ?_⟩
  rw [memory_before _ (by omega)]
  decide

/-- U+0000 in two bytes, between letters. -/
def longZero : ClipboardData := (memory [0x61, 0xc0, 0x80, 0x62]).clipboard (by decide)

theorem splits_longZero :
    Splits Utf8.code longZero.text [(0x61, []), (0xc0, [0x80]), (0x62, [])] := by
  rw [longZero, Held.text_clipboard _ _ (by simp)]
  exact Utf8.splits_words [(0x61, []), (0xc0, [0x80]), (0x62, [])] (by decide +kernel)

/-- A string of 2^31 letters, the last with an accent, does not pass the check, and a text that is
split into sequences is cut off at U+0000. -/
theorem latin1_lost :
    ¬ (lorieCheckUTF8 (memory (latin1Selection (letters (2 ^ 31 - 1)).bytes)).data
        (UInt32.ofNat (latin1Selection (letters (2 ^ 31 - 1)).bytes).length)).2 = true ∧
      Splits Utf8.code longZero.text [(0x61, []), (0xc0, [0x80]), (0x62, [])] ∧
      ¬ Returns longZero.data [0x61, 0x00, 0x62] := by
  refine ⟨letters_refused (by omega), splits_longZero, fun h => ?_⟩
  exact (returns_words_iff longZero splits_longZero).mp h (0xc0, [0x80]) (by decide) rfl

end Lorie.Text
