/-
Latin-1 on its way to the viewer, and texts of the viewer in Latin-1 (`clipboard.c`).

A property of type STRING is stripped of carriage returns and taken to UTF-8; a client that asks
for STRING gets the text of the viewer in Latin-1.  What is decoded is a C string again, so it
ends at the first U+0000 that a text encodes.

* `lorieConvertLF`, `lorieLatin1ToUTF8` — the code;
* `encoded` — what is written for a string, `latin1Selection_eq`;
* `decodeAll_words` — a loop over a well-formed text;
* `lorieUtf8ToLatin1_words` — such a text comes out with one byte for each code point.
-/
import Mathlib.Data.List.TakeWhile
import KaliGui.Lorie.AcceptedUtf8
import KaliGui.Lorie.Utf8ToLatin1

namespace Lorie.Text

open LeadCode (Splits)
open Utf8 (IsTail)

/-! ### To UTF-8 -/

def lorieConvertLF (src : List UInt8) : List UInt8 := src.filter (· ≠ 0x0d)

/-- What is written for a byte. -/
def utf8Of (c : UInt8) : UInt8 × List UInt8 :=
  if c < 128 then (c, []) else (0xc2 + (if c > 0xbf then 1 else 0), [(c &&& 0x3f) + 0x80])

/-- `in` ends with a NUL. -/
def lorieLatin1ToUTF8 : List UInt8 → List UInt8
  | [] => []
  | c :: rest =>
    if c = 0 then [] else (utf8Of c).1 :: ((utf8Of c).2 ++ lorieLatin1ToUTF8 rest)

/-- The text that is sent for the data of a property of type STRING. -/
def latin1Selection (data : List UInt8) : List UInt8 :=
  let filtered := lorieConvertLF data
  lorieLatin1ToUTF8 (filtered ++ List.replicate (data.length + 1 - filtered.length) 0)

/-- A string without a NUL and without carriage returns. -/
structure Latin1 where
  bytes : List UInt8
  legal : ∀ c ∈ bytes, c ≠ 0 ∧ c ≠ 0x0d

/-- What is written for a string, one byte after another. -/
def encoded (s : List UInt8) : List UInt8 := s.flatMap fun c => (utf8Of c).1 :: (utf8Of c).2

/-- Enough turns of the loops, and the string is returned. -/
def Returns (utf : ℤ → UInt8) (string : List UInt8) : Prop :=
  ∃ enough, ∀ turns, enough ≤ turns → (lorieUtf8ToLatin1 utf turns).result = some string

/-- The byte for a code point. -/
def latin1Byte (codePoint : ℕ) : UInt8 := if codePoint ≤ 0xff then UInt8.ofNat codePoint else 0x3f

theorem Returns.unique {utf : ℤ → UInt8} {string string' : List UInt8} (h : Returns utf string)
    (h' : Returns utf string') : string = string' := by
  obtain ⟨n, hn⟩ := h
  obtain ⟨n', hn'⟩ := h'
  exact Option.some_inj.mp ((hn _ (le_max_left n n')).symm.trans (hn' _ (le_max_right n n')))

/-! ### One byte -/

theorem leads_utf8Of (c : UInt8) : Utf8.Leads (utf8Of c).1 (utf8Of c).2.length :=
  Utf8.forall_byte (P := fun c => Utf8.Leads (utf8Of c).1 (utf8Of c).2.length)
    (by decide +kernel) c

theorem isTail_utf8Of (c : UInt8) : ∀ t ∈ (utf8Of c).2, IsTail t := by
  have hall : (utf8Of c).2.all (decide <| IsTail ·) = true :=
    Utf8.forall_byte (P := fun c => (utf8Of c).2.all (decide <| IsTail ·) = true)
      (by decide +kernel) c
  intro t ht
  exact of_decide_eq_true (List.all_eq_true.mp hall t ht)

theorem codePoint_utf8Of (c : UInt8) : Utf8.codePoint (utf8Of c) = c.toNat :=
  Utf8.forall_byte (P := fun c => Utf8.codePoint (utf8Of c) = c.toNat) (by decide +kernel) c

theorem length_utf8Of_le (c : UInt8) : (utf8Of c).2.length ≤ 1 :=
  Utf8.forall_byte (P := fun c => (utf8Of c).2.length ≤ 1) (by decide +kernel) c

theorem utf8Of_ne_zero {c : UInt8} (hc : c ≠ 0) : (utf8Of c).1 ≠ 0 := by
  have hall : ∀ c : UInt8, c ≠ 0 → (utf8Of c).1 ≠ 0 := Utf8.forall_byte (by decide +kernel)
  exact hall c hc

theorem latin1Byte_toNat (c : UInt8) : latin1Byte c.toNat = c := by
  rw [latin1Byte, if_pos (Nat.le_of_lt_succ c.toNat_lt), UInt8.ofNat_toNat]

/-! ### A string -/

theorem lorieConvertLF_eq_self {s : List UInt8} (hs : ∀ c ∈ s, c ≠ 0x0d) :
    lorieConvertLF s = s :=
  List.filter_eq_self.mpr fun c hc => decide_eq_true (hs c hc)

theorem encoded_cons (c : UInt8) (s : List UInt8) :
    encoded (c :: s) = ((utf8Of c).1 :: (utf8Of c).2) ++ encoded s := rfl

theorem length_encoded_cons (c : UInt8) (s : List UInt8) :
    (encoded (c :: s)).length = (utf8Of c).2.length + 1 + (encoded s).length := by
  rw [encoded_cons, List.length_append, List.length_cons]

theorem lorieLatin1ToUTF8_append {s : List UInt8} (hs : ∀ c ∈ s, c ≠ 0) (rest : List UInt8) :
    lorieLatin1ToUTF8 (s ++ 0 :: rest) = encoded s := by
  induction s with
  | nil => rfl
  | cons c s ih =>
    rw [List.cons_append, lorieLatin1ToUTF8, if_neg (hs c List.mem_cons_self),
      ih fun d hd => hs d (List.mem_cons_of_mem _ hd), encoded_cons]
    rfl

theorem latin1Selection_eq (s : Latin1) : latin1Selection s.bytes = encoded s.bytes := by
  rw [latin1Selection, lorieConvertLF_eq_self fun c hc => (s.legal c hc).2]
  have hone : s.bytes.length + 1 - s.bytes.length = 1 := by omega
  rw [hone]
  exact lorieLatin1ToUTF8_append (fun c hc => (s.legal c hc).1) []

theorem length_encoded_le (s : List UInt8) : (encoded s).length ≤ 2 * s.length := by
  induction s with
  | nil => exact le_rfl
  | cons c rest ih =>
    have hone := length_utf8Of_le c
    rw [length_encoded_cons, List.length_cons]
    omega

theorem splits_encoded (s : List UInt8) : Splits Utf8.code (encoded s) (s.map utf8Of) :=
  LeadCode.splits_flatMap (fun c _ => leads_utf8Of c) fun c _ => isTail_utf8Of c

theorem encoded_ne_zero {s : List UInt8} (hs : ∀ c ∈ s, c ≠ 0) : ∀ b ∈ encoded s, b ≠ 0 := by
  intro b hb
  obtain ⟨c, hc, hb⟩ := List.mem_flatMap.mp hb
  rcases List.mem_cons.mp hb with rfl | htail
  · exact utf8Of_ne_zero (hs c hc)
  · exact isTail_ne_zero (isTail_utf8Of c b htail)

/-! ### From UTF-8 -/

/-- What is left of a code point after the test for surrogates. -/
def withoutSurrogates (dst : UInt32) : UInt32 := if 0xd800 ≤ dst ∧ dst < 0xe000 then 0xfffd else dst

theorem toLatin1_withoutSurrogates (dst : UInt32) :
    toLatin1 (withoutSurrogates dst) = latin1Byte dst.toNat := by
  have hbyte : toLatin1 dst = latin1Byte dst.toNat := by
    rw [toLatin1, latin1Byte]
    by_cases hle : dst.toNat ≤ 0xff
    · rw [if_neg (by rw [gt_iff_lt, UInt32.lt_iff_toNat_lt]; exact not_lt.mpr hle), if_pos hle]
      exact UInt8.toNat_inj.mp (by simp)
    · rw [if_pos (by rw [gt_iff_lt, UInt32.lt_iff_toNat_lt]; exact not_le.mp hle), if_neg hle]
  rw [withoutSurrogates]
  split
  next hsurrogate =>
    have hle : 0xd800 ≤ dst.toNat := UInt32.le_iff_toNat_le.mp hsurrogate.1
    rw [latin1Byte, if_neg (by omega)]
    rfl
  next => exact hbyte

/-- Six bits are shifted in. -/
theorem toNat_shifted {dst : UInt32} {t : UInt8} (hdst : (dst.toNat + 1) * 64 ≤ 2 ^ 32) :
    (dst <<< 6 ||| (t &&& 0x3f).toUInt32).toNat = dst.toNat * 64 + (t &&& 0x3f).toNat := by
  have hbits := Utf8.tailBits_lt t
  have hshift : (dst <<< 6).toNat = dst.toNat <<< 6 := by
    rw [UInt32.toNat_shiftLeft]
    exact Nat.mod_eq_of_lt (by rw [Nat.shiftLeft_eq]; show dst.toNat * 2 ^ 6 < 2 ^ 32; omega)
  rw [UInt32.toNat_or, hshift, UInt8.toNat_toUInt32, ← Nat.shiftLeft_add_eq_or_of_lt hbits,
    Nat.shiftLeft_eq]

section

variable {utf : ℤ → UInt8} {nul : ℕ}

/-- The continuation bytes of a sequence. -/
theorem takeTails_word {tails : List UInt8} {src : ℕ} (max : ℕ) (dst : UInt32)
    (hheld : bytes utf src tails.length = tails) (htails : ∀ t ∈ tails, IsTail t)
    (hmax : tails.length ≤ max) (hdst : (dst.toNat + 1) * 64 ^ tails.length ≤ 2 ^ 32) :
    (takeTails utf tails.length src max dst).consumed = tails.length ∧
      ∃ v : UInt32, (takeTails utf tails.length src max dst).dst = withoutSurrogates v ∧
        v.toNat = Utf8.continued dst.toNat tails := by
  induction tails generalizing src max dst with
  | nil => exact ⟨rfl, dst, rfl, rfl⟩
  | cons t tails ih =>
    rw [List.length_cons, bytes_succ] at hheld
    obtain ⟨hfirst, hrest⟩ := List.cons.inj hheld
    obtain ⟨htail, htails⟩ := List.forall_mem_cons.mp htails
    rw [List.length_cons, Nat.pow_succ', ← Nat.mul_assoc] at hdst
    rw [List.length_cons] at hmax
    have hbits := Utf8.tailBits_lt t
    have hdst' : (dst.toNat + 1) * 64 ≤ 2 ^ 32 :=
      (Nat.le_mul_of_pos_right _ (Nat.pow_pos (by decide))).trans hdst
    have hshifted := toNat_shifted (t := t) hdst'
    have hmore : ((dst <<< 6 ||| (t &&& 0x3f).toUInt32).toNat + 1) * 64 ^ tails.length ≤
        2 ^ 32 := by
      rw [hshifted]
      exact (Nat.mul_le_mul_right _ (by omega)).trans hdst
    obtain ⟨hconsumed, v, hv, hvalue⟩ := ih (max - 1) _ hrest htails (by omega) hmore
    rw [List.length_cons, takeTails, if_neg (by omega), hfirst, if_neg (not_not_intro htail)]
    refine ⟨congrArg (· + 1) hconsumed, v, hv, ?_⟩
    rw [hvalue, hshifted, Utf8.continued_cons]

theorem lead_eq_some {c : UInt8} {n : ℕ} (h : Utf8.Leads c n) :
    lead c = some (n, (Utf8.leadBits c n).toUInt32) := by
  have hall : ∀ c : UInt8, ∀ i : Fin 4, Utf8.Leads c i →
      lead c = some ((i : ℕ), (Utf8.leadBits c i).toUInt32) :=
    Utf8.forall_byte (by decide +kernel)
  exact hall c ⟨n, Nat.lt_succ_of_le h.le⟩ h

/-- A sequence of the text. -/
theorem lorieUtf8ToUCS4_word {c : UInt8} {tails : List UInt8} {src : ℕ} (max : ℕ)
    (hlead : Utf8.Leads c tails.length) (htails : ∀ t ∈ tails, IsTail t)
    (hheld : bytes utf src (tails.length + 1) = c :: tails) (hmax : tails.length + 1 ≤ max) :
    (lorieUtf8ToUCS4 utf src max).consumed = 1 + tails.length ∧
      toLatin1 (lorieUtf8ToUCS4 utf src max).dst = latin1Byte (Utf8.codePoint (c, tails)) := by
  rw [bytes_succ] at hheld
  obtain ⟨hfirst, hrest⟩ := List.cons.inj hheld
  have hbound := Utf8.leadBits_bound hlead
  have hbound' : ((Utf8.leadBits c tails.length).toUInt32.toNat + 1) * 64 ^ tails.length ≤
      2 ^ 32 := by
    rw [UInt8.toNat_toUInt32]
    omega
  obtain ⟨hconsumed, v, hv, hvalue⟩ := takeTails_word (max - 1) _ hrest htails (by omega) hbound'
  rw [lorieUtf8ToUCS4, if_neg (by omega), hfirst, lead_eq_some hlead]
  refine ⟨congrArg (1 + ·) hconsumed, ?_⟩
  dsimp only
  rw [hv, toLatin1_withoutSurrogates, hvalue, UInt8.toNat_toUInt32]
  rfl

theorem bytes_append (utf : ℤ → UInt8) (k m n : ℕ) :
    bytes utf k (m + n) = bytes utf k m ++ bytes utf (k + m) n := by
  rw [bytes, bytes, bytes, ← List.map_append, List.range'_append_1]

/-- A word and what is behind it. -/
theorem textFrom_word {word rest : List UInt8} {src : ℕ}
    (hheld : textFrom utf nul src = word ++ rest) (hword : 0 < word.length) :
    src + word.length ≤ nul ∧ bytes utf src word.length = word ∧
      textFrom utf nul (src + word.length) = rest := by
  have hlength : nul - src = word.length + rest.length := by
    have hlength := congrArg List.length hheld
    rwa [textFrom, bytes, List.length_map, List.length_range', List.length_append] at hlength
  have hleft : nul - (src + word.length) = rest.length := by omega
  rw [textFrom, hlength, bytes_append] at hheld
  rw [textFrom, hleft]
  obtain ⟨hfirst, hrest⟩ := List.append_inj hheld (by simp [bytes])
  exact ⟨by omega, hfirst, hrest⟩

theorem length_textFrom (utf : ℤ → UInt8) (nul src : ℕ) :
    (textFrom utf nul src).length = nul - src := by
  rw [textFrom, bytes, List.length_map, List.length_range']

/-- One turn of a loop at a sequence of the text. -/
theorem decodeAll_word {c : UInt8} {tails : List UInt8} {src inLen : ℕ} (turns : ℕ)
    (hlead : Utf8.Leads c tails.length) (htails : ∀ t ∈ tails, IsTail t) (hzero : c ≠ 0)
    (hheld : bytes utf src (tails.length + 1) = c :: tails) (hlen : tails.length + 1 ≤ inLen)
    (hsize : inLen < 2 ^ 64) :
    let rest := decodeAll utf turns (src + (tails.length + 1)) (inLen - (tails.length + 1))
    (decodeAll utf (turns + 1) src inLen).ended = rest.ended ∧
      (decodeAll utf (turns + 1) src inLen).ucs.map toLatin1 =
        latin1Byte (Utf8.codePoint (c, tails)) :: rest.ucs.map toLatin1 := by
  intro rest
  have hfirst : utf src = c := by
    rw [bytes_succ] at hheld
    exact (List.cons.inj hheld).1
  obtain ⟨hconsumed, hbyte⟩ := lorieUtf8ToUCS4_word inLen hlead htails hheld hlen
  rw [Nat.add_comm] at hconsumed
  have hleft : (inLen + 2 ^ 64 - (tails.length + 1)) % 2 ^ 64 = inLen - (tails.length + 1) := by
    omega
  rw [decodeAll_symbol (by omega) (hfirst ▸ hzero)]
  dsimp only
  rw [hconsumed, hleft, List.map_cons, hbyte]
  exact ⟨rfl, rfl⟩

/-- A loop over a text that is split into words, with all of it left. -/
theorem decodeAll_words {text : List UInt8} {words : List (UInt8 × List UInt8)}
    (h : Splits Utf8.code text words) (htext : ∀ b ∈ text, b ≠ 0) (hnul : utf nul = 0)
    {src : ℕ} (hheld : textFrom utf nul src = text) (hle : src ≤ nul) {turns inLen : ℕ}
    (hturns : words.length ≤ turns) (hlen : nul ≤ src + inLen) (hsize : inLen < 2 ^ 64) :
    (decodeAll utf (turns + 1) src inLen).ended = true ∧
      (decodeAll utf (turns + 1) src inLen).ucs.map toLatin1 =
        words.map fun word => latin1Byte (Utf8.codePoint word) := by
  induction h generalizing src turns inLen with
  | nil =>
    have hlength := length_textFrom utf nul src
    rw [hheld, List.length_nil] at hlength
    have hend : src = nul := by omega
    rw [decodeAll, hend, if_pos hnul]
    split <;> exact ⟨rfl, rfl⟩
  | @cons c tails rest words hlead htails hwords ih =>
    rw [List.length_cons] at hturns
    obtain ⟨turns, rfl⟩ : ∃ n, turns = n + 1 := ⟨turns - 1, by omega⟩
    have hheld' : textFrom utf nul src = (c :: tails) ++ rest := hheld
    obtain ⟨hnext, hword, hrest⟩ := textFrom_word hheld' (Nat.succ_pos _)
    rw [List.length_cons] at hnext hword hrest
    have htext' : ∀ b ∈ rest, b ≠ 0 := fun b hb =>
      htext b (List.mem_cons_of_mem _ (List.mem_append_right _ hb))
    have hturns' : words.length ≤ turns := by omega
    have hlen' : nul ≤ src + (tails.length + 1) + (inLen - (tails.length + 1)) := by omega
    have hsize' : inLen - (tails.length + 1) < 2 ^ 64 := by omega
    obtain ⟨hended, hmap⟩ := ih htext' hrest hnext hturns' hlen' hsize'
    obtain ⟨hended', hmap'⟩ := decodeAll_word (turns + 1) hlead htails
      (htext c List.mem_cons_self) hword (by omega) hsize
    refine ⟨hended'.trans hended, ?_⟩
    rw [hmap', hmap, List.map_cons]

end

/-! ### Whole texts -/

theorem ClipboardData.text_ne_zero (t : ClipboardData) : ∀ b ∈ t.text, b ≠ 0 := by
  intro b hb
  obtain ⟨i, hi, rfl⟩ := List.mem_map.mp hb
  rw [List.mem_range'_1] at hi
  exact t.data_ne_zero (by omega)

/-- A well-formed text comes out with one byte for each code point, up to the first U+0000. -/
theorem lorieUtf8ToLatin1_words (t : ClipboardData) {words : List (UInt8 × List UInt8)}
    (h : Splits Utf8.code t.text words) : Returns t.data
      ((words.map fun word => latin1Byte (Utf8.codePoint word)).takeWhile (· ≠ 0)) := by
  have hlt := t.strlen_lt
  refine ⟨words.length + 1, fun turns hturns => ?_⟩
  obtain ⟨turns, rfl⟩ : ∃ n, turns = n + 1 := ⟨turns - 1, by omega⟩
  replace hturns : words.length ≤ turns := Nat.le_of_succ_le_succ hturns
  obtain ⟨hended, -⟩ := decodeAll_words h t.text_ne_zero t.data_strlen rfl (Nat.zero_le _)
    hturns (by omega : t.strlen ≤ 0 + (2 ^ 64 - 1)) (by omega)
  obtain ⟨hended', hmap⟩ := decodeAll_words h t.text_ne_zero t.data_strlen rfl (Nat.zero_le _)
    hturns (by omega : t.strlen ≤ 0 + 4294967295) (by omega)
  rw [lorieUtf8ToLatin1, if_pos hended]
  dsimp only
  rw [if_pos hended', hmap]

theorem latin1Byte_eq_zero_iff {codePoint : ℕ} : latin1Byte codePoint = 0 ↔ codePoint = 0 := by
  rw [latin1Byte]
  split
  next hle =>
    have hsmall : codePoint < 2 ^ 8 := by omega
    rw [← UInt8.toNat_inj, UInt8.toNat_ofNat', Nat.mod_eq_of_lt hsmall]
    rfl
  next hlarge => exact iff_of_false (by decide) (by omega)

/-- Nothing is cut off if and only if no sequence stands for U+0000. -/
theorem returns_words_iff (t : ClipboardData) {words : List (UInt8 × List UInt8)}
    (h : Splits Utf8.code t.text words) :
    Returns t.data (words.map fun word => latin1Byte (Utf8.codePoint word)) ↔
      ∀ word ∈ words, Utf8.codePoint word ≠ 0 := by
  have hreturns := lorieUtf8ToLatin1_words t h
  constructor
  · intro hall word hword hzero
    have hwhole := List.takeWhile_eq_self_iff.mp (hreturns.unique hall)
    have hbyte := of_decide_eq_true (hwhole _ (List.mem_map_of_mem hword))
    exact hbyte (latin1Byte_eq_zero_iff.mpr hzero)
  · intro hnone
    have hwhole : ∀ b ∈ words.map fun word => latin1Byte (Utf8.codePoint word),
        decide (b ≠ 0) = true := by
      intro b hb
      obtain ⟨word, hword, rfl⟩ := List.mem_map.mp hb
      exact decide_eq_true (latin1Byte_eq_zero_iff.not.mpr (hnone word hword))
    rwa [List.takeWhile_eq_self_iff.mpr hwhole] at hreturns

/-- Where every sequence is as short as it can be, none stands for U+0000. -/
theorem returns_of_shortest (t : ClipboardData) {words : List (UInt8 × List UInt8)}
    (h : Splits Utf8.code t.text words) (hshortest : ∀ word ∈ words, Utf8.Shortest word) :
    Returns t.data (words.map fun word => latin1Byte (Utf8.codePoint word)) := by
  refine (returns_words_iff t h).mpr fun word hword => ?_
  have hzero : word.1 ≠ 0 := t.text_ne_zero _ (h.fst_mem word hword)
  exact (hshortest word hword).codePoint_ne_zero hzero

end Lorie.Text
