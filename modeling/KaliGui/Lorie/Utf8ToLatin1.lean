/-
What `lorieUtf8ToLatin1` reads and writes (`clipboard.c`).

The text of the clipboard ends with a NUL.  It is decoded twice, to count its symbols and to
write them.  The count of bytes that a broken sequence takes includes the byte that breaks it,
also when that byte is the NUL, and then both turns go on behind the text.

* `lorieUtf8ToUCS4` — one symbol, with the indices that are read for it;
* `CutShort` — texts whose last sequence has no end;
* `conversions_inside_iff` — when both conversions of a text stay in their buffers.
-/
import Mathlib.Order.Nat
import KaliGui.Lorie.CheckUtf8

namespace Lorie.Text

open Utf8 (IsTail)

/-! ### One symbol -/

/-- How many bytes have to follow a first byte, and its own bits; `none` for an invalid one. -/
def lead (c : UInt8) : Option (ℕ × UInt32) :=
  if c &&& 0x80 = 0 then some (0, c.toUInt32)
  else if c &&& 0xe0 = 0xc0 then some (1, (c &&& 0x1f).toUInt32)
  else if c &&& 0xf0 = 0xe0 then some (2, (c &&& 0x0f).toUInt32)
  else if c &&& 0xf8 = 0xf0 then some (3, (c &&& 0x07).toUInt32)
  else none

/-- `*dst`, the bytes that are consumed and the indices that are read. -/
structure Decoded where
  dst : UInt32
  consumed : ℕ
  reads : List ℕ
  deriving Repr

/-- `while (count--)`, from `src` on. -/
def takeTails (utf : ℤ → UInt8) : ℕ → ℕ → ℕ → UInt32 → Decoded
  | 0, _, _, dst => ⟨if 0xd800 ≤ dst ∧ dst < 0xe000 then 0xfffd else dst, 0, []⟩
  | count + 1, src, max, dst =>
    if max = 0 then ⟨0xfffd, 1, []⟩
    else if ¬ IsTail (utf src) then ⟨0xfffd, 1, [src]⟩
    else
      let rest := takeTails utf count (src + 1) (max - 1)
        (dst <<< 6 ||| (utf src &&& 0x3f).toUInt32)
      ⟨rest.dst, rest.consumed + 1, src :: rest.reads⟩

/-- `while ((max-- > 0) && ((*src++ & 0xc0) == 0x80))`, with the turns and the indices read. -/
def skipTails (utf : ℤ → UInt8) : ℕ → ℕ → ℕ × List ℕ
  | _, 0 => (0, [])
  | src, max + 1 =>
    if IsTail (utf src) then
      let rest := skipTails utf (src + 1) max
      (rest.1 + 1, src :: rest.2)
    else (0, [src])

def lorieUtf8ToUCS4 (utf : ℤ → UInt8) (src max : ℕ) : Decoded :=
  if max = 0 then ⟨0xfffd, 0, []⟩
  else
    match lead (utf src) with
    | some (count, dst) =>
      let rest := takeTails utf count (src + 1) (max - 1) dst
      ⟨rest.dst, 1 + rest.consumed, src :: rest.reads⟩
    | none =>
      let rest := skipTails utf (src + 1) (max - 1)
      ⟨0xfffd, 1 + rest.1, src :: rest.2⟩

/-! ### The conversion -/

/-- A loop over the text: the symbols, the indices read, and whether it has come to an end. -/
structure Pass where
  ucs : List UInt32
  reads : List ℕ
  ended : Bool
  deriving Repr

/-- The first turns of a loop.  `in_len` is a `size_t`, and the last symbol may take more. -/
def decodeAll (utf : ℤ → UInt8) : ℕ → ℕ → ℕ → Pass
  | 0, _, _ => ⟨[], [], false⟩
  | turns + 1, src, inLen =>
    if inLen = 0 then ⟨[], [], true⟩
    else if utf src = 0 then ⟨[], [src], true⟩
    else
      let d := lorieUtf8ToUCS4 utf src inLen
      let rest := decodeAll utf turns (src + d.consumed) ((inLen + 2 ^ 64 - d.consumed) % 2 ^ 64)
      ⟨d.dst :: rest.ucs, src :: (d.reads ++ rest.reads), rest.ended⟩

def toLatin1 (ucs : UInt32) : UInt8 := if ucs > 0xff then 0x3f else ucs.toUInt8

/-- The indices read, the size of `out`, what is written to it, and the string returned. -/
structure Conversion where
  reads : List ℕ
  size : ℕ
  writes : List (ℕ × UInt8)
  result : Option (List UInt8)
  deriving Repr

/-- The first turns of the two loops; the second begins when the first has ended. -/
def lorieUtf8ToLatin1 (utf : ℤ → UInt8) (turns : ℕ) : Conversion :=
  let first := decodeAll utf turns 0 (2 ^ 64 - 1)
  if first.ended then
    let second := decodeAll utf turns 0 4294967295
    let out := second.ucs.map toLatin1
    { reads := first.reads ++ second.reads
      size := first.ucs.length + 1
      writes := out.zipIdx.map fun w => (w.2, w.1)
      result := if second.ended then some (out.takeWhile (· ≠ 0)) else none }
  else { reads := first.reads, size := 0, writes := [], result := none }

/-! ### Texts with a NUL -/

/-- The text that has arrived: `calloc(1, count + 1)`, `count` bytes and a NUL.  Nothing is said
of the bytes behind it. -/
structure ClipboardData where
  data : ℤ → UInt8
  count : UInt32
  ended : data count.toNat = 0

/-- The index of the NUL. -/
def ClipboardData.strlen (t : ClipboardData) : ℕ :=
  Nat.find (p := fun i => t.data i = 0) ⟨t.count.toNat, t.ended⟩

/-- The bytes before the NUL. -/
def ClipboardData.text (t : ClipboardData) : List UInt8 := bytes t.data 0 t.strlen

/-- Nothing is read behind the NUL, and nothing is written behind `out`. -/
def Conversion.Inside (r : Conversion) (nul : ℕ) : Prop :=
  (∀ read ∈ r.reads, read ≤ nul) ∧ ∀ w ∈ r.writes, w.1 < r.size

/-- The bytes that have to follow. -/
def asks (c : UInt8) : Option ℕ := (lead c).map Prod.fst

/-- The continuation bytes that a text begins with. -/
def tails (text : List UInt8) : ℕ := (text.takeWhile (decide <| IsTail ·)).length

/-- Symbols one after another, and a sequence that the text ends in the middle of.  A sequence
takes the byte that breaks it; an invalid byte takes the continuation bytes behind it. -/
inductive CutShort : List UInt8 → Prop
  | whole {c : UInt8} {rest : List UInt8} {count : ℕ} : asks c = some count →
      count ≤ tails rest → CutShort (rest.drop count) → CutShort (c :: rest)
  | broken {c : UInt8} {rest : List UInt8} {count : ℕ} : asks c = some count →
      tails rest < count → tails rest < rest.length → CutShort (rest.drop (tails rest + 1)) →
      CutShort (c :: rest)
  | stray {c : UInt8} {rest : List UInt8} : asks c = none →
      CutShort (rest.drop (tails rest)) → CutShort (c :: rest)
  | cut {c : UInt8} {rest : List UInt8} {count : ℕ} : asks c = some count →
      tails rest < count → tails rest = rest.length → CutShort (c :: rest)

/-! ### Reads and bytes consumed -/

section

variable {utf : ℤ → UInt8} {nul : ℕ}

theorem not_isTail_zero : ¬ IsTail 0 := by decide

@[simp] theorem tails_nil : tails [] = 0 := rfl

theorem tails_cons (c : UInt8) (rest : List UInt8) :
    tails (c :: rest) = if IsTail c then tails rest + 1 else 0 := by
  rw [tails, List.takeWhile_cons]
  by_cases hc : IsTail c <;> simp [hc, tails]

theorem tails_le (text : List UInt8) : tails text ≤ text.length :=
  (List.takeWhile_prefix _).length_le

/-- The loop ends at the first byte that is no continuation byte, at the latest at the NUL. -/
theorem skipTails_spec (hnul : utf nul = 0) {n src max : ℕ} (hn : src + n = nul)
    (hmax : n ≤ max) :
    (skipTails utf src max).1 = tails (bytes utf src n) ∧
      ∀ read ∈ (skipTails utf src max).2, read ≤ nul := by
  induction n generalizing src max with
  | zero =>
    obtain rfl : src = nul := hn
    cases max with
    | zero => exact ⟨rfl, nofun⟩
    | succ max =>
      rw [skipTails, if_neg (hnul ▸ not_isTail_zero)]
      exact ⟨rfl, by simp⟩
  | succ n ih =>
    obtain ⟨max, rfl⟩ : ∃ m, max = m + 1 := ⟨max - 1, by omega⟩
    rw [bytes_succ, tails_cons, skipTails]
    split
    · obtain ⟨hcount, hreads⟩ := ih (by omega : src + 1 + n = nul) (by omega : n ≤ max)
      refine ⟨congrArg (· + 1) hcount, ?_⟩
      rintro read (_ | ⟨_, hread⟩)
      · omega
      · exact hreads read hread
    · exact ⟨rfl, by simp; omega⟩

/-- The loop ends with the sequence, or takes the byte that is no continuation byte. -/
theorem takeTails_spec (hnul : utf nul = 0) {n src max : ℕ} (count : ℕ) (dst : UInt32)
    (hn : src + n = nul) (hmax : n ≤ max) :
    (takeTails utf count src max dst).consumed =
        (if count ≤ tails (bytes utf src n) then count else tails (bytes utf src n) + 1) ∧
      ∀ read ∈ (takeTails utf count src max dst).reads, read ≤ nul := by
  induction count generalizing n src max dst with
  | zero => exact ⟨by rw [takeTails, if_pos (Nat.zero_le _)], nofun⟩
  | succ count ih =>
    rw [takeTails]
    cases n with
    | zero =>
      obtain rfl : src = nul := hn
      have hnot : ¬ IsTail (utf src) := hnul ▸ not_isTail_zero
      rw [bytes_zero, tails_nil, if_neg (by omega : ¬ count + 1 ≤ 0), if_pos hnot]
      split
      · exact ⟨rfl, nofun⟩
      · exact ⟨rfl, by simp⟩
    | succ n =>
      rw [if_neg (by omega), bytes_succ, tails_cons]
      by_cases htail : IsTail (utf src)
      · obtain ⟨hconsumed, hreads⟩ := ih (dst <<< 6 ||| (utf src &&& 0x3f).toUInt32)
          (by omega : src + 1 + n = nul) (by omega : n ≤ max - 1)
        rw [if_neg (not_not.mpr htail), if_pos htail]
        refine ⟨?_, ?_⟩
        · dsimp only
          rw [hconsumed]
          split <;> split <;> omega
        · rintro read (_ | ⟨_, hread⟩)
          · omega
          · exact hreads read hread
      · rw [if_pos htail, if_neg htail, if_neg (by omega)]
        exact ⟨rfl, by simp; omega⟩

/-- The bytes that a symbol takes. -/
def taken (c : UInt8) (rest : List UInt8) : ℕ :=
  match asks c with
  | some count => if count ≤ tails rest then 1 + count else tails rest + 2
  | none => 1 + tails rest

/-- One turn at a byte of the text, with at least the text left. -/
theorem lorieUtf8ToUCS4_spec (hnul : utf nul = 0) {n src max : ℕ} (hn : src + (n + 1) = nul)
    (hmax : n + 1 ≤ max) :
    (lorieUtf8ToUCS4 utf src max).consumed = taken (utf src) (bytes utf (src + 1) n) ∧
      ∀ read ∈ (lorieUtf8ToUCS4 utf src max).reads, read ≤ nul := by
  rw [lorieUtf8ToUCS4, if_neg (by omega), taken, asks]
  cases lead (utf src) with
  | none =>
    obtain ⟨hcount, hreads⟩ := skipTails_spec hnul (by omega : src + 1 + n = nul)
      (by omega : n ≤ max - 1)
    refine ⟨congrArg (1 + ·) hcount, ?_⟩
    rintro read (_ | ⟨_, hread⟩)
    · omega
    · exact hreads read hread
  | some first =>
    obtain ⟨hconsumed, hreads⟩ := takeTails_spec hnul first.1 first.2
      (by omega : src + 1 + n = nul) (by omega : n ≤ max - 1)
    refine ⟨?_, ?_⟩
    · dsimp only [Option.map_some]
      rw [hconsumed]
      split <;> omega
    · rintro read (_ | ⟨_, hread⟩)
      · omega
      · exact hreads read hread

end

/-! ### Symbols of a text -/

theorem not_cutShort_nil : ¬ CutShort [] := nofun

theorem cutShort_stray {c : UInt8} {rest : List UInt8} (hasks : asks c = none) :
    CutShort (c :: rest) ↔ CutShort (rest.drop (tails rest)) := by
  refine ⟨fun h => ?_, .stray hasks⟩
  cases h with
  | whole hsome => cases hasks.symm.trans hsome
  | broken hsome => cases hasks.symm.trans hsome
  | stray _ hrest => exact hrest
  | cut hsome => cases hasks.symm.trans hsome

theorem cutShort_whole {c : UInt8} {rest : List UInt8} {count : ℕ} (hasks : asks c = some count)
    (hwhole : count ≤ tails rest) : CutShort (c :: rest) ↔ CutShort (rest.drop count) := by
  refine ⟨fun h => ?_, .whole hasks hwhole⟩
  cases h with
  | whole hsome _ hrest =>
    cases hasks.symm.trans hsome
    exact hrest
  | broken hsome hlt =>
    cases hasks.symm.trans hsome
    omega
  | stray hnone => cases hasks.symm.trans hnone
  | cut hsome hlt =>
    cases hasks.symm.trans hsome
    omega

theorem cutShort_broken {c : UInt8} {rest : List UInt8} {count : ℕ}
    (hasks : asks c = some count) (hbroken : tails rest < count)
    (hlt : tails rest < rest.length) :
    CutShort (c :: rest) ↔ CutShort (rest.drop (tails rest + 1)) := by
  refine ⟨fun h => ?_, .broken hasks hbroken hlt⟩
  cases h with
  | whole hsome hwhole =>
    cases hasks.symm.trans hsome
    omega
  | broken _ _ _ hrest => exact hrest
  | stray hnone => cases hasks.symm.trans hnone
  | cut _ _ hend => omega

theorem taken_stray {c : UInt8} {rest : List UInt8} (hasks : asks c = none) :
    taken c rest = tails rest + 1 := by
  rw [taken, hasks]
  exact Nat.add_comm _ _

theorem taken_whole {c : UInt8} {rest : List UInt8} {count : ℕ} (hasks : asks c = some count)
    (hwhole : count ≤ tails rest) : taken c rest = count + 1 := by
  rw [taken, hasks]
  exact (if_pos hwhole).trans (Nat.add_comm _ _)

theorem taken_broken {c : UInt8} {rest : List UInt8} {count : ℕ} (hasks : asks c = some count)
    (hbroken : tails rest < count) : taken c rest = tails rest + 2 := by
  rw [taken, hasks]
  exact if_neg hbroken.not_ge

/-- The last sequence takes the NUL as well, any other ends in the text. -/
theorem taken_cases (c : UInt8) (rest : List UInt8) :
    (taken c rest = rest.length + 2 ∧ CutShort (c :: rest)) ∨
      (0 < taken c rest ∧ taken c rest ≤ rest.length + 1 ∧
        (CutShort (c :: rest) ↔ CutShort ((c :: rest).drop (taken c rest)))) := by
  have hle := tails_le rest
  cases hasks : asks c with
  | none =>
    rw [taken_stray hasks, List.drop_succ_cons]
    exact .inr ⟨by omega, by omega, cutShort_stray hasks⟩
  | some count =>
    rcases Nat.lt_or_ge (tails rest) count with hbroken | hwhole
    · rw [taken_broken hasks hbroken, List.drop_succ_cons]
      rcases Nat.lt_or_eq_of_le hle with hlt | hend
      · exact .inr ⟨by omega, by omega, cutShort_broken hasks hbroken hlt⟩
      · exact .inl ⟨by omega, .cut hasks hbroken hend⟩
    · rw [taken_whole hasks hwhole, List.drop_succ_cons]
      exact .inr ⟨by omega, by omega, cutShort_whole hasks hwhole⟩

/-! ### The loops -/

section

variable {utf : ℤ → UInt8} {nul : ℕ}

theorem bytes_drop (utf : ℤ → UInt8) (k n i : ℕ) :
    (bytes utf k n).drop i = bytes utf (k + i) (n - i) := by
  rw [bytes, bytes, ← List.map_drop, List.drop_range', Nat.mul_one]

/-- The text from `src` on. -/
def textFrom (utf : ℤ → UInt8) (nul src : ℕ) : List UInt8 := bytes utf src (nul - src)

theorem textFrom_end (utf : ℤ → UInt8) (nul : ℕ) : textFrom utf nul nul = [] := by
  rw [textFrom, Nat.sub_self, bytes_zero]

/-- One turn takes one symbol of the text, or everything up to the NUL and the NUL. -/
structure Turn (utf : ℤ → UInt8) (nul src consumed : ℕ) : Prop where
  positive : 0 < consumed
  taken : (src + consumed = nul + 1 ∧ CutShort (textFrom utf nul src)) ∨
    (src + consumed ≤ nul ∧
      (CutShort (textFrom utf nul src) ↔ CutShort (textFrom utf nul (src + consumed))))

theorem turn (hnul : utf nul = 0) {src inLen : ℕ} (hlt : src < nul)
    (hlen : nul ≤ src + inLen) : Turn utf nul src (lorieUtf8ToUCS4 utf src inLen).consumed := by
  obtain ⟨n, hn⟩ : ∃ n, src + (n + 1) = nul := ⟨nul - src - 1, by omega⟩
  obtain ⟨hconsumed, -⟩ := lorieUtf8ToUCS4_spec hnul hn (by omega : n + 1 ≤ inLen)
  have hleft : textFrom utf nul src = utf src :: bytes utf (src + 1) n := by
    rw [textFrom, (by omega : nul - src = n + 1), bytes_succ]
  have hlength : (bytes utf (src + 1) n).length = n := by simp [bytes]
  rcases taken_cases (utf src) (bytes utf (src + 1) n) with ⟨htaken, hcut⟩ | ⟨hpos, hle, hcut⟩
  · rw [hlength] at htaken
    exact ⟨by omega, .inl ⟨by omega, hleft ▸ hcut⟩⟩
  · rw [hlength] at hle
    refine ⟨by omega, .inr ⟨by omega, ?_⟩⟩
    rw [hleft, hcut, ← bytes_succ, bytes_drop, hconsumed, textFrom, ← hn, Nat.add_sub_add_left]

theorem decodeAll_reads (hnul : utf nul = 0) (turns : ℕ) {src inLen : ℕ} (hle : src ≤ nul)
    (hlen : nul ≤ src + inLen) (hsize : inLen < 2 ^ 64)
    (hcut : ¬ CutShort (textFrom utf nul src)) :
    ∀ read ∈ (decodeAll utf turns src inLen).reads, read ≤ nul := by
  induction turns generalizing src inLen with
  | zero => exact nofun
  | succ turns ih =>
    rw [decodeAll]
    split
    · exact nofun
    split
    · simpa using hle
    · next hzero =>
      have hlt : src < nul := lt_of_le_of_ne hle fun heq => hzero (heq ▸ hnul)
      obtain ⟨hpos, ⟨-, hcut'⟩ | ⟨hnext, hcut'⟩⟩ := turn hnul hlt hlen
      · exact absurd hcut' hcut
      obtain ⟨n, hn⟩ : ∃ n, src + (n + 1) = nul := ⟨nul - src - 1, by omega⟩
      obtain ⟨-, hreads⟩ := lorieUtf8ToUCS4_spec hnul hn (by omega : n + 1 ≤ inLen)
      have hrest := ih hnext (by omega : nul ≤ _ + (inLen + 2 ^ 64 -
        (lorieUtf8ToUCS4 utf src inLen).consumed) % 2 ^ 64) (by omega) (hcut'.not.mp hcut)
      intro read hread
      rcases List.mem_cons.mp hread with rfl | hread
      · exact hle
      · exact (List.mem_append.mp hread).elim (hreads read) (hrest read)

theorem decodeAll_symbol {turns src inLen : ℕ} (hlen : inLen ≠ 0) (hzero : utf src ≠ 0) :
    decodeAll utf (turns + 1) src inLen =
      let d := lorieUtf8ToUCS4 utf src inLen
      let rest := decodeAll utf turns (src + d.consumed) ((inLen + 2 ^ 64 - d.consumed) % 2 ^ 64)
      ⟨d.dst :: rest.ucs, src :: (d.reads ++ rest.reads), rest.ended⟩ := by
  rw [decodeAll, if_neg hlen, if_neg hzero]

theorem decodeAll_reads_first {turns src inLen : ℕ} (hlen : inLen ≠ 0) :
    src ∈ (decodeAll utf (turns + 1) src inLen).reads := by
  rw [decodeAll, if_neg hlen]
  split <;> exact List.mem_cons_self

theorem decodeAll_nul {turns src inLen : ℕ} (hzero : utf src = 0) :
    (decodeAll utf turns src inLen).ucs = [] := by
  cases turns with
  | zero => rfl
  | succ turns =>
    rw [decodeAll, if_pos hzero]
    split <;> rfl

/-- The second loop goes the way of the first. -/
theorem decodeAll_length (hnul : utf nul = 0) (turns : ℕ) {src inLen inLen' : ℕ}
    (hle : src ≤ nul) (hlen : nul ≤ src + inLen) (hsize : inLen < 2 ^ 64)
    (hlen' : nul ≤ src + inLen') (hsize' : inLen' < 2 ^ 64)
    (hcut : ¬ CutShort (textFrom utf nul src)) :
    (decodeAll utf turns src inLen).ucs.length = (decodeAll utf turns src inLen').ucs.length := by
  induction turns generalizing src inLen inLen' with
  | zero => rfl
  | succ turns ih =>
    by_cases hzero : utf src = 0
    · rw [decodeAll_nul hzero, decodeAll_nul hzero]
    have hlt : src < nul := lt_of_le_of_ne hle fun heq => hzero (heq ▸ hnul)
    obtain ⟨n, hn⟩ : ∃ n, src + (n + 1) = nul := ⟨nul - src - 1, by omega⟩
    have hconsumed := (lorieUtf8ToUCS4_spec hnul hn (by omega : n + 1 ≤ inLen)).1
    have hconsumed' := (lorieUtf8ToUCS4_spec hnul hn (by omega : n + 1 ≤ inLen')).1
    obtain ⟨hpos, ⟨-, hcut'⟩ | ⟨hnext, hcut'⟩⟩ := turn hnul hlt hlen
    · exact absurd hcut' hcut
    rw [decodeAll_symbol (by omega) hzero, decodeAll_symbol (by omega) hzero]
    dsimp only [List.length_cons]
    rw [hconsumed'.trans hconsumed.symm]
    exact congrArg (· + 1)
      (ih hnext (by omega) (by omega) (by omega) (by omega) (hcut'.not.mp hcut))

theorem decodeAll_ended (hnul : utf nul = 0) {turns src inLen : ℕ} (hle : src ≤ nul)
    (hturns : nul - src < turns) (hlen : nul ≤ src + inLen) (hsize : inLen < 2 ^ 64)
    (hcut : ¬ CutShort (textFrom utf nul src)) :
    (decodeAll utf turns src inLen).ended = true := by
  induction turns generalizing src inLen with
  | zero => omega
  | succ turns ih =>
    rw [decodeAll]
    split
    · rfl
    split
    · rfl
    · next hzero =>
      have hlt : src < nul := lt_of_le_of_ne hle fun heq => hzero (heq ▸ hnul)
      obtain ⟨hpos, ⟨-, hcut'⟩ | ⟨hnext, hcut'⟩⟩ := turn hnul hlt hlen
      · exact absurd hcut' hcut
      exact ih hnext (by omega) (by omega) (by omega) (hcut'.not.mp hcut)

/-- A sequence without an end takes the NUL, and the next turn begins behind it. -/
theorem decodeAll_past (hnul : utf nul = 0) (htext : ∀ i < nul, utf (i : ℕ) ≠ 0)
    {src inLen : ℕ} (hle : src ≤ nul) (hlen : nul + 2 ≤ src + inLen) (hsize : inLen < 2 ^ 64)
    (hcut : CutShort (textFrom utf nul src)) :
    ∃ turns, nul + 1 ∈ (decodeAll utf turns src inLen).reads := by
  induction hn : nul - src using Nat.strong_induction_on generalizing src inLen with
  | _ n ih =>
  rcases Nat.lt_or_eq_of_le hle with hlt | rfl
  · have hinLen : inLen ≠ 0 := by omega
    have hzero := htext src hlt
    have hrest : ∃ turns, nul + 1 ∈ (decodeAll utf turns
        (src + (lorieUtf8ToUCS4 utf src inLen).consumed)
        ((inLen + 2 ^ 64 - (lorieUtf8ToUCS4 utf src inLen).consumed) % 2 ^ 64)).reads := by
      obtain ⟨hpos, ⟨hpast, -⟩ | ⟨hnext, hcut'⟩⟩ := turn hnul hlt (by omega : nul ≤ src + inLen)
      · rw [hpast]
        exact ⟨1, decodeAll_reads_first (by omega)⟩
      · exact ih _ (by omega) hnext (by omega) (by omega) (hcut'.mp hcut) rfl
    obtain ⟨turns, hread⟩ := hrest
    refine ⟨turns + 1, ?_⟩
    rw [decodeAll_symbol hinLen hzero]
    exact List.mem_cons_of_mem _ (List.mem_append_right _ hread)
  · rw [textFrom_end] at hcut
    exact absurd hcut not_cutShort_nil

end

/-! ### Both conversions -/

namespace ClipboardData

variable (t : ClipboardData)

theorem data_strlen : t.data t.strlen = 0 :=
  Nat.find_spec (p := fun i => t.data i = 0) ⟨t.count.toNat, t.ended⟩

theorem data_ne_zero {i : ℕ} (hi : i < t.strlen) : t.data i ≠ 0 :=
  Nat.find_min (p := fun i => t.data i = 0) ⟨t.count.toNat, t.ended⟩ hi

theorem strlen_lt : t.strlen < 2 ^ 32 :=
  lt_of_le_of_lt (Nat.find_min' _ t.ended) t.count.toNat_lt

end ClipboardData

/-- Every symbol has its place in `out`. -/
theorem lorieUtf8ToLatin1_inside (t : ClipboardData) (hcut : ¬ CutShort t.text) (turns : ℕ) :
    (lorieUtf8ToLatin1 t.data turns).Inside t.strlen := by
  have hnul := t.data_strlen
  have hlt := t.strlen_lt
  have hlen : t.strlen ≤ 0 + (2 ^ 64 - 1) := by omega
  have hlen' : t.strlen ≤ 0 + 4294967295 := by omega
  have hfirst := decodeAll_reads hnul turns (Nat.zero_le _) hlen (by omega) hcut
  have hsecond := decodeAll_reads hnul turns (Nat.zero_le _) hlen' (by omega) hcut
  have hlength := decodeAll_length hnul turns (Nat.zero_le _) hlen (by omega) hlen' (by omega)
    hcut
  rw [lorieUtf8ToLatin1]
  split
  · refine ⟨fun read hread => ?_, fun w hw => ?_⟩
    · exact (List.mem_append.mp hread).elim (hfirst read) (hsecond read)
    · obtain ⟨⟨c, position⟩, hmem, rfl⟩ := List.mem_map.mp hw
      have hposition := List.snd_lt_of_mem_zipIdx hmem
      simp only [List.length_map, ← hlength] at hposition
      exact Nat.lt_succ_of_lt hposition
  · exact ⟨hfirst, fun w hw => by cases hw⟩

/-- Enough turns for both loops. -/
theorem lorieUtf8ToLatin1_returns (t : ClipboardData) (hcut : ¬ CutShort t.text) :
    (lorieUtf8ToLatin1 t.data (t.strlen + 1)).result.isSome = true := by
  have hnul := t.data_strlen
  have hlt := t.strlen_lt
  have hended : ∀ inLen, t.strlen ≤ inLen → inLen < 2 ^ 64 →
      (decodeAll t.data (t.strlen + 1) 0 inLen).ended = true := fun inLen hlen hsize =>
    decodeAll_ended hnul (Nat.zero_le _) (by omega) (by omega) hsize hcut
  rw [lorieUtf8ToLatin1, if_pos (hended _ (by omega) (by omega))]
  dsimp only
  rw [if_pos (hended _ (by omega) (by omega))]
  rfl

/-- The first loop of a text that is cut short. -/
theorem lorieUtf8ToLatin1_past (t : ClipboardData) (hcut : CutShort t.text) :
    ∃ turns, t.strlen + 1 ∈ (lorieUtf8ToLatin1 t.data turns).reads := by
  have hlt := t.strlen_lt
  obtain ⟨turns, hread⟩ := decodeAll_past t.data_strlen (fun i hi => t.data_ne_zero hi)
    (Nat.zero_le _) (by omega : t.strlen + 2 ≤ 0 + (2 ^ 64 - 1)) (by omega) hcut
  refine ⟨turns, ?_⟩
  rw [lorieUtf8ToLatin1]
  split
  · exact List.mem_append_left _ hread
  · exact hread

/-- The check of a property and the conversion of a text stay inside if and only if the text does
not end where the next byte is still looked at. -/
theorem conversions_inside_iff (utf : ℤ → UInt8) (size : UInt32) (t : ClipboardData) :
    (Inside size (lorieCheckUTF8 utf size).1 ↔ ¬ CutOff (bytes utf 0 (limit size))) ∧
      ((∀ turns, (lorieUtf8ToLatin1 t.data turns).Inside t.strlen) ↔ ¬ CutShort t.text) := by
  refine ⟨lorieCheckUTF8_inside_iff utf size, fun h hcut => ?_, lorieUtf8ToLatin1_inside t⟩
  obtain ⟨turns, hread⟩ := lorieUtf8ToLatin1_past t hcut
  exact absurd ((h turns).1 _ hread) (by omega)

/-- A first byte, and the NUL that it takes for its second. -/
def halfSymbol : ClipboardData := ⟨fun i => if i = 0 then 0xc3 else 0, 1, by decide⟩

/-- A property `a` is read at index 1, and the text is read behind its NUL. -/
theorem reads_past : ¬ Inside 1 (lorieCheckUTF8 (fun _ => 0x61) 1).1 ∧
    ¬ (lorieUtf8ToLatin1 halfSymbol.data 3).Inside halfSymbol.strlen := by
  constructor
  · intro h
    have hread : (1 : ℤ) ∈ (lorieCheckUTF8 (fun _ => 0x61) 1).1 := by
      rw [lorieCheckUTF8, checkFrom_right (by decide) (by decide) rfl]
      exact List.mem_cons_of_mem _ (checkFrom_reads_first (fun _ => 0x61) 1 1)
    exact absurd (h 1 hread) (by decide)
  · intro h
    have hend : halfSymbol.strlen ≤ 1 := Nat.find_min' _ halfSymbol.ended
    exact absurd (h.1 2 (by decide)) (by omega)

end Lorie.Text
