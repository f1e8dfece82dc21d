/-
An XKB keymap, as far as the keysym code of `InputXKB.c` reads and changes it
(`xkbstr.h`, `XKBMisc.c`, `xkbUtils.c`).

A key has groups, and in each a type that turns the modifiers into a level; group and level
select its symbol and its action.  The symbols and actions of a key are kept with the key and
not as offsets into common arrays.

* `xkbTranslateKeyCode`, `xkbKeyActionPtr`, `xkbKeyEffectiveGroup` — the lookups;
* `xkbConvertCase` — the cases of a keysym;
* `xkbChangeTypesOfKey` — a key is given one group.
-/
import Mathlib.Data.Nat.Notation
import Mathlib.Logic.Function.Basic

namespace Keyboard

/-! ### Data -/

abbrev KeySym := ℕ

def noSymbol : KeySym := 0

def shiftMask : BitVec 32 := 0x01

def lockMask : BitVec 32 := 0x02

structure KTMapEntry where
  active : Bool
  level : ℕ
  mods : BitVec 8
  /-- what the `preserve` array of the type has beside it; 0 without one -/
  preserve : BitVec 8 := 0

structure KeyType where
  mods : BitVec 8 := 0
  numLevels : ℕ := 1
  map : List KTMapEntry := []

inductive ActionType
  | setMods
  | lockMods
  | other
  deriving DecidableEq, Repr

structure Action where
  type : ActionType := .other
  /-- `flags & XkbSA_UseModMapMods` -/
  useModMapMods : Bool := false
  mask : BitVec 8 := 0
  deriving DecidableEq

/-- The `XkbSymMapRec` of a key, with its symbols and, if it has any, its actions. -/
structure Key where
  ktIndex : ℕ → ℕ := fun _ => 0
  groupInfo : BitVec 8 := 0
  width : ℕ := 0
  syms : List KeySym := []
  acts : Option (List Action) := none

structure XkbDesc where
  minKeyCode : ℕ
  maxKeyCode : ℕ
  types : List KeyType
  keys : ℕ → Key
  modmap : ℕ → BitVec 8
  /-- the names of the keys, if the keymap has names -/
  names : Option (ℕ → List Char)
  legal : 8 ≤ minKeyCode ∧ minKeyCode ≤ maxKeyCode ∧ maxKeyCode ≤ 255

/-- The keycodes in the order of the loops over them. -/
def XkbDesc.keyCodes (d : XkbDesc) : List ℕ :=
  List.range' d.minKeyCode (d.maxKeyCode + 1 - d.minKeyCode)

/-- `XkbKeycodeInRange` -/
def XkbDesc.InRange (d : XkbDesc) (key : ℕ) : Prop :=
  d.minKeyCode ≤ key ∧ key ≤ d.maxKeyCode

instance (d : XkbDesc) (key : ℕ) : Decidable (d.InRange key) :=
  inferInstanceAs (Decidable (_ ∧ _))

/-- `XkbBuildCoreState` -/
def xkbBuildCoreState (mods group : BitVec 8) : BitVec 32 :=
  (group.setWidth 32 &&& 0x3) <<< 13 ||| mods.setWidth 32

/-- `XkbGroupForCoreState` -/
def xkbGroupForCoreState (state : BitVec 32) : ℕ := (state >>> 13 &&& 0x3).toNat

/-- `XkbKeyNumGroups` -/
def Key.numGroups (k : Key) : ℕ := (k.groupInfo &&& 0x0f).toNat

/-- `XkbKeyKeyType` -/
def XkbDesc.keyType (d : XkbDesc) (key group : ℕ) : KeyType :=
  d.types.getD ((d.keys key).ktIndex (group % 4)) {}

/-! ### Lookups -/

/-- The group of the state, brought into the groups of the key. -/
def Key.effectiveGroup (k : Key) (mods : BitVec 32) : ℕ :=
  let group := xkbGroupForCoreState mods
  if group < k.numGroups then group
  else if k.groupInfo &&& 0xc0 = 0x40 then k.numGroups - 1
  else if k.groupInfo &&& 0xc0 = 0x80 then
    let redirect := (k.groupInfo &&& 0x30) >>> 4
    if redirect.toNat < k.numGroups then redirect.toNat else 0
  else group % k.numGroups

/-- The first active entry for the modifiers. -/
def KeyType.entry (t : KeyType) (mods : BitVec 32) : Option KTMapEntry :=
  t.map.find? fun e => e.active ∧ mods &&& t.mods.setWidth 32 = e.mods.setWidth 32

/-- The column of the symbols and actions of a key. -/
def XkbDesc.column (d : XkbDesc) (key : ℕ) (mods : BitVec 32) : ℕ :=
  let group := (d.keys key).effectiveGroup mods
  group * (d.keys key).width + (((d.keyType key group).entry mods).map (·.level)).getD 0

/-- `*mods_rtrn` and `*keysym_rtrn` -/
def xkbTranslateKeyCode (d : XkbDesc) (key : ℕ) (mods : BitVec 32) : BitVec 32 × KeySym :=
  let k := d.keys key
  if ¬ d.InRange key ∨ k.numGroups = 0 then (0, noSymbol)
  else
    let type := d.keyType key (k.effectiveGroup mods)
    let preserve := ((type.entry mods).map (·.preserve)).getD 0
    (type.mods.setWidth 32 &&& ~~~ preserve.setWidth 32,
      k.syms.getD (d.column key mods) noSymbol)

def xkbKeyActionPtr (d : XkbDesc) (key : ℕ) (mods : BitVec 32) : Option Action :=
  match (d.keys key).acts with
  | none => none
  | some acts =>
    if ¬ d.InRange key ∨ (d.keys key).numGroups = 0 then none
    else some (acts.getD (d.column key mods) {})

def xkbKeyEffectiveGroup (d : XkbDesc) (key : ℕ) (mods : BitVec 32) : ℕ :=
  if ¬ d.InRange key ∨ (d.keys key).numGroups = 0 then 0
  else (d.keys key).effectiveGroup mods

/-- The modifiers of an action of a key. -/
def XkbDesc.actionMods (d : XkbDesc) (key : ℕ) (act : Action) : BitVec 8 :=
  if act.useModMapMods then d.modmap key else act.mask

/-! ### Cases -/

/-- Upper and lower case keysyms in the same order; `except` are lower case without upper. -/
structure CaseRange where
  upper : KeySym
  lower : KeySym
  length : ℕ
  except : List KeySym := []

def caseRanges : List CaseRange :=
  [ -- Latin 1
    ⟨0x41, 0x61, 26, []⟩, ⟨0xc0, 0xe0, 23, []⟩, ⟨0xd8, 0xf8, 7, []⟩,
    -- Latin 2
    ⟨0x1a1, 0x1b1, 1, []⟩, ⟨0x1a3, 0x1b3, 4, []⟩, ⟨0x1a9, 0x1b9, 4, []⟩,
    ⟨0x1ae, 0x1be, 2, []⟩, ⟨0x1c0, 0x1e0, 31, []⟩,
    -- Latin 3
    ⟨0x2a1, 0x2b1, 6, []⟩, ⟨0x2ab, 0x2bb, 2, []⟩, ⟨0x2c5, 0x2e5, 26, []⟩,
    -- Latin 4
    ⟨0x3a3, 0x3b3, 10, []⟩, ⟨0x3bd, 0x3bf, 1, []⟩, ⟨0x3c0, 0x3e0, 31, []⟩,
    -- Cyrillic
    ⟨0x6b1, 0x6a1, 15, []⟩, ⟨0x6e0, 0x6c0, 32, []⟩,
    -- Greek
    ⟨0x7a1, 0x7b1, 11, [0x7b6, 0x7ba]⟩, ⟨0x7c1, 0x7e1, 25, [0x7f3]⟩]

/-- `*lower` and `*upper` -/
def xkbConvertCase (sym : KeySym) : KeySym × KeySym :=
  match caseRanges.find? fun r => r.upper ≤ sym ∧ sym < r.upper + r.length with
  | some r => (sym - r.upper + r.lower, sym)
  | none =>
    match caseRanges.find? fun r =>
        r.lower ≤ sym ∧ sym < r.lower + r.length ∧ sym ∉ r.except with
    | some r => (sym, sym - r.lower + r.upper)
    | none => (sym, sym)

/-! ### Changes -/

/-- The first entries of a row, at the head of a wider or narrower row of zeros. -/
def resizeRow {α : Type} (zero : α) (row : List α) (copied width : ℕ) : List α :=
  let kept := (row.take copied).take width
  kept ++ List.replicate (width - kept.length) zero

/-- `XkbChangeTypesOfKey` for one group, with the type `newType`. -/
def xkbChangeTypesOfKey (d : XkbDesc) (key newType : ℕ) : XkbDesc :=
  if ¬ d.InRange key ∨ d.types.length < newType then d
  else
    let k := d.keys key
    let type := d.types.getD newType {}
    let copied := min (d.keyType key 0).numLevels type.numLevels
    let k' : Key :=
      if k.numGroups = 0 then
        { k with syms := List.replicate type.numLevels noSymbol }
      else if type.numLevels ≠ k.width ∨ k.numGroups ≠ 1 then
        { k with
          syms := resizeRow noSymbol k.syms copied type.numLevels
          acts := k.acts.map fun acts => resizeRow {} acts copied type.numLevels }
      else k
    { d with
      keys := Function.update d.keys key { k' with
        ktIndex := Function.update k.ktIndex 0 newType
        groupInfo := k.groupInfo &&& 0xf0 ||| 1
        width := type.numLevels } }

/-! ### Facts about keymaps -/

/-- The largest range of keycodes. -/
theorem allKeyCodes_legal : 8 ≤ 8 ∧ 8 ≤ 255 ∧ 255 ≤ 255 := by decide

theorem XkbDesc.mem_keyCodes {d : XkbDesc} {key : ℕ} : key ∈ d.keyCodes ↔ d.InRange key := by
  rw [keyCodes, List.mem_range'_1, InRange]
  omega

theorem XkbDesc.InRange.legal {d : XkbDesc} {key : ℕ} (h : d.InRange key) :
    8 ≤ key ∧ key ≤ 255 := by
  have hlegal := d.legal
  rw [InRange] at h
  omega

end Keyboard
