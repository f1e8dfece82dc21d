/-
Keycodes for keysyms and for modifiers (`InputXKB.c`, lines 54 to 610).

A keysym is looked up in the modifiers as they are, then with Shift, the level three modifier or
both changed.  The modifier keys are found by their actions in the modifiers as they are.

`Option` stands for keycodes where 0 means that there is none.

* `lorieKeysymToKeycode`, `lorieGetLevelThreeMask` — where a keysym is;
* `loriePressShift`, `lorieReleaseShift` and the same of level three — what to fake;
* `…_inRange` — all of them stay in the keymap.
-/
import KaliGui.Keyboard.Keymap
import Mathlib.Data.Option.Basic

namespace Keyboard

/-! ### State -/

inductive Reason
  /-- the key itself -/
  | keycode
  | tempShift
  | tempLevelThree
  deriving DecidableEq, Repr

/-- A call of `QueueKeyboardEvents`, `KeyPress` or `KeyRelease`, with its comment. -/
structure KeyEvent where
  press : Bool
  keycode : ℕ
  reason : Reason
  deriving DecidableEq, Repr

structure AddedKeySym where
  keysym : KeySym
  keycode : ℕ
  deriving DecidableEq, Repr

structure State where
  xkb : XkbDesc
  /-- of the master's `XkbStateRec`, with all of `pending` processed -/
  lookupMods : BitVec 8
  group : BitVec 8
  /-- the keys of the master that are down -/
  down : ℕ → Bool
  /-- in the order of the list, the last used first -/
  addedKeysyms : List AddedKeySym := []
  pressedKeys : ℕ → KeySym := fun _ => noSymbol
  /-- the input queue -/
  pending : List KeyEvent := []
  /-- all that was ever put on it -/
  queued : List KeyEvent := []

/-- A keycode with the modifiers that it needs, `*new_state`. -/
structure Target where
  keycode : ℕ
  newState : BitVec 32

def lorieGetKeyboardState (s : State) : BitVec 32 := xkbBuildCoreState s.lookupMods s.group

/-! ### Keysyms -/

def fakeKeys : List ℕ := [92, 203, 204, 205, 206, 207]

def xkISOLevel3Shift : KeySym := 0xfe03
def xkModeSwitch : KeySym := 0xff7e
def xkNumLock : KeySym := 0xff7f
def xkTab : KeySym := 0xff09

/-- The keysym of a key, in upper case if it does not consume an active Lock. -/
def keysymOf (d : XkbDesc) (key : ℕ) (state : BitVec 32) : KeySym :=
  let (modsRtrn, ks) := xkbTranslateKeyCode d key state
  if ks ≠ noSymbol ∧ state &&& ~~~ modsRtrn &&& lockMask ≠ 0 then (xkbConvertCase ks).2 else ks

/-- The loop of `lorieKeysymToKeycode`. -/
def findKeycode (d : XkbDesc) (keysym : KeySym) (state : BitVec 32) :
    List ℕ → Option ℕ → Option ℕ
  | [], fallback => fallback
  | key :: keys, fallback =>
    if (xkbTranslateKeyCode d key state).2 = noSymbol ∨ keysymOf d key state ≠ keysym then
      findKeycode d keysym state keys fallback
    else if key ∈ fakeKeys then findKeycode d keysym state keys (fallback <|> some key)
    else some key

/-- `lorieKeysymToKeycode` with `NULL` for `new_state`. -/
def lorieKeysymToKeycodeIn (d : XkbDesc) (keysym : KeySym) (state : BitVec 32) : Option ℕ :=
  findKeycode d keysym state d.keyCodes none

/-- The modifiers that a key sets or locks when it is pressed. -/
def XkbDesc.modsOf (type : ActionType) (d : XkbDesc) (key : ℕ) (state : BitVec 32) :
    Option (BitVec 8) :=
  match xkbKeyActionPtr d key state with
  | none => none
  | some act => if act.type = type then some (d.actionMods key act) else none

/-- The key for level three shifts, by its keysym. -/
def levelThreeKeycode (d : XkbDesc) (state : BitVec 32) : Option ℕ :=
  lorieKeysymToKeycodeIn d xkISOLevel3Shift state <|> lorieKeysymToKeycodeIn d xkModeSwitch state

def lorieGetLevelThreeMask (s : State) : BitVec 32 :=
  -- the group counts, the modifiers do not
  let state := lorieGetKeyboardState s &&& ~~~ 0xff
  match levelThreeKeycode s.xkb state with
  | none => 0
  | some keycode => ((s.xkb.modsOf .setMods keycode state).getD 0).setWidth 32

/-- A state without the mask if it has any of it, and with it if not. -/
def toggle (state mask : BitVec 32) : BitVec 32 :=
  state &&& ~~~ mask ||| if state &&& mask ≠ 0 then 0 else mask

/-- A lookup with the state that it is for. -/
def findTarget (d : XkbDesc) (keysym : KeySym) (state : BitVec 32) : Option Target :=
  (lorieKeysymToKeycodeIn d keysym state).map fun key => ⟨key, state⟩

/-- Both changes at once; the level three mask may have Shift in it. -/
def toggleBoth (state mask : BitVec 32) : BitVec 32 :=
  state &&& ~~~ (shiftMask ||| mask) ||| (if state &&& shiftMask ≠ 0 then 0 else shiftMask) |||
    if state &&& mask ≠ 0 then 0 else mask

def lorieKeysymToKeycode (s : State) (keysym : KeySym) (state : BitVec 32) : Option Target :=
  let mask := lorieGetLevelThreeMask s
  findTarget s.xkb keysym state <|> findTarget s.xkb keysym (toggle state shiftMask) <|>
    if mask = 0 then none
    else findTarget s.xkb keysym (toggle state mask) <|>
      findTarget s.xkb keysym (toggleBoth state mask)

/-! ### Modifier keys -/

def loriePressShift (s : State) : Option ℕ :=
  let state := lorieGetKeyboardState s
  if state &&& shiftMask ≠ 0 then none
  else s.xkb.keyCodes.find? fun key =>
    ∃ mods ∈ s.xkb.modsOf .setMods key state, mods.setWidth 32 &&& shiftMask = shiftMask

/-- The keys to release for a mask, if there are no more than `maxKeys`. -/
def releaseKeys (s : State) (mask : BitVec 32) (maxKeys : ℕ) : List ℕ :=
  let state := lorieGetKeyboardState s
  if state &&& mask = 0 then []
  else
    let keys := s.xkb.keyCodes.filter fun key =>
      s.down key ∧ ∃ mods ∈ s.xkb.modsOf .setMods key state, mods.setWidth 32 &&& mask ≠ 0
    if maxKeys < keys.length then [] else keys

def lorieReleaseShift (s : State) (maxKeys : ℕ) : List ℕ := releaseKeys s shiftMask maxKeys

def loriePressLevelThree (s : State) : Option ℕ :=
  let mask := lorieGetLevelThreeMask s
  let state := lorieGetKeyboardState s
  if mask = 0 ∨ state &&& mask ≠ 0 then none
  else (levelThreeKeycode s.xkb state).filter fun keycode =>
    (s.xkb.modsOf .setMods keycode state).isSome

def lorieReleaseLevelThree (s : State) (maxKeys : ℕ) : List ℕ :=
  releaseKeys s (lorieGetLevelThreeMask s) maxKeys

def lorieIsAffectedByNumLock (s : State) (keycode : ℕ) : Bool :=
  let state := lorieGetKeyboardState s &&& ~~~ 0xff
  match lorieKeysymToKeycodeIn s.xkb xkNumLock state with
  | none => false
  | some numlockKeycode =>
    match xkbKeyActionPtr s.xkb numlockKeycode state with
    | none => false
    | some act =>
      if act.type ≠ .lockMods then false
      else
        -- the modifier map of the key asked about, not of the NumLock key
        let numlockMask := s.xkb.actionMods keycode act
        let type := s.xkb.keyType keycode (xkbKeyEffectiveGroup s.xkb keycode state)
        type.mods &&& numlockMask ≠ 0

/-! ### What the lookups return -/

theorem xkbConvertCase_ne_noSymbol {sym : KeySym} (h : sym ≠ noSymbol) :
    (xkbConvertCase sym).2 ≠ noSymbol := by
  rw [xkbConvertCase]
  split
  · exact h
  · split
    next r hr =>
      have hupper : ∀ r ∈ caseRanges, 0 < r.upper := by decide
      have hpos := hupper r (List.mem_of_find?_eq_some hr)
      exact Nat.ne_of_gt (Nat.add_pos_right _ hpos)
    next => exact h

theorem keysymOf_ne_noSymbol {d : XkbDesc} {key : ℕ} {state : BitVec 32}
    (h : (xkbTranslateKeyCode d key state).2 ≠ noSymbol) : keysymOf d key state ≠ noSymbol := by
  have hcase := xkbConvertCase_ne_noSymbol h
  simp only [keysymOf]
  split
  · exact hcase
  · exact h

theorem findKeycode_eq_some {d : XkbDesc} {keysym : KeySym} {state : BitVec 32} {keys : List ℕ}
    {fallback : Option ℕ} {key : ℕ} (h : findKeycode d keysym state keys fallback = some key) :
    fallback = some key ∨
      key ∈ keys ∧ (xkbTranslateKeyCode d key state).2 ≠ noSymbol ∧
        keysymOf d key state = keysym := by
  induction keys generalizing fallback with
  | nil => exact .inl h
  | cons k keys ih =>
    rw [findKeycode] at h
    split at h
    · rcases ih h with hfallback | ⟨hmem, hkey⟩
      · exact .inl hfallback
      · exact .inr ⟨List.mem_cons_of_mem _ hmem, hkey⟩
    next hk =>
      obtain ⟨hsymbol, hkeysym⟩ := not_or.mp hk
      have hthis := And.intro hsymbol (not_not.mp hkeysym)
      split at h
      · rcases ih h with hfallback | ⟨hmem, hkey⟩
        · rcases fallback with _ | f
          · have heq : k = key := Option.some_inj.mp hfallback
            rw [← heq]
            exact .inr ⟨List.mem_cons_self, hthis⟩
          · exact .inl hfallback
        · exact .inr ⟨List.mem_cons_of_mem _ hmem, hkey⟩
      · cases h
        exact .inr ⟨List.mem_cons_self, hthis⟩

/-- A keycode that is found is in the keymap, and has the keysym in that state. -/
theorem lorieKeysymToKeycodeIn_eq_some {d : XkbDesc} {keysym : KeySym} {state : BitVec 32}
    {key : ℕ} (h : lorieKeysymToKeycodeIn d keysym state = some key) :
    d.InRange key ∧ keysym ≠ noSymbol ∧ keysymOf d key state = keysym := by
  rcases findKeycode_eq_some h with hnone | ⟨hmem, hsymbol, hkeysym⟩
  · cases hnone
  · refine ⟨XkbDesc.mem_keyCodes.mp hmem, ?_, hkeysym⟩
    rw [← hkeysym]
    exact keysymOf_ne_noSymbol hsymbol

theorem findTarget_eq_some {d : XkbDesc} {keysym : KeySym} {state : BitVec 32} {t : Target}
    (h : findTarget d keysym state = some t) :
    d.InRange t.keycode ∧ keysym ≠ noSymbol ∧ keysymOf d t.keycode t.newState = keysym := by
  obtain ⟨key, hkey, rfl⟩ := Option.map_eq_some_iff.mp h
  exact lorieKeysymToKeycodeIn_eq_some hkey

theorem lorieKeysymToKeycode_eq_some {s : State} {keysym : KeySym} {state : BitVec 32}
    {t : Target} (h : lorieKeysymToKeycode s keysym state = some t) :
    s.xkb.InRange t.keycode ∧ keysym ≠ noSymbol ∧
      keysymOf s.xkb t.keycode t.newState = keysym := by
  rcases (Option.orElse_eq_some _ _ _).mp h with h | ⟨-, h⟩
  · exact findTarget_eq_some h
  · rcases (Option.orElse_eq_some _ _ _).mp h with h | ⟨-, h⟩
    · exact findTarget_eq_some h
    · split at h
      · cases h
      · rcases (Option.orElse_eq_some _ _ _).mp h with h | ⟨-, h⟩
        · exact findTarget_eq_some h
        · exact findTarget_eq_some h

theorem loriePressShift_inRange {s : State} {key : ℕ} (h : loriePressShift s = some key) :
    s.xkb.InRange key := by
  rw [loriePressShift] at h
  split at h
  · cases h
  · exact XkbDesc.mem_keyCodes.mp (List.mem_of_find?_eq_some h)

theorem loriePressLevelThree_inRange {s : State} {key : ℕ}
    (h : loriePressLevelThree s = some key) : s.xkb.InRange key := by
  rw [loriePressLevelThree] at h
  split at h
  · cases h
  · obtain ⟨hkey, -⟩ := Option.filter_eq_some_iff.mp h
    rw [levelThreeKeycode] at hkey
    rcases (Option.orElse_eq_some _ _ _).mp hkey with hkey | ⟨-, hkey⟩
    · exact (lorieKeysymToKeycodeIn_eq_some hkey).1
    · exact (lorieKeysymToKeycodeIn_eq_some hkey).1

/-- Only keys that are down are released. -/
theorem mem_releaseKeys {s : State} {mask : BitVec 32} {maxKeys key : ℕ}
    (h : key ∈ releaseKeys s mask maxKeys) : s.xkb.InRange key ∧ s.down key = true := by
  rw [releaseKeys] at h
  split at h
  · cases h
  · dsimp only at h
    split at h
    · cases h
    · obtain ⟨hmem, hkey⟩ := List.mem_filter.mp h
      exact ⟨XkbDesc.mem_keyCodes.mp hmem, (of_decide_eq_true hkey).1⟩

end Keyboard
