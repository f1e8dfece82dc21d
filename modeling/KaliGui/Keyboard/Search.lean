/-
What the keysym lookups find (`lorieKeysymToKeycode`, `lorieIsAffectedByNumLock`,
`lorieGetLockKeyModMask`).

A keysym is looked for in four states, each with more changes than the one before it, and in
each of them on the keys in order, the keys that are never sent last.

* `findKeycode_eq`, `lorieKeysymToKeycode_eq` — the loops as two searches of lists;
* `keysym_search` — what is found is there, and nothing that is there is missed;
* `numLock_agrees_iff` — when the two ways to resolve NumLock agree.
-/
import KaliGui.Keyboard.KeysymEvent

namespace Keyboard

/-! ### Keys -/

/-- A key of the keymap has the keysym in the state. -/
def Yields (d : XkbDesc) (keysym : KeySym) (state : BitVec 32) (key : ℕ) : Prop :=
  d.InRange key ∧ keysymOf d key state = keysym

theorem keysymOf_eq_iff {d : XkbDesc} {key : ℕ} {state : BitVec 32} {keysym : KeySym}
    (h : keysym ≠ noSymbol) :
    (xkbTranslateKeyCode d key state).2 = noSymbol ∨ keysymOf d key state ≠ keysym ↔
      keysymOf d key state ≠ keysym := by
  refine or_iff_right_of_imp fun hnone heq => h ?_
  have hcase : keysymOf d key state = (xkbTranslateKeyCode d key state).2 := by
    simp only [keysymOf]
    rw [if_neg fun hlock => hlock.1 hnone]
  rw [← heq, hcase, hnone]

/-- The first key that is no fake key, or else the first key. -/
theorem findKeycode_eq {d : XkbDesc} {keysym : KeySym} {state : BitVec 32}
    (h : keysym ≠ noSymbol) (keys : List ℕ) (fallback : Option ℕ) :
    findKeycode d keysym state keys fallback =
      (keys.find? fun key => keysymOf d key state = keysym ∧ key ∉ fakeKeys).or
        (fallback.or (keys.find? fun key => keysymOf d key state = keysym)) := by
  induction keys generalizing fallback with
  | nil => rw [findKeycode, List.find?_nil, List.find?_nil, Option.none_or, Option.or_none]
  | cons key keys ih =>
    have hskip := @keysymOf_eq_iff d key state _ h
    rw [findKeycode]
    by_cases hkey : keysymOf d key state = keysym
    · by_cases hfake : key ∈ fakeKeys
      · rw [if_neg fun hno => hskip.mp hno hkey, if_pos hfake, ih,
          List.find?_cons_of_neg (by simp [hfake]), List.find?_cons_of_pos (by simp [hkey])]
        rcases fallback with _ | f
        · rfl
        · rfl
      · rw [if_neg fun hno => hskip.mp hno hkey, if_neg hfake,
          List.find?_cons_of_pos (by simp [hkey, hfake]), Option.some_or]
    · rw [if_pos (hskip.mpr hkey), ih, List.find?_cons_of_neg (by simp [hkey]),
        List.find?_cons_of_neg (by simp [hkey])]

theorem lorieKeysymToKeycodeIn_eq_none {d : XkbDesc} {keysym : KeySym} {state : BitVec 32}
    (h : keysym ≠ noSymbol) :
    lorieKeysymToKeycodeIn d keysym state = none ↔ ∀ key, ¬ Yields d keysym state key := by
  rw [lorieKeysymToKeycodeIn, findKeycode_eq h, Option.none_or, Option.or_eq_none_iff,
    List.find?_eq_none, List.find?_eq_none]
  constructor
  · rintro ⟨-, hnone⟩ key ⟨hrange, hkey⟩
    exact hnone key (XkbDesc.mem_keyCodes.mpr hrange) (decide_eq_true hkey)
  · refine fun hnone => ⟨fun key hmem hkey => ?_, fun key hmem hkey => ?_⟩
    · exact hnone key ⟨XkbDesc.mem_keyCodes.mp hmem, (of_decide_eq_true hkey).1⟩
    · exact hnone key ⟨XkbDesc.mem_keyCodes.mp hmem, of_decide_eq_true hkey⟩

/-- A fake key is found if all keys with the keysym are. -/
theorem lorieKeysymToKeycodeIn_fake {d : XkbDesc} {keysym : KeySym} {state : BitVec 32}
    {key : ℕ} (h : keysym ≠ noSymbol) (hfound : lorieKeysymToKeycodeIn d keysym state = some key)
    (hfake : key ∈ fakeKeys) {other : ℕ} (hother : Yields d keysym state other) :
    other ∈ fakeKeys := by
  rw [lorieKeysymToKeycodeIn, findKeycode_eq h, Option.none_or] at hfound
  cases hreal : d.keyCodes.find? fun key => keysymOf d key state = keysym ∧ key ∉ fakeKeys with
  | some k =>
    rw [hreal, Option.some_or, Option.some_inj] at hfound
    have hk := List.find?_some hreal
    rw [decide_eq_true_eq, hfound] at hk
    exact absurd hfake hk.2
  | none =>
    by_contra hnot
    have hmem := XkbDesc.mem_keyCodes.mpr hother.1
    exact List.find?_eq_none.mp hreal other hmem (decide_eq_true ⟨hother.2, hnot⟩)

/-! ### States -/

/-- The states in which a keysym is looked for. -/
def variants (state mask : BitVec 32) : List (BitVec 32) :=
  [state, toggle state shiftMask, toggle state mask, toggleBoth state mask]

theorem toggle_zero (state : BitVec 32) : toggle state 0 = state := by
  have hnot : (~~~ (0 : BitVec 32)) = BitVec.allOnes 32 := rfl
  rw [toggle, ite_self, hnot, BitVec.and_allOnes]
  exact BitVec.or_zero

theorem toggleBoth_zero (state : BitVec 32) : toggleBoth state 0 = toggle state shiftMask := by
  rw [toggleBoth, toggle, ite_self]
  exact BitVec.or_zero

/-- Without a mask for level three the last two states are the first two again. -/
theorem lorieKeysymToKeycode_eq (s : State) (keysym : KeySym) (state : BitVec 32) :
    lorieKeysymToKeycode s keysym state =
      (variants state (lorieGetLevelThreeMask s)).findSome? (findTarget s.xkb keysym) := by
  rw [lorieKeysymToKeycode, variants]
  by_cases hmask : lorieGetLevelThreeMask s = 0
  · rw [hmask, toggle_zero, toggleBoth_zero]
    simp only [List.findSome?_cons, List.findSome?_nil]
    rcases findTarget s.xkb keysym state with _ | t
    · rcases findTarget s.xkb keysym (toggle state shiftMask) with _ | t <;> rfl
    · rfl
  · simp only [List.findSome?_cons, List.findSome?_nil, if_neg hmask]
    rcases findTarget s.xkb keysym state with _ | t
    · rcases findTarget s.xkb keysym (toggle state shiftMask) with _ | t
      · rcases findTarget s.xkb keysym (toggle state (lorieGetLevelThreeMask s)) with _ | t
        · rcases findTarget s.xkb keysym (toggleBoth state (lorieGetLevelThreeMask s)) with
            _ | t <;> rfl
        · rfl
      · rfl
    · rfl

/-- A change that stays within a mask. -/
theorem outside_eq {state part mask new : BitVec 32} (hpart : part ||| mask = mask)
    (hnew : new &&& ~~~ mask = 0) :
    (state &&& ~~~ part ||| new) &&& ~~~ mask = state &&& ~~~ mask := by
  rw [BitVec.and_or_distrib_right, hnew, BitVec.and_assoc, ← BitVec.not_or, hpart]
  exact BitVec.or_zero

theorem ite_outside {c : Prop} [Decidable c] {part mask : BitVec 32} (h : part ||| mask = mask) :
    (if c then 0 else part) &&& ~~~ mask = 0 := by
  split
  · exact BitVec.zero_and
  · rw [← h, BitVec.not_or, ← BitVec.and_assoc, BitVec.and_not_self]
    exact BitVec.zero_and

theorem variants_outside {state mask v : BitVec 32} (h : v ∈ variants state mask) :
    v &&& ~~~ (shiftMask ||| mask) = state &&& ~~~ (shiftMask ||| mask) := by
  have hshift : shiftMask ||| (shiftMask ||| mask) = shiftMask ||| mask := by
    rw [← BitVec.or_assoc, BitVec.or_self]
  have hmask : mask ||| (shiftMask ||| mask) = shiftMask ||| mask := by
    rw [BitVec.or_comm, BitVec.or_assoc, BitVec.or_self]
  simp only [variants, List.mem_cons, List.not_mem_nil, or_false] at h
  rcases h with rfl | rfl | rfl | rfl
  · rfl
  · exact outside_eq hshift (ite_outside hshift)
  · exact outside_eq hmask (ite_outside hmask)
  · rw [toggleBoth, BitVec.or_assoc]
    refine outside_eq BitVec.or_self ?_
    rw [BitVec.and_or_distrib_right, ite_outside hshift, ite_outside hmask]
    exact BitVec.or_zero

/-! ### What is found -/

/-- The key has the keysym in the first state that has it on any key, and the states differ in
Shift and level three only.  It is a fake key if there is no other. -/
structure Found (s : State) (keysym : KeySym) (state : BitVec 32) (t : Target) : Prop where
  yields : Yields s.xkb keysym t.newState t.keycode
  first : ∃ before after,
    variants state (lorieGetLevelThreeMask s) = before ++ t.newState :: after ∧
      ∀ v ∈ before, ∀ key, ¬ Yields s.xkb keysym v key
  outside : t.newState &&& ~~~ (shiftMask ||| lorieGetLevelThreeMask s) =
    state &&& ~~~ (shiftMask ||| lorieGetLevelThreeMask s)
  fake : t.keycode ∈ fakeKeys → ∀ key, Yields s.xkb keysym t.newState key → key ∈ fakeKeys

theorem findTarget_eq_none {d : XkbDesc} {keysym : KeySym} {state : BitVec 32}
    (h : keysym ≠ noSymbol) :
    findTarget d keysym state = none ↔ ∀ key, ¬ Yields d keysym state key := by
  rw [findTarget, Option.map_eq_none_iff, lorieKeysymToKeycodeIn_eq_none h]

/-- A keysym is found if and only if it is there, where it takes the fewest changes. -/
theorem keysym_search {keysym : KeySym} (h : keysym ≠ noSymbol) (s : State)
    (state : BitVec 32) :
    (∀ t, lorieKeysymToKeycode s keysym state = some t → Found s keysym state t) ∧
      (lorieKeysymToKeycode s keysym state = none ↔
        ∀ v ∈ variants state (lorieGetLevelThreeMask s), ∀ key, ¬ Yields s.xkb keysym v key) := by
  rw [lorieKeysymToKeycode_eq]
  refine ⟨fun t ht => ?_, ?_⟩
  · obtain ⟨before, v, after, hvariants, hfound, hbefore⟩ := List.findSome?_eq_some_iff.mp ht
    obtain ⟨key, hkey, rfl⟩ := Option.map_eq_some_iff.mp hfound
    obtain ⟨hrange, -, hkeysym⟩ := lorieKeysymToKeycodeIn_eq_some hkey
    have hv : v ∈ variants state (lorieGetLevelThreeMask s) := by
      rw [hvariants]
      exact List.mem_append_right _ List.mem_cons_self
    refine ⟨⟨hrange, hkeysym⟩, ⟨before, after, hvariants, fun w hw => ?_⟩, variants_outside hv,
      fun hfake other hother => lorieKeysymToKeycodeIn_fake h hkey hfake hother⟩
    exact (findTarget_eq_none h).mp (hbefore w hw)
  · rw [List.findSome?_eq_none_iff]
    exact forall₂_congr fun v _ => findTarget_eq_none h

/-- A Q takes Shift. -/
theorem fourLevels_search : ∃ t,
    lorieKeysymToKeycode { levelThreeLocked with lookupMods := 0 } 0x51 0 = some t ∧
      t.keycode = 24 ∧ t.newState = shiftMask ∧ Yields fourLevels 0x51 shiftMask 24 := by
  have hfound : (lorieKeysymToKeycode { levelThreeLocked with lookupMods := 0 } 0x51 0).map
      (fun t => (t.keycode, t.newState)) = some (24, shiftMask) := by decide +kernel
  obtain ⟨t, ht, heq⟩ := Option.map_eq_some_iff.mp hfound
  obtain ⟨hkey, hstate⟩ := Prod.mk.inj heq
  have hyields :=
    ((keysym_search (by decide) { levelThreeLocked with lookupMods := 0 } 0).1 t ht).yields
  rw [hkey, hstate] at hyields
  exact ⟨t, ht, hkey, hstate, hyields⟩

/-! ### NumLock -/

/-- The modifiers that a press of a lock key would lock. -/
def lorieGetLockKeyModMask (s : State) (sym : KeySym) : BitVec 8 :=
  let state := lorieGetKeyboardState s &&& ~~~ 0xff
  match lorieKeysymToKeycodeIn s.xkb sym state with
  | none => 0
  | some keycode => (s.xkb.modsOf .lockMods keycode state).getD 0

/-- The modifiers of a key's type in its effective group. -/
def typeMods (s : State) (keycode : ℕ) : BitVec 8 :=
  (s.xkb.keyType keycode
    (xkbKeyEffectiveGroup s.xkb keycode (lorieGetKeyboardState s &&& ~~~ 0xff))).mods

/-- The NumLock key and its action, if it locks modifiers. -/
def NumLockAction (s : State) (numlockKeycode : ℕ) (act : Action) : Prop :=
  lorieKeysymToKeycodeIn s.xkb xkNumLock (lorieGetKeyboardState s &&& ~~~ 0xff) =
      some numlockKeycode ∧
    xkbKeyActionPtr s.xkb numlockKeycode (lorieGetKeyboardState s &&& ~~~ 0xff) = some act ∧
    act.type = .lockMods

theorem lorieIsAffectedByNumLock_iff (s : State) (keycode : ℕ) :
    lorieIsAffectedByNumLock s keycode = true ↔ ∃ numlockKeycode act,
      NumLockAction s numlockKeycode act ∧
        typeMods s keycode &&& s.xkb.actionMods keycode act ≠ 0 := by
  rw [lorieIsAffectedByNumLock]
  dsimp only
  constructor
  · intro h
    split at h
    · cases h
    next n hn =>
      split at h
      · cases h
      next act hact =>
        split at h
        · cases h
        next hlock => exact ⟨n, act, ⟨hn, hact, not_not.mp hlock⟩, of_decide_eq_true h⟩
  · rintro ⟨n, act, ⟨hn, hact, hlock⟩, hmods⟩
    rw [hn]
    dsimp only
    rw [hact]
    dsimp only
    rw [if_neg (not_not.mpr hlock)]
    exact decide_eq_true hmods

theorem lorieGetLockKeyModMask_iff (s : State) (keycode : ℕ) :
    typeMods s keycode &&& lorieGetLockKeyModMask s xkNumLock ≠ 0 ↔ ∃ numlockKeycode act,
      NumLockAction s numlockKeycode act ∧
        typeMods s keycode &&& s.xkb.actionMods numlockKeycode act ≠ 0 := by
  have hnothing : ¬ typeMods s keycode &&& 0 ≠ 0 := not_not.mpr BitVec.and_zero
  rw [lorieGetLockKeyModMask]
  constructor
  · intro h
    split at h
    · exact absurd h hnothing
    next n hn =>
      rw [XkbDesc.modsOf] at h
      split at h
      · exact absurd h hnothing
      next act hact =>
        split at h
        next hlock => exact ⟨n, act, ⟨hn, hact, hlock⟩, h⟩
        next => exact absurd h hnothing
  · rintro ⟨n, act, ⟨hn, hact, hlock⟩, hmods⟩
    rw [hn]
    dsimp only
    rw [XkbDesc.modsOf, hact]
    dsimp only
    rw [if_pos hlock]
    exact hmods

theorem NumLockAction.unique {s : State} {n m : ℕ} {act act' : Action}
    (h : NumLockAction s n act) (h' : NumLockAction s m act') : n = m ∧ act = act' := by
  obtain ⟨hn, hact, -⟩ := h
  obtain ⟨hm, hact', -⟩ := h'
  have heq : n = m := Option.some_inj.mp (hn.symm.trans hm)
  rw [← heq, hact] at hact'
  exact ⟨heq, Option.some_inj.mp hact'⟩

theorem actionMods_modmap {act : Action} (hmap : act.useModMapMods = true) (d : XkbDesc)
    (key : ℕ) : d.actionMods key act = d.modmap key := if_pos hmap

theorem actionMods_mask {act : Action} (hmap : act.useModMapMods = false) (d : XkbDesc)
    (key : ℕ) : d.actionMods key act = act.mask := if_neg (Bool.not_eq_true _ ▸ hmap)

/-- The two agree on a key unless the NumLock key locks what the modifier map has for it, and
the modifier map has something else for the key. -/
theorem numLock_agrees_iff (s : State) (keycode : ℕ) :
    (lorieIsAffectedByNumLock s keycode = true ↔
        typeMods s keycode &&& lorieGetLockKeyModMask s xkNumLock ≠ 0) ↔
      ∀ numlockKeycode act, NumLockAction s numlockKeycode act → act.useModMapMods = true →
        (typeMods s keycode &&& s.xkb.modmap keycode ≠ 0 ↔
          typeMods s keycode &&& s.xkb.modmap numlockKeycode ≠ 0) := by
  rw [lorieIsAffectedByNumLock_iff, lorieGetLockKeyModMask_iff]
  constructor
  · intro hagree n act hnum hmap
    constructor
    · intro hkey
      rw [← actionMods_modmap hmap] at hkey
      obtain ⟨m, act', hnum', hlock⟩ := hagree.mp ⟨n, act, hnum, hkey⟩
      obtain ⟨rfl, rfl⟩ := hnum.unique hnum'
      rw [actionMods_modmap hmap] at hlock
      exact hlock
    · intro hlock
      rw [← actionMods_modmap hmap] at hlock
      obtain ⟨m, act', hnum', hkey⟩ := hagree.mpr ⟨n, act, hnum, hlock⟩
      obtain ⟨rfl, rfl⟩ := hnum.unique hnum'
      rw [actionMods_modmap hmap] at hkey
      exact hkey
  · intro hsame
    have heach : ∀ n act, NumLockAction s n act →
        (typeMods s keycode &&& s.xkb.actionMods keycode act ≠ 0 ↔
          typeMods s keycode &&& s.xkb.actionMods n act ≠ 0) := by
      intro n act hnum
      cases hmap : act.useModMapMods with
      | true =>
        rw [actionMods_modmap hmap, actionMods_modmap hmap]
        exact hsame n act hnum hmap
      | false => rw [actionMods_mask hmap, actionMods_mask hmap]
    exact exists_congr fun n => exists_congr fun act => and_congr_right (heach n act)

/-- A keypad key, and a NumLock key that locks what the modifier map has for it. -/
def keypad : XkbDesc where
  minKeyCode := 8
  maxKeyCode := 255
  types := [{}, {}, {}, { mods := 0x11, numLevels := 2, map := [⟨true, 1, 0x10, 0⟩] }]
  keys key :=
    if key = 77 then
      { groupInfo := 1, width := 1, syms := [0xff7f], acts := some [⟨.lockMods, true, 0⟩] }
    else if key = 87 then
      { ktIndex := fun _ => 3, groupInfo := 1, width := 2, syms := [0xff9c, 0xffb1] }
    else {}
  modmap key := if key = 77 then 0x10 else 0
  names := none
  legal := allKeyCodes_legal

/-- The keypad key is under NumLock, but is not told from the other keys. -/
theorem keypad_not_affected : ∃ s, (s.xkb.keys 87).numGroups ≠ 0 ∧
    lorieIsAffectedByNumLock s 87 = false ∧
      typeMods s 87 &&& lorieGetLockKeyModMask s xkNumLock ≠ 0 := by
  refine ⟨{ xkb := keypad, lookupMods := 0, group := 0, down := fun _ => false }, ?_, ?_, ?_⟩
  · decide
  · decide +kernel
  · decide +kernel

end Keyboard
