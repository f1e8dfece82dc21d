/-
The keys that are given to added keysyms (`lorieAddKeysym`, `getReusableKeycode`,
`vncOnKeyUsed`), over runs in which other clients change the keymap.

An added keysym gets a key without symbols, or else the key of an added keysym that was used
longest ago.  An entry of the list stays when its key is changed by somebody else; whether it
still tells what the key has is checked when a key is taken, by the first symbol and the first
letter of the name.  That is right as long as no key that somebody else has changed looks right.

* `takeKey_cases`, `lorieAddKeysym_eq` — the key that is taken, and what becomes of it;
* `Untouched` — what nobody else has changed;
* `inv_step` — the entries that are right are in the order of the last use;
* `takes_oldest` — when it is the least recently used key that is taken.
-/
import KaliGui.Keyboard.KeysymEvent
import KaliGui.Lib.Recency
import KaliGui.Lib.Run

namespace Keyboard.Reuse

open Machine (run Meets)
open Recency (Recent)

/-! ### Keymaps -/

/-- What XKB demands of the keymaps that clients set (`CheckKeyTypes`, `CheckKeySyms`). -/
structure Valid (d : XkbDesc) : Prop where
  alphabetic : (d.types.getD xkbAlphabeticIndex {}).numLevels = 2
  syms : ∀ key, (d.keys key).syms.length = (d.keys key).numGroups * (d.keys key).width
  width : ∀ key, 0 < (d.keys key).numGroups → 0 < (d.keys key).width

/-- The highest key without symbols. -/
def freeKey (d : XkbDesc) : Option ℕ :=
  d.keyCodes.reverse.find? fun key => (d.keys key).numGroups = 0

/-- The key that `lorieAddKeysym` takes, and what is left of the list. -/
def takeKey (d : XkbDesc) (added : List AddedKeySym) : Option ℕ × List AddedKeySym :=
  match freeKey d with
  | some key => (some key, added)
  | none => ((getReusableKeycode d added.reverse).1, (getReusableKeycode d added.reverse).2.reverse)

/-- One keymap is another one with the keysym on the key. -/
structure Gives (d d' : XkbDesc) (keysym : KeySym) (key : ℕ) : Prop where
  keys : ∀ other, other ≠ key → d'.keys other = d.keys other
  names : ∀ other, other ≠ key → d'.names.map (· other) = d.names.map (· other)
  intact : AddedKeySym.Intact d' ⟨keysym, key⟩
  valid : Valid d'

theorem getReusableKeycode_cases (d : XkbDesc) (l : List AddedKeySym) :
    (∀ e ∈ l, ¬ e.Intact d) ∧ getReusableKeycode d l = (none, []) ∨
      ∃ l₁ e l₂, l = l₁ ++ e :: l₂ ∧ (∀ x ∈ l₁, ¬ x.Intact d) ∧ e.Intact d ∧
        getReusableKeycode d l = (some e.keycode, l₂) := by
  induction l with
  | nil => exact .inl ⟨fun e he => absurd he List.not_mem_nil, rfl⟩
  | cons last rest ih =>
    rw [getReusableKeycode]
    split
    next hintact =>
      exact .inr ⟨[], last, rest, rfl, fun x hx => absurd hx List.not_mem_nil, hintact, rfl⟩
    next hlost =>
      rcases ih with ⟨hrest, heq⟩ | ⟨l₁, e, l₂, rfl, hl₁, he, heq⟩
      · exact .inl ⟨List.forall_mem_cons.mpr ⟨hlost, hrest⟩, heq⟩
      · exact .inr ⟨last :: l₁, e, l₂, rfl, List.forall_mem_cons.mpr ⟨hlost, hl₁⟩, he, heq⟩

/-- A free key, or no key at all, or the key of the last entry that is intact. -/
theorem takeKey_cases (d : XkbDesc) (l : List AddedKeySym) :
    (∃ key, freeKey d = some key ∧ takeKey d l = (some key, l)) ∨
      freeKey d = none ∧ (∀ e ∈ l, ¬ e.Intact d) ∧ takeKey d l = (none, []) ∨
      freeKey d = none ∧ ∃ l₁ e l₂, l = l₁ ++ e :: l₂ ∧ e.Intact d ∧
        (∀ x ∈ l₂, ¬ x.Intact d) ∧ takeKey d l = (some e.keycode, l₁) := by
  cases hfree : freeKey d with
  | some key => exact .inl ⟨key, rfl, by rw [takeKey, hfree]⟩
  | none =>
    rcases getReusableKeycode_cases d l.reverse with ⟨hall, heq⟩ | ⟨l₁, e, l₂, hl, hl₁, he, heq⟩
    · refine .inr (.inl ⟨rfl, fun e he => hall e (List.mem_reverse.mpr he), ?_⟩)
      rw [takeKey, hfree, heq]
      rfl
    · refine .inr (.inr ⟨rfl, l₂.reverse, e, l₁.reverse, ?_, he, fun x hx => ?_, ?_⟩)
      · rw [← List.reverse_reverse l, hl, List.reverse_append, List.reverse_cons,
          List.append_assoc, List.singleton_append]
      · exact hl₁ x (List.mem_reverse.mp hx)
      · rw [takeKey, hfree, heq]

theorem freeKey_eq_some {d : XkbDesc} {key : ℕ} (h : freeKey d = some key) :
    d.InRange key ∧ (d.keys key).numGroups = 0 := by
  have hgroups := List.find?_some h
  have hmem := List.mem_reverse.mp (List.mem_of_find?_eq_some h)
  exact ⟨XkbDesc.mem_keyCodes.mp hmem, of_decide_eq_true hgroups⟩

theorem freeKey_eq_none {d : XkbDesc} :
    freeKey d = none ↔ ∀ key, d.InRange key → (d.keys key).numGroups ≠ 0 := by
  rw [freeKey, List.find?_eq_none]
  refine ⟨fun h key hrange => ?_, fun h key hkey => ?_⟩
  · have hmem := List.mem_reverse.mpr (XkbDesc.mem_keyCodes.mpr hrange)
    exact fun hgroups => h key hmem (decide_eq_true hgroups)
  · have hrange := XkbDesc.mem_keyCodes.mp (List.mem_reverse.mp hkey)
    rw [decide_eq_true_eq]
    exact h key hrange

/-- What is asked of a key's name depends on it alone. -/
theorem forall_names_congr {d d' : XkbDesc} {key : ℕ}
    (h : d'.names.map (· key) = d.names.map (· key)) (p : List Char → Prop) :
    (∀ names ∈ d'.names, p (names key)) ↔ ∀ names ∈ d.names, p (names key) := by
  have hall : ∀ o : Option (ℕ → List Char),
      (∀ names ∈ o, p (names key)) ↔ ∀ name ∈ o.map (· key), p name := by
    intro o
    cases o with
    | none =>
      exact iff_of_true (fun _ hn => by cases hn) fun _ hn => by cases hn
    | some names => simp
  rw [hall, hall, h]

/-- The other keys' entries are as right as they were. -/
theorem Gives.intact_iff {d d' : XkbDesc} {keysym : KeySym} {key : ℕ} (h : Gives d d' keysym key)
    {e : AddedKeySym} (he : e.keycode ≠ key) : e.Intact d' ↔ e.Intact d := by
  rw [AddedKeySym.Intact, AddedKeySym.Intact, h.keys e.keycode he]
  exact and_congr_right fun _ => and_congr_right fun _ =>
    forall_names_congr (h.names e.keycode he) fun name => name.head? = some 'T'

/-! ### The key that is added -/

theorem numGroups_one (info : BitVec 8) : ((info &&& 0xf0 ||| 1) &&& 0x0f).toNat = 1 := by
  have hzero : info &&& 0xf0 &&& 0x0f = 0 := by
    rw [BitVec.and_assoc]
    exact BitVec.and_zero
  rw [BitVec.and_or_distrib_right, hzero]
  rfl

theorem length_resizeRow {α : Type} (zero : α) (row : List α) (copied width : ℕ) :
    (resizeRow zero row copied width).length = width := by
  have hle : ((row.take copied).take width).length ≤ width := List.length_take_le _ _
  rw [resizeRow, List.length_append, List.length_replicate]
  omega

/-- A key of the keymap, or one with symbols, is left with symbols, and all is well with it. -/
theorem xkbChangeTypesOfKey_alphabetic {d : XkbDesc} {key : ℕ} (hd : Valid d)
    (hkey : d.InRange key ∨ 0 < (d.keys key).numGroups) :
    let k := (xkbChangeTypesOfKey d key xkbAlphabeticIndex).keys key
    0 < k.numGroups ∧ k.syms.length = k.numGroups * k.width ∧ 0 < k.width := by
  have hlevels := hd.alphabetic
  have htypes : ¬ d.types.length < xkbAlphabeticIndex := by
    intro hlt
    rw [List.getD_eq_getElem?_getD, List.getElem?_eq_none (Nat.le_of_lt hlt)] at hlevels
    cases hlevels
  dsimp only
  rw [xkbChangeTypesOfKey]
  split
  next hout =>
    have hgroups := hkey.resolve_left (hout.resolve_right htypes)
    exact ⟨hgroups, hd.syms key, hd.width key hgroups⟩
  next =>
    have hgroups : ∀ k : Key, k.groupInfo = (d.keys key).groupInfo &&& 0xf0 ||| 1 →
        k.numGroups = 1 := by
      intro k hk
      rw [Key.numGroups, hk]
      exact numGroups_one _
    simp only [Function.update_self, hlevels]
    rw [hgroups _ rfl]
    refine ⟨Nat.one_pos, ?_, Nat.two_pos⟩
    split
    · exact List.length_replicate
    next hsome =>
      split
      · exact length_resizeRow _ _ _ _
      next hsame =>
        obtain ⟨hwidth, hone⟩ := not_or.mp hsame
        rw [hd.syms key, not_not.mp hone, ← not_not.mp hwidth]

theorem xkbChangeTypesOfKey_others (d : XkbDesc) (key newType : ℕ) :
    (∀ other, other ≠ key → (xkbChangeTypesOfKey d key newType).keys other = d.keys other) ∧
      (xkbChangeTypesOfKey d key newType).names = d.names ∧
      (xkbChangeTypesOfKey d key newType).types = d.types := by
  rw [xkbChangeTypesOfKey]
  split
  · exact ⟨fun _ _ => rfl, rfl, rfl⟩
  · exact ⟨fun other hne => Function.update_of_ne hne _ _, rfl, rfl⟩

/-- A key with a name and with the symbols of a keysym. -/
def withKeysym (d : XkbDesc) (keysym : KeySym) (key : ℕ) : XkbDesc :=
  let named := { d with
    names := d.names.map fun names => Function.update names key (addedName key) }
  let typed := xkbChangeTypesOfKey named key xkbAlphabeticIndex
  let k := typed.keys key
  { typed with
    keys := Function.update typed.keys key { k with
      syms := (k.syms.set 0 (xkbConvertCase keysym).1).set 1 (xkbConvertCase keysym).2 } }

/-- The key has symbols, and a place for the keysym is among them. -/
theorem withKeysym_self {d : XkbDesc} {key : ℕ} (keysym : KeySym) (hd : Valid d)
    (hkey : d.InRange key ∨ 0 < (d.keys key).numGroups) :
    let k := (withKeysym d keysym key).keys key
    0 < k.numGroups ∧ k.syms.length = k.numGroups * k.width ∧ 0 < k.width ∧
      k.syms.getD 0 noSymbol = (xkbConvertCase keysym).1 := by
  let named : XkbDesc := { d with
    names := d.names.map fun names => Function.update names key (addedName key) }
  have hnamed : Valid named := ⟨hd.alphabetic, hd.syms, hd.width⟩
  obtain ⟨hgroups, hlength, hwidth⟩ := xkbChangeTypesOfKey_alphabetic hnamed hkey
  have hself : (withKeysym d keysym key).keys key = _ := Function.update_self _ _ _
  dsimp only
  rw [hself]
  dsimp only
  refine ⟨hgroups, ?_, hwidth, ?_⟩
  · rw [List.length_set, List.length_set]
    exact hlength
  · have hpos : 0 < ((xkbChangeTypesOfKey named key xkbAlphabeticIndex).keys key).syms.length := by
      rw [hlength]
      exact Nat.mul_pos hgroups hwidth
    rw [List.getD_eq_getElem?_getD, List.getElem?_set_ne Nat.one_ne_zero,
      List.getElem?_set_self hpos, Option.getD_some]

theorem withKeysym_other {d : XkbDesc} {key other : ℕ} (keysym : KeySym) (hne : other ≠ key) :
    (withKeysym d keysym key).keys other = d.keys other := by
  refine (Function.update_of_ne hne _ _).trans ?_
  exact (xkbChangeTypesOfKey_others _ key xkbAlphabeticIndex).1 other hne

theorem withKeysym_types (d : XkbDesc) (keysym : KeySym) (key : ℕ) :
    (withKeysym d keysym key).types = d.types :=
  (xkbChangeTypesOfKey_others _ key xkbAlphabeticIndex).2.2

theorem withKeysym_names (d : XkbDesc) (keysym : KeySym) (key : ℕ) :
    (withKeysym d keysym key).names =
      d.names.map fun names => Function.update names key (addedName key) :=
  (xkbChangeTypesOfKey_others _ key xkbAlphabeticIndex).2.1

theorem valid_withKeysym {d : XkbDesc} {key : ℕ} (keysym : KeySym) (hd : Valid d)
    (hkey : d.InRange key ∨ 0 < (d.keys key).numGroups) : Valid (withKeysym d keysym key) := by
  obtain ⟨-, hlength, hwidth, -⟩ := withKeysym_self keysym hd hkey
  constructor
  · rw [withKeysym_types]
    exact hd.alphabetic
  · intro other
    by_cases hne : other = key
    · rw [hne]
      exact hlength
    · rw [withKeysym_other keysym hne]
      exact hd.syms other
  · intro other
    by_cases hne : other = key
    · rw [hne]
      exact fun _ => hwidth
    · rw [withKeysym_other keysym hne]
      exact hd.width other

theorem gives_withKeysym {d : XkbDesc} {key : ℕ} (keysym : KeySym) (hd : Valid d)
    (hkey : d.InRange key ∨ 0 < (d.keys key).numGroups) :
    Gives d (withKeysym d keysym key) (xkbConvertCase keysym).1 key := by
  obtain ⟨hgroups, -, -, hfirst⟩ := withKeysym_self keysym hd hkey
  constructor
  · exact fun other hne => withKeysym_other keysym hne
  · intro other hne
    rw [withKeysym_names, Option.map_map]
    refine congrArg (d.names.map ·) (funext fun names => ?_)
    exact Function.update_of_ne hne _ _
  · refine ⟨hgroups, hfirst, fun names hmem => ?_⟩
    rw [withKeysym_names] at hmem
    obtain ⟨old, -, rfl⟩ := Option.map_eq_some_iff.mp (Option.mem_def.mp hmem)
    rw [Function.update_self]
    rfl
  · exact valid_withKeysym keysym hd hkey

/-- What `lorieAddKeysym` makes of the key that it takes. -/
theorem lorieAddKeysym_eq (s : State) (keysym : KeySym) :
    lorieAddKeysym s keysym = match takeKey s.xkb s.addedKeysyms with
      | (none, added) => ({ s with addedKeysyms := added }, none)
      | (some key, added) =>
        ({ s with
          xkb := withKeysym s.xkb keysym key
          addedKeysyms := ⟨(xkbConvertCase keysym).1, key⟩ :: added }, some key) := by
  rw [lorieAddKeysym, takeKey, freeKey]
  rcases s.xkb.keyCodes.reverse.find? fun key => (s.xkb.keys key).numGroups = 0 with _ | key
  · rcases getReusableKeycode s.xkb s.addedKeysyms.reverse with ⟨_ | key, rest⟩ <;> rfl
  · rfl

/-! ### A press -/

/-- A key for the keysym or for an equivalent of it. -/
def matchTarget (s : State) (keysym : KeySym) : Option Target :=
  lorieKeysymToKeycode s keysym (lorieGetKeyboardState s) <|>
    (altKeysyms keysym).findSome? fun alt => lorieKeysymToKeycode s alt (lorieGetKeyboardState s)

/-- The key that a press adds. -/
def addedKey (keysym : KeySym) (s : State) : Option ℕ :=
  match matchTarget (mieqProcessInputEvents s) keysym with
  | some _ => none
  | none => (lorieAddKeysym (mieqProcessInputEvents s) keysym).2

/-- The key that a press gets to press. -/
def usedKey (keysym : KeySym) (s : State) : Option ℕ :=
  match chooseTarget (mieqProcessInputEvents s) keysym with
  | (_, none) => none
  | (s', some t) =>
    if (fakeShift s' t).isSome ∧ (fakeLevelThree s' t).isSome then some t.keycode else none

theorem chooseTarget_state (s : State) (keysym : KeySym) :
    (chooseTarget s keysym).1 =
      if (matchTarget s keysym).isSome then s else (lorieAddKeysym s keysym).1 := by
  change (matchKeysym s keysym (lorieGetKeyboardState s)).1 = _
  rw [matchKeysym]
  change (match matchTarget s keysym with | some t => _ | none => _ : State × Option Target).1 = _
  rcases matchTarget s keysym with _ | t
  · rcases lorieAddKeysym s keysym with ⟨s', _ | key⟩ <;> rfl
  · rfl

theorem queueAll_keymap (es : List KeyEvent) (s : State) :
    (queueAll es s).xkb = s.xkb ∧ (queueAll es s).addedKeysyms = s.addedKeysyms := by
  induction es generalizing s with
  | nil => exact ⟨rfl, rfl⟩
  | cons e es ih =>
    have hqueue : (queueKeyboardEvents e s).xkb = s.xkb ∧
        (queueKeyboardEvents e s).addedKeysyms = s.addedKeysyms := by
      rw [queueKeyboardEvents]
      split
      · exact ⟨rfl, rfl⟩
      · exact ⟨rfl, rfl⟩
    obtain ⟨hxkb, hadded⟩ := ih (queueKeyboardEvents e s)
    exact ⟨hxkb.trans hqueue.1, hadded.trans hqueue.2⟩

theorem keysymPress_keymap (keysym : KeySym) (s : State) :
    (keysymPress keysym s).xkb = (chooseTarget (mieqProcessInputEvents s) keysym).1.xkb ∧
      (keysymPress keysym s).addedKeysyms =
        match usedKey keysym s with
        | none => (chooseTarget (mieqProcessInputEvents s) keysym).1.addedKeysyms
        | some key => vncOnKeyUsed key
            (chooseTarget (mieqProcessInputEvents s) keysym).1.addedKeysyms := by
  rw [usedKey]
  cases hchoose : chooseTarget (mieqProcessInputEvents s) keysym with
  | mk s' target =>
    cases target with
    | none => simp only [keysymPress, hchoose, and_self]
    | some t =>
      cases hshift : fakeShift s' t with
      | none =>
        simp only [keysymPress, hchoose, hshift, Option.isSome_none, Bool.false_eq_true,
          false_and, if_false, and_self]
      | some shift =>
        have hqueue := queueAll_of_legal (fakeShift_legal hshift) s'
        obtain ⟨hxkb, hadded⟩ := queueAll_keymap shift s'
        cases hlevel : fakeLevelThree s' t with
        | none =>
          have hlevel' : fakeLevelThree (queueAll shift s') t = none := by
            rw [hqueue]
            exact hlevel
          simp only [keysymPress, hchoose, hshift, hlevel, hlevel', Option.isSome_none,
            Bool.false_eq_true, and_false, if_false]
          exact ⟨hxkb, hadded⟩
        | some levelThree =>
          have hlevel' : fakeLevelThree (queueAll shift s') t = some levelThree := by
            rw [hqueue]
            exact hlevel
          have hkey := (chooseTarget_eq_some hchoose).1.legal
          simp only [keysymPress, hchoose, hshift, hlevel, hlevel', Option.isSome_some, and_self,
            if_true]
          rw [queueKeyboardEvents_of_legal
            (show (⟨true, t.keycode, .keycode⟩ : KeyEvent).Legal from hkey)]
          simp only [mieqProcessInputEvents, queueAll_keymap, and_self]

theorem keysymRelease_keymap (keysym : KeySym) (s : State) :
    (keysymRelease keysym s).xkb = s.xkb ∧
      (keysymRelease keysym s).addedKeysyms = s.addedKeysyms := by
  rw [keysymRelease]
  split
  · exact ⟨rfl, rfl⟩
  · dsimp only
    rw [queueKeyboardEvents]
    split
    · exact ⟨rfl, rfl⟩
    · exact ⟨rfl, rfl⟩

/-! ### Runs -/

inductive Act
  | keysym (keysym : KeySym) (down : Bool)
  /-- another client changes the keymap -/
  | keymap (d : XkbDesc) (valid : Valid d)
  | modifiers (mods group : BitVec 8)

/-- Nothing of the key differs: its types, symbols, actions, modifiers and name. -/
def Untouched (d d' : XkbDesc) (key : ℕ) : Prop :=
  ((∀ group < 4, (d'.keys key).ktIndex group = (d.keys key).ktIndex group) ∧
    (d'.keys key).groupInfo = (d.keys key).groupInfo ∧ (d'.keys key).width = (d.keys key).width ∧
    (d'.keys key).syms = (d.keys key).syms ∧ (d'.keys key).acts = (d.keys key).acts) ∧
  d'.modmap key = d.modmap key ∧ d'.names.map (· key) = d.names.map (· key)

instance (d d' : XkbDesc) (key : ℕ) : Decidable (Untouched d d' key) :=
  inferInstanceAs (Decidable ((_ ∧ _ ∧ _ ∧ _ ∧ _) ∧ _ ∧ _))

/-- The keyboard, and what was done to its keys. -/
structure Session where
  keyboard : State
  /-- the keysyms that were added, as long as nobody else has touched their keys -/
  mapping : ℕ → Option KeySym := fun _ => none
  /-- the keys that were added or pressed, the last first -/
  uses : List ℕ := []

/-- An added keysym goes on its key. -/
def withAdded (keysym : KeySym) (key : Option ℕ) (mapping : ℕ → Option KeySym) :
    ℕ → Option KeySym :=
  match key with
  | none => mapping
  | some key => Function.update mapping key (some (xkbConvertCase keysym).1)

def step (s : Session) : Act → Option Session
  | .keysym keysym true => some
    { keyboard := keysymPress keysym s.keyboard
      mapping := withAdded keysym (addedKey keysym s.keyboard) s.mapping
      uses := (usedKey keysym s.keyboard).toList ++ (addedKey keysym s.keyboard).toList ++ s.uses }
  | .keysym keysym false => some { s with keyboard := keysymRelease keysym s.keyboard }
  | .keymap d _ => some
    { s with
      keyboard := { s.keyboard with xkb := d }
      mapping := fun key => (s.mapping key).filter fun _ => Untouched s.keyboard.xkb d key }
  | .modifiers mods group =>
    some { s with keyboard := { s.keyboard with lookupMods := mods, group := group } }

structure Session.Fresh (s : Session) : Prop where
  valid : Valid s.keyboard.xkb
  addedKeysyms : s.keyboard.addedKeysyms = []
  mapping : ∀ key, s.mapping key = none

/-- No key that somebody else has touched looks as if nobody had: a keysym is not added to a free
key that it had before, and what other clients change does not pass for what was added. -/
def NoneMistaken (s : Session) : Act → Prop
  | .keysym keysym true =>
    (matchTarget (mieqProcessInputEvents s.keyboard) keysym).isNone = true →
      ∀ key ∈ freeKey s.keyboard.xkb,
        ⟨(xkbConvertCase keysym).1, key⟩ ∉ s.keyboard.addedKeysyms
  | .keysym _ false => True
  | .keymap d _ => ∀ e ∈ s.keyboard.addedKeysyms, e.Intact d →
    Untouched s.keyboard.xkb d e.keycode
  | .modifiers _ _ => True

instance (s : Session) : ∀ a, Decidable (NoneMistaken s a)
  | .keysym _ true => inferInstanceAs (Decidable (_ = true → ∀ key ∈ freeKey _, _))
  | .keysym _ false => inferInstanceAs (Decidable True)
  | .keymap _ _ => inferInstanceAs (Decidable (∀ e ∈ s.keyboard.addedKeysyms, _))
  | .modifiers _ _ => inferInstanceAs (Decidable True)

/-- A key without symbols is taken if there is one, and otherwise, of the keys that nobody else
has touched since a keysym was added to them, the one that was used longest ago. -/
structure Session.TakesOldest (s : Session) : Prop where
  free : (∃ key, s.keyboard.xkb.InRange key ∧ (s.keyboard.xkb.keys key).numGroups = 0) →
    ∀ keysym, ∃ key, (lorieAddKeysym s.keyboard keysym).2 = some key ∧
      s.keyboard.xkb.InRange key ∧ (s.keyboard.xkb.keys key).numGroups = 0
  oldest : (∀ key, s.keyboard.xkb.InRange key → (s.keyboard.xkb.keys key).numGroups ≠ 0) →
    ∀ keysym key, (lorieAddKeysym s.keyboard keysym).2 = some key →
      (s.mapping key).isSome ∧
        ∀ other, (s.mapping other).isSome → s.uses.idxOf other ≤ s.uses.idxOf key
  none : (∀ key, s.keyboard.xkb.InRange key → (s.keyboard.xkb.keys key).numGroups ≠ 0) →
    ∀ keysym, (lorieAddKeysym s.keyboard keysym).2 = none → ∀ key, s.mapping key = none

/-! ### The entries that are right -/

/-- The entries that are right are those of the keysyms that are still on their keys, in the
order of the last use. -/
structure Listed (d : XkbDesc) (uses : List ℕ) (mapping : ℕ → Option KeySym)
    (l : List AddedKeySym) : Prop where
  recent : Recent AddedKeySym.keycode (·.Intact d) uses l
  mapping : ∀ keysym key, mapping key = some keysym ↔
    ⟨keysym, key⟩ ∈ l ∧ AddedKeySym.Intact d ⟨keysym, key⟩

theorem vncOnKeyUsed_eq_touch (key : ℕ) (l : List AddedKeySym) :
    vncOnKeyUsed key l = Recency.touch AddedKeySym.keycode key l := by
  rw [vncOnKeyUsed, Recency.touch]
  split
  next hfind => rw [hfind]
  next it hfind => rw [hfind]

variable {d d' : XkbDesc} {uses : List ℕ} {mapping : ℕ → Option KeySym} {l : List AddedKeySym}

theorem Listed.used (h : Listed d uses mapping l) (key : ℕ) :
    Listed d (key :: uses) mapping (vncOnKeyUsed key l) where
  recent := by
    rw [vncOnKeyUsed_eq_touch]
    exact h.recent.touch key
  mapping keysym other := by
    rw [vncOnKeyUsed_eq_touch, Recency.mem_touch]
    exact h.mapping keysym other

/-- An entry of a key that nobody touched is as right as it was. -/
theorem Untouched.intact_iff {keysym : KeySym} {key : ℕ} (h : Untouched d d' key) :
    AddedKeySym.Intact d' ⟨keysym, key⟩ ↔ AddedKeySym.Intact d ⟨keysym, key⟩ := by
  obtain ⟨⟨-, hgroups, -, hsyms, -⟩, -, hnames⟩ := h
  rw [AddedKeySym.Intact, AddedKeySym.Intact, Key.numGroups, Key.numGroups, hgroups, hsyms]
  exact and_congr_right fun _ => and_congr_right fun _ =>
    forall_names_congr hnames fun name => name.head? = some 'T'

/-- Another client changes the keymap. -/
theorem Listed.changed (h : Listed d uses mapping l)
    (htouched : ∀ e ∈ l, e.Intact d' → Untouched d d' e.keycode) :
    Listed d' uses (fun key => (mapping key).filter fun _ => Untouched d d' key) l where
  recent := h.recent.of_live fun e he hintact => (htouched e he hintact).intact_iff.mp hintact
  mapping keysym key := by
    rw [Option.filter_eq_some_iff, decide_eq_true_eq, h.mapping]
    constructor
    · rintro ⟨⟨hmem, hintact⟩, hsame⟩
      exact ⟨hmem, hsame.intact_iff.mpr hintact⟩
    · rintro ⟨hmem, hintact⟩
      have hsame := htouched _ hmem hintact
      exact ⟨⟨hmem, hsame.intact_iff.mp hintact⟩, hsame⟩

/-- A keysym on a key that no entry says is right. -/
theorem Listed.added {keysym : KeySym} {key : ℕ} (h : Listed d uses mapping l)
    (hgives : Gives d d' keysym key) (hkey : ∀ e ∈ l, e.keycode = key → ¬ e.Intact d') :
    Listed d' (key :: uses) (Function.update mapping key (some keysym)) (⟨keysym, key⟩ :: l) where
  recent := by
    have hlost : ∀ e ∈ l, e.Intact d' → e.Intact d :=
      fun e he hintact => (hgives.intact_iff fun heq => hkey e he heq hintact).mp hintact
    exact (h.recent.of_live hlost).push (e := ⟨keysym, key⟩)
      fun e he hintact heq => hkey e he heq hintact
  mapping keysym' other := by
    rw [List.mem_cons]
    by_cases hother : other = key
    · rw [hother, Function.update_self]
      refine ⟨fun heq => ?_, fun ⟨hmem, hintact⟩ => ?_⟩
      · rw [← Option.some_inj.mp heq]
        exact ⟨.inl rfl, hgives.intact⟩
      · rcases hmem with heq | hmem
        · rw [(AddedKeySym.mk.inj heq).1]
        · exact absurd hintact (hkey _ hmem rfl)
    · rw [Function.update_of_ne hother, h.mapping,
        hgives.intact_iff (e := ⟨keysym', other⟩) hother]
      have hne : (⟨keysym', other⟩ : AddedKeySym) ≠ ⟨keysym, key⟩ :=
        fun heq => hother (AddedKeySym.mk.inj heq).2
      rw [or_iff_right hne]

/-- The key of an entry is taken, and what is behind it is dropped. -/
theorem Listed.reused {keysym : KeySym} {l₁ l₂ : List AddedKeySym} {e : AddedKeySym}
    (h : Listed d uses mapping (l₁ ++ e :: l₂)) (he : e.Intact d)
    (hdead : ∀ x ∈ l₂, ¬ x.Intact d) (hgives : Gives d d' keysym e.keycode) :
    Listed d' (e.keycode :: uses) (Function.update mapping e.keycode (some keysym))
      (⟨keysym, e.keycode⟩ :: l₁) := by
  have hrest : Listed d uses (Function.update mapping e.keycode none) l₁ := by
    refine ⟨h.recent.sublist (List.sublist_append_left _ _), fun keysym' key => ?_⟩
    by_cases hkey : key = e.keycode
    · rw [hkey, Function.update_self]
      refine ⟨fun heq => ?_, fun ⟨hmem, _⟩ => ?_⟩
      · cases heq
      · exact (h.recent.key_ne he hmem rfl).elim
    · rw [Function.update_of_ne hkey, h.mapping, List.mem_append, List.mem_cons]
      refine ⟨fun ⟨hmem, hintact⟩ => ⟨?_, hintact⟩, fun ⟨hmem, hintact⟩ => ⟨.inl hmem, hintact⟩⟩
      rcases hmem with hmem | heq | hmem
      · exact hmem
      · exact absurd (congrArg AddedKeySym.keycode heq) hkey
      · exact absurd hintact (hdead _ hmem)
  have hadded := hrest.added hgives fun x hx heq => absurd heq (h.recent.key_ne he hx)
  rw [Function.update_idem] at hadded
  exact hadded

/-! ### Every run -/

structure Inv (s : Session) : Prop where
  valid : Valid s.keyboard.xkb
  listed : Listed s.keyboard.xkb s.uses s.mapping s.keyboard.addedKeysyms

theorem Session.Fresh.inv {s : Session} (h : s.Fresh) : Inv s := by
  refine ⟨h.valid, ?_, fun keysym key => ?_⟩
  · rw [h.addedKeysyms]
    exact List.Pairwise.nil
  · rw [h.addedKeysyms, h.mapping]
    exact ⟨fun heq => absurd heq.symm (Option.some_ne_none _),
      fun h => absurd h.1 List.not_mem_nil⟩

/-- An add, wherever the keysym goes. -/
theorem inv_add {s s' : State} {keysym : KeySym} {uses : List ℕ} {mapping : ℕ → Option KeySym}
    {target : Option ℕ} (hvalid : Valid s.xkb)
    (h : Listed s.xkb uses mapping s.addedKeysyms)
    (hnew : ∀ key ∈ freeKey s.xkb, ⟨(xkbConvertCase keysym).1, key⟩ ∉ s.addedKeysyms)
    (hadd : lorieAddKeysym s keysym = (s', target)) :
    Valid s'.xkb ∧ Listed s'.xkb (target.toList ++ uses)
      (withAdded keysym target mapping)
      s'.addedKeysyms := by
  rw [lorieAddKeysym_eq] at hadd
  rcases takeKey_cases s.xkb s.addedKeysyms with ⟨key, hfree, htake⟩ | ⟨-, hall, htake⟩ |
    ⟨-, l₁, e, l₂, hl, he, hdead, htake⟩
  · rw [htake] at hadd
    cases hadd
    obtain ⟨hrange, hgroups⟩ := freeKey_eq_some hfree
    have hgives := gives_withKeysym keysym hvalid (.inl hrange)
    refine ⟨hgives.valid, h.added hgives ?_⟩
    -- an entry of the free key that came to look right would be for the same keysym
    rintro ⟨old, k⟩ he rfl hintact
    have hsame : old = (xkbConvertCase keysym).1 := hintact.2.1.symm.trans hgives.intact.2.1
    rw [hsame] at he
    exact hnew k hfree he
  · rw [htake] at hadd
    cases hadd
    refine ⟨hvalid, List.Pairwise.nil, fun keysym key => (h.mapping keysym key).trans ?_⟩
    exact ⟨fun hmem => absurd hmem.2 (hall _ hmem.1), fun hmem => absurd hmem.1 List.not_mem_nil⟩
  · rw [htake] at hadd
    cases hadd
    have hgives := gives_withKeysym keysym hvalid (.inr he.1)
    rw [hl] at h
    exact ⟨hgives.valid, h.reused he hdead hgives⟩

theorem inv_press {s : Session} {keysym : KeySym} (hi : Inv s)
    (hok : NoneMistaken s (.keysym keysym true)) :
    Valid (chooseTarget (mieqProcessInputEvents s.keyboard) keysym).1.xkb ∧
      Listed (chooseTarget (mieqProcessInputEvents s.keyboard) keysym).1.xkb
        ((addedKey keysym s.keyboard).toList ++ s.uses)
        (withAdded keysym (addedKey keysym s.keyboard) s.mapping)
        (chooseTarget (mieqProcessInputEvents s.keyboard) keysym).1.addedKeysyms := by
  rw [chooseTarget_state, addedKey]
  cases hmatch : matchTarget (mieqProcessInputEvents s.keyboard) keysym with
  | some t => exact ⟨hi.valid, hi.listed⟩
  | none =>
    have hnew := hok (by rw [hmatch]; rfl)
    cases hadd : lorieAddKeysym (mieqProcessInputEvents s.keyboard) keysym with
    | mk s' target =>
      exact inv_add (s := mieqProcessInputEvents s.keyboard) hi.valid hi.listed hnew hadd

theorem inv_step {s s' : Session} {a : Act} (hi : Inv s) (hok : NoneMistaken s a)
    (h : step s a = some s') : Inv s' := by
  cases a with
  | keymap d valid =>
    cases h
    exact ⟨valid, hi.listed.changed hok⟩
  | modifiers mods group =>
    cases h
    exact ⟨hi.valid, hi.listed⟩
  | keysym keysym down =>
    cases down with
    | false =>
      cases h
      obtain ⟨hxkb, hadded⟩ := keysymRelease_keymap keysym s.keyboard
      refine ⟨?_, ?_⟩
      · change Valid (keysymRelease keysym s.keyboard).xkb
        rw [hxkb]
        exact hi.valid
      · change Listed (keysymRelease keysym s.keyboard).xkb _ _
          (keysymRelease keysym s.keyboard).addedKeysyms
        rw [hxkb, hadded]
        exact hi.listed
    | true =>
      cases h
      obtain ⟨hvalid, hlisted⟩ := inv_press hi hok
      obtain ⟨hxkb, hadded⟩ := keysymPress_keymap keysym s.keyboard
      refine ⟨?_, ?_⟩
      · change Valid (keysymPress keysym s.keyboard).xkb
        rw [hxkb]
        exact hvalid
      · change Listed (keysymPress keysym s.keyboard).xkb
          ((usedKey keysym s.keyboard).toList ++ (addedKey keysym s.keyboard).toList ++ s.uses) _
          (keysymPress keysym s.keyboard).addedKeysyms
        rw [hxkb, hadded, List.append_assoc]
        cases usedKey keysym s.keyboard with
        | none => exact hlisted
        | some key => exact hlisted.used key

/-- A key with a keysym has an entry that is right. -/
theorem Inv.entry {s : Session} (hi : Inv s) {key : ℕ} (hkey : (s.mapping key).isSome) :
    ∃ e ∈ s.keyboard.addedKeysyms, e.Intact s.keyboard.xkb ∧ e.keycode = key := by
  obtain ⟨keysym, hkeysym⟩ := Option.isSome_iff_exists.mp hkey
  obtain ⟨hmem, hintact⟩ := (hi.listed.mapping keysym key).mp hkeysym
  exact ⟨_, hmem, hintact, rfl⟩

theorem takes_free (s : State) (keysym : KeySym)
    (hfree : ∃ key, s.xkb.InRange key ∧ (s.xkb.keys key).numGroups = 0) :
    ∃ key, (lorieAddKeysym s keysym).2 = some key ∧ s.xkb.InRange key ∧
      (s.xkb.keys key).numGroups = 0 := by
  obtain ⟨key, hrange, hgroups⟩ := hfree
  rcases takeKey_cases s.xkb s.addedKeysyms with ⟨k, hk, htake⟩ | ⟨hnone, -⟩ | ⟨hnone, -⟩
  · refine ⟨k, ?_, freeKey_eq_some hk⟩
    rw [lorieAddKeysym_eq, htake]
  · exact absurd hgroups (freeKey_eq_none.mp hnone key hrange)
  · exact absurd hgroups (freeKey_eq_none.mp hnone key hrange)

/-- Without a free key, that of the last entry that is right is taken. -/
theorem takes_last {s : State} (keysym : KeySym)
    (hfull : ∀ key, s.xkb.InRange key → (s.xkb.keys key).numGroups ≠ 0) :
    ((lorieAddKeysym s keysym).2 = none ∧ ∀ e ∈ s.addedKeysyms, ¬ e.Intact s.xkb) ∨
      ∃ l₁ e l₂, s.addedKeysyms = l₁ ++ e :: l₂ ∧ e.Intact s.xkb ∧
        (∀ x ∈ l₂, ¬ x.Intact s.xkb) ∧ (lorieAddKeysym s keysym).2 = some e.keycode := by
  rw [lorieAddKeysym_eq]
  rcases takeKey_cases s.xkb s.addedKeysyms with ⟨k, hfree, -⟩ | ⟨-, hall, htake⟩ |
    ⟨-, l₁, e, l₂, hl, he, hdead, htake⟩
  · cases (freeKey_eq_none.mpr hfull).symm.trans hfree
  · rw [htake]
    exact .inl ⟨rfl, hall⟩
  · rw [htake]
    exact .inr ⟨l₁, e, l₂, hl, he, hdead, rfl⟩

theorem Inv.takesOldest {s : Session} (hi : Inv s) : s.TakesOldest := by
  constructor
  · exact fun hfree keysym => takes_free s.keyboard keysym hfree
  · intro hfull keysym key hadd
    rcases takes_last keysym hfull with ⟨hnone, -⟩ | ⟨l₁, e, l₂, hl, he, hdead, hsome⟩
    · cases hadd.symm.trans hnone
    · obtain rfl : key = e.keycode := Option.some.inj (hadd.symm.trans hsome)
      have hrecent := hi.listed.recent
      have hmem : e ∈ s.keyboard.addedKeysyms := by
        rw [hl]
        exact List.mem_append_right _ List.mem_cons_self
      refine ⟨?_, fun other hother => ?_⟩
      · rw [(hi.listed.mapping e.keysym e.keycode).mpr ⟨hmem, he⟩]
        rfl
      · obtain ⟨x, hx, hintact, rfl⟩ := hi.entry hother
        rw [hl] at hrecent hx
        exact hrecent.idxOf_le he hdead hx hintact
  · intro hfull keysym hadd key
    rcases takes_last keysym hfull with ⟨-, hall⟩ | ⟨l₁, e, l₂, -, -, -, hsome⟩
    · by_contra hkey
      obtain ⟨e, hmem, hintact, -⟩ := hi.entry (Option.isSome_iff_ne_none.mpr hkey)
      exact hall e hmem hintact
    · cases hadd.symm.trans hsome

/-- In every run in which no key that somebody else has touched looks right, it is a free key or
the least recently used one that is taken, in every state. -/
theorem takes_oldest {s₀ s : Session} {as : List Act} (hfresh : s₀.Fresh)
    (hok : Meets step NoneMistaken s₀ as) (hrun : run step s₀ as = some s) : s.TakesOldest :=
  (Machine.run_invariant (fun _ _ _ hi hok hs => inv_step hi hok hs) hfresh.inv hok
    hrun).takesOldest

/-- Two keys, both of them free. -/
def twoKeys : XkbDesc where
  minKeyCode := 8
  maxKeyCode := 9
  types := [{}, {}, { mods := 0x01, numLevels := 2, map := [⟨true, 1, 0x01, 0⟩] }]
  keys _ := {}
  modmap _ := 0
  names := none
  legal := by decide

/-- The same with a keysym on the lower key. -/
def upperFree : XkbDesc :=
  { twoKeys with
    keys := fun key =>
      if key = 8 then
        { ktIndex := Function.update (fun _ => 0) 0 2, groupInfo := 1, width := 2,
          syms := [0x1008ff12, 0x1008ff12] }
      else {} }

theorem valid_twoKeys : Valid twoKeys :=
  ⟨rfl, fun _ => rfl, fun _ h => absurd h (show ¬ 0 < ({} : Key).numGroups by decide)⟩

theorem valid_upperFree : Valid upperFree := by
  refine ⟨rfl, fun key => ?_, fun key => ?_⟩
  · simp only [upperFree]
    split
    · rfl
    · rfl
  · simp only [upperFree]
    split
    · exact fun _ => Nat.two_pos
    · exact fun h => absurd h (by decide)

def noneAdded : Session where
  keyboard := { xkb := twoKeys, lookupMods := 0, group := 0, down := fun _ => false }

/-- Both keys are given keysyms, and the one that is pressed again is not taken. -/
theorem noneAdded_takes : ∃ s,
    run step noneAdded
      [.keysym 0x1008ff11 true, .keysym 0x1008ff12 true, .keysym 0x1008ff11 true] = some s ∧
      (lorieAddKeysym s.keyboard 0x1008ff14).2 = some 8 ∧
      s.uses.idxOf 9 ≤ s.uses.idxOf 8 := by
  have hfresh : noneAdded.Fresh := ⟨valid_twoKeys, rfl, fun _ => rfl⟩
  have hok : Meets step NoneMistaken noneAdded
      [.keysym 0x1008ff11 true, .keysym 0x1008ff12 true, .keysym 0x1008ff11 true] := by
    decide +kernel
  have hkeep := takes_oldest hfresh hok rfl
  refine ⟨_, rfl, ?_, (hkeep.oldest (freeKey_eq_none.mp ?_) 0x1008ff14 8 ?_).2 9 ?_⟩
  · decide +kernel
  · decide +kernel
  · decide +kernel
  · decide +kernel

/-- The upper key is cleared by a client and given its keysym again.  It is the last one used,
but it is taken. -/
theorem noneAdded_evicted : ∃ s,
    run step noneAdded
      [.keysym 0x1008ff11 true, .keysym 0x1008ff12 true, .keymap upperFree valid_upperFree,
        .keysym 0x1008ff11 true] = some s ∧
      (lorieAddKeysym s.keyboard 0x1008ff14).2 = some 9 ∧
      s.mapping 8 = some 0x1008ff12 ∧ s.uses.idxOf 9 < s.uses.idxOf 8 := by
  refine ⟨_, rfl, ?_, ?_, ?_⟩
  · decide +kernel
  · decide +kernel
  · decide +kernel

/-- The keymap with both keysyms, but other symbols behind the first one of the upper key. -/
def upperRedefined : XkbDesc :=
  { twoKeys with
    keys := fun key =>
      if key = 8 then
        { ktIndex := Function.update (fun _ => 0) 0 2, groupInfo := 1, width := 2,
          syms := [0x1008ff12, 0x1008ff12] }
      else if key = 9 then
        { ktIndex := fun _ => 1, groupInfo := 2, width := 2,
          syms := [0x1008ff11, 0x41, 0x62, 0x42] }
      else {} }

theorem valid_upperRedefined : Valid upperRedefined := by
  refine ⟨rfl, fun key => ?_, fun key => ?_⟩
  · simp only [upperRedefined]
    split
    · rfl
    split
    · rfl
    · rfl
  · simp only [upperRedefined]
    split
    · exact fun _ => Nat.two_pos
    split
    · exact fun _ => Nat.two_pos
    · exact fun h => absurd h (by decide)

/-- A key that a client has given other symbols behind the first one is taken from it. -/
example : ∃ s,
    run step noneAdded
      [.keysym 0x1008ff11 true, .keysym 0x1008ff12 true,
        .keymap upperRedefined valid_upperRedefined] = some s ∧
      s.mapping 9 = none ∧ (lorieAddKeysym s.keyboard 0x1008ff14).2 = some 9 := by
  refine ⟨_, rfl, ?_, ?_⟩
  · decide +kernel
  · decide +kernel

end Keyboard.Reuse
