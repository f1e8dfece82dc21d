/-
Keysyms from the viewer as key events (`lorieKeysymKeyboardEvent` and `lorieAddKeysym` in
`InputXKB.c`, `QueueKeyboardEvents` in `getevents.c`).

A press chooses a key, then queues fake presses or releases of Shift and of the level three
modifier, the key, and the opposites of the fakes.  Nothing of this is processed before the end,
so the lookups in between see the keyboard as it was.  What the events do to the modifiers is
XKB's and not modelled: `lookupMods` and `group` are whatever they are when a call starts.

* `chooseTarget` — the key and the modifiers it needs, with a key added to the keymap if need be;
* `fakeShift`, `fakeLevelThree` — the fakes, or the lack of a key for them;
* `lorieKeysymKeyboardEvent` — a press or a release;
* `fakes_undone_iff` — when the fakes of a press are undone, and leave the other keys alone.
-/
import KaliGui.Keyboard.Lookup
import KaliGui.Lib.Latches

namespace Keyboard

open Latch (Write apply wrap)

/-! ### Added keysyms -/

def saveAddedKeysym (keycode : ℕ) (keysym : KeySym) (l : List AddedKeySym) : List AddedKeySym :=
  ⟨keysym, keycode⟩ :: l

def vncOnKeyUsed (usedKeycode : ℕ) (l : List AddedKeySym) : List AddedKeySym :=
  match l.find? (·.keycode = usedKeycode) with
  | none => l
  | some it => it :: l.eraseP (·.keycode = usedKeycode)

/-- Nobody else has modified the key. -/
def AddedKeySym.Intact (d : XkbDesc) (it : AddedKeySym) : Prop :=
  0 < (d.keys it.keycode).numGroups ∧
    (d.keys it.keycode).syms.getD 0 noSymbol = it.keysym ∧
    ∀ names ∈ d.names, (names it.keycode).head? = some 'T'

instance (d : XkbDesc) (it : AddedKeySym) : Decidable (it.Intact d) :=
  inferInstanceAs (Decidable (_ ∧ _ ∧ _))

/-- The keycode, and what is left of the list; here the last of the list is first. -/
def getReusableKeycode (d : XkbDesc) : List AddedKeySym → Option ℕ × List AddedKeySym
  | [] => (none, [])
  | last :: rest =>
    if last.Intact d then (some last.keycode, rest) else getReusableKeycode d rest

def xkbAlphabeticIndex : ℕ := 2

/-- The name of an added key. -/
def addedName (key : ℕ) : List Char :=
  let digit (n : ℕ) := Char.ofNat ('0'.toNat + n % 10)
  ['T', digit (key / 100), digit (key / 10), digit key]

def lorieAddKeysym (s : State) (keysym : KeySym) : State × Option ℕ :=
  let (key, added) :=
    match s.xkb.keyCodes.reverse.find? fun key => (s.xkb.keys key).numGroups = 0 with
    | some key => (some key, s.addedKeysyms)
    | none =>
      let (key, rest) := getReusableKeycode s.xkb s.addedKeysyms.reverse
      (key, rest.reverse)
  match key with
  | none => ({ s with addedKeysyms := added }, none)
  | some key =>
    let (lower, upper) := xkbConvertCase keysym
    let named := { s.xkb with
      names := s.xkb.names.map fun names => Function.update names key (addedName key) }
    let d := xkbChangeTypesOfKey named key xkbAlphabeticIndex
    let k := d.keys key
    ({ s with
      xkb := { d with
        keys := Function.update d.keys key { k with
          syms := (k.syms.set 0 lower).set 1 upper } }
      addedKeysyms := saveAddedKeysym key lower added }, some key)

/-! ### The key -/

def altKeysym : List (KeySym × KeySym) :=
  [(0xffe1, 0xffe2), (0xffe3, 0xffe4), (0xffe7, 0xffe8), (0xffe9, 0xffea), (0xffeb, 0xffec),
    (0xffed, 0xffee),
    -- the numeric pad
    (0xff80, 0x20), (0xff89, 0xff09), (0xff8d, 0xff0d), (0xff91, 0xffbe), (0xff92, 0xffbf),
    (0xff93, 0xffc0), (0xff94, 0xffc1), (0xff95, 0xff50), (0xff96, 0xff51), (0xff97, 0xff52),
    (0xff98, 0xff53), (0xff99, 0xff54), (0xff9a, 0xff55), (0xff9b, 0xff56), (0xff9c, 0xff57),
    (0xff9d, 0xff58), (0xff9e, 0xff63), (0xff9f, 0xffff), (0xffbd, 0x3d), (0xffaa, 0x2a),
    (0xffab, 0x2b), (0xffac, 0x2c), (0xffad, 0x2d), (0xffae, 0x2e), (0xffaf, 0x2f),
    (0xffb0, 0x30), (0xffb1, 0x31), (0xffb2, 0x32), (0xffb3, 0x33), (0xffb4, 0x34),
    (0xffb5, 0x35), (0xffb6, 0x36), (0xffb7, 0x37), (0xffb8, 0x38), (0xffb9, 0x39),
    (0xfe03, 0xff7e)]

/-- The equivalents of a keysym, in the order of the table. -/
def altKeysyms (keysym : KeySym) : List KeySym :=
  altKeysym.filterMap fun (a, b) =>
    if a = keysym then some b else if b = keysym then some a else none

/-- A key for the keysym, or for an equivalent, or a new one. -/
def matchKeysym (s : State) (keysym : KeySym) (state : BitVec 32) : State × Option Target :=
  match lorieKeysymToKeycode s keysym state <|>
      (altKeysyms keysym).findSome? fun alt => lorieKeysymToKeycode s alt state with
  | some t => (s, some t)
  | none =>
    match lorieAddKeysym s keysym with
    | (s, none) => (s, none)
    | (s, some _) => (s, lorieKeysymToKeycode s keysym state)

/-- The key would take a fake Shift where NumLock would do. -/
def FakesNumLock (s : State) (state : BitVec 32) (t : Target) : Prop :=
  state &&& shiftMask ≠ t.newState &&& shiftMask ∧ lorieIsAffectedByNumLock s t.keycode = true

instance (s : State) (state : BitVec 32) (t : Target) : Decidable (FakesNumLock s state t) :=
  inferInstanceAs (Decidable (_ ∧ _))

def avoidFakeNumLock (s : State) (keysym : KeySym) (state : BitVec 32) (t : Target) : Target :=
  if FakesNumLock s state t then
    ((altKeysyms keysym).findSome? fun alt =>
      (lorieKeysymToKeycode s alt state).filter fun t => ¬ FakesNumLock s state t).getD t
  else t

/-- "Shifted Tab" keeps its Shift. -/
def keepTabShift (keysym : KeySym) (state : BitVec 32) (t : Target) : Target :=
  if keysym = xkTab ∧ state &&& shiftMask ≠ 0 then
    { t with newState := t.newState ||| shiftMask }
  else t

def chooseTarget (s : State) (keysym : KeySym) : State × Option Target :=
  let state := lorieGetKeyboardState s
  let (s, t) := matchKeysym s keysym state
  (s, t.map fun t => keepTabShift keysym state (avoidFakeNumLock s keysym state t))

/-! ### Fakes -/

/-- A state without the mask is to become one with it. -/
def Needs (state newState mask : BitVec 32) : Prop :=
  state &&& mask = 0 ∧ newState &&& mask ≠ 0

instance (state newState mask : BitVec 32) : Decidable (Needs state newState mask) :=
  inferInstanceAs (Decidable (_ ∧ _))

/-- The fakes for a mask; `none` if there is no key for it. -/
def fakeModifier (reason : Reason) (state newState mask : BitVec 32) (press : Option ℕ)
    (release : List ℕ) : Option (List KeyEvent) :=
  if Needs state newState mask then press.map fun key => [⟨true, key, reason⟩]
  else if Needs newState state mask then
    if release = [] then none else some (release.map fun key => ⟨false, key, reason⟩)
  else some []

/-- `level_three_mask` -/
def levelThreeMask (s : State) (t : Target) : BitVec 32 :=
  if t.newState &&& ~~~ shiftMask ≠ lorieGetKeyboardState s &&& ~~~ shiftMask then
    lorieGetLevelThreeMask s
  else 0

/-- The length of `shift_release` and `level_three_release`. -/
def maxRelease : ℕ := 8

def fakeShift (s : State) (t : Target) : Option (List KeyEvent) :=
  fakeModifier .tempShift (lorieGetKeyboardState s) t.newState shiftMask
    (loriePressShift s) (lorieReleaseShift s maxRelease)

def fakeLevelThree (s : State) (t : Target) : Option (List KeyEvent) :=
  fakeModifier .tempLevelThree (lorieGetKeyboardState s) t.newState (levelThreeMask s t)
    (loriePressLevelThree s) (lorieReleaseLevelThree s maxRelease)

/-! ### Events -/

def KeyEvent.opposite (e : KeyEvent) : KeyEvent := { e with press := !e.press }

def KeyEvent.write (e : KeyEvent) : Write ℕ := ⟨e.keycode, e.press⟩

/-- A repeated press may be dropped; the key is down all the same. -/
def queueKeyboardEvents (e : KeyEvent) (s : State) : State :=
  if e.keycode < 8 ∨ 255 < e.keycode then s
  else { s with pending := s.pending ++ [e], queued := s.queued ++ [e] }

def queueAll : List KeyEvent → State → State
  | [], s => s
  | e :: es, s => queueAll es (queueKeyboardEvents e s)

def mieqProcessInputEvents (s : State) : State :=
  { s with pending := [], down := apply (s.pending.map KeyEvent.write) s.down }

/-- `pressedKeys` with the key as the only one for the keysym. -/
def recordPress (keysym : KeySym) (keycode : ℕ) (pressedKeys : ℕ → KeySym) (i : ℕ) : KeySym :=
  if i = keycode then keysym else if pressedKeys i = keysym then noSymbol else pressedKeys i

/-- `lorieKeysymKeyboardEvent` with `down`; the early returns are those of its failures. -/
def keysymPress (keysym : KeySym) (s : State) : State :=
  let s := mieqProcessInputEvents s
  match chooseTarget s keysym with
  | (s, none) => s
  | (s, some t) =>
    match fakeShift s t with
    | none => s
    | some shift =>
      let s := queueAll shift s
      match fakeLevelThree s t with
      | none => s
      | some levelThree =>
        let s := queueAll levelThree s
        let s := queueKeyboardEvents ⟨true, t.keycode, .keycode⟩ s
        let s := { s with
          addedKeysyms := vncOnKeyUsed t.keycode s.addedKeysyms
          pressedKeys := recordPress keysym t.keycode s.pressedKeys }
        let s := queueAll (levelThree.map KeyEvent.opposite) s
        let s := queueAll (shift.map KeyEvent.opposite) s
        mieqProcessInputEvents s

/-- `lorieKeysymKeyboardEvent` without `down`. -/
def keysymRelease (keysym : KeySym) (s : State) : State :=
  match (List.range 256).find? fun i => s.pressedKeys i = keysym with
  | none => s
  | some i =>
    let s := { s with pressedKeys := Function.update s.pressedKeys i noSymbol }
    mieqProcessInputEvents (queueKeyboardEvents ⟨false, i, .keycode⟩ s)

def lorieKeysymKeyboardEvent (keysym : KeySym) (down : Bool) (s : State) : State :=
  if down then keysymPress keysym s else keysymRelease keysym s

/-! ### What a press queues -/

/-- The fakes, the key, and the opposites of the fakes. -/
def pressEvents (keycode : ℕ) (shift levelThree : List KeyEvent) : List KeyEvent :=
  shift ++ (levelThree ++ [⟨true, keycode, .keycode⟩] ++ levelThree.map KeyEvent.opposite) ++
    shift.map KeyEvent.opposite

/-- What choosing a key leaves alone. -/
structure SameKeys (s s' : State) : Prop where
  down : s'.down = s.down
  pending : s'.pending = s.pending
  queued : s'.queued = s.queued
  pressedKeys : s'.pressedKeys = s.pressedKeys

theorem SameKeys.refl (s : State) : SameKeys s s := ⟨rfl, rfl, rfl, rfl⟩

theorem lorieAddKeysym_sameKeys (s : State) (keysym : KeySym) :
    SameKeys s (lorieAddKeysym s keysym).1 := by
  rw [lorieAddKeysym]
  split
  split
  · exact ⟨rfl, rfl, rfl, rfl⟩
  · exact ⟨rfl, rfl, rfl, rfl⟩

theorem matchKeysym_sameKeys (s : State) (keysym : KeySym) (state : BitVec 32) :
    SameKeys s (matchKeysym s keysym state).1 := by
  have hadd := lorieAddKeysym_sameKeys s keysym
  rw [matchKeysym]
  split
  · exact SameKeys.refl s
  · split
    next hs =>
      rw [hs] at hadd
      exact hadd
    next hs =>
      rw [hs] at hadd
      exact hadd

theorem chooseTarget_sameKeys (s : State) (keysym : KeySym) :
    SameKeys s (chooseTarget s keysym).1 := matchKeysym_sameKeys s keysym _

theorem altKeysyms_ne_noSymbol {keysym alt : KeySym} (h : alt ∈ altKeysyms keysym) :
    keysym ≠ noSymbol := by
  have htable : ∀ p ∈ altKeysym, p.1 ≠ noSymbol ∧ p.2 ≠ noSymbol := by decide
  obtain ⟨⟨a, b⟩, hmem, halt⟩ := List.mem_filterMap.mp h
  obtain ⟨ha, hb⟩ := htable _ hmem
  dsimp only at halt
  split at halt
  next heq => exact heq ▸ ha
  next =>
    split at halt
    next heq => exact heq ▸ hb
    next => cases halt

theorem matchKeysym_eq_some {s s' : State} {keysym : KeySym} {state : BitVec 32} {t : Target}
    (h : matchKeysym s keysym state = (s', some t)) :
    s'.xkb.InRange t.keycode ∧ keysym ≠ noSymbol := by
  rw [matchKeysym] at h
  split at h
  next t' ht =>
    cases h
    rcases (Option.orElse_eq_some _ _ _).mp ht with ht | ⟨-, ht⟩
    · obtain ⟨hrange, hkeysym, -⟩ := lorieKeysymToKeycode_eq_some ht
      exact ⟨hrange, hkeysym⟩
    · obtain ⟨alt, halt, ht⟩ := List.exists_of_findSome?_eq_some ht
      exact ⟨(lorieKeysymToKeycode_eq_some ht).1, altKeysyms_ne_noSymbol halt⟩
  next =>
    split at h
    · cases h
    next s₁ key hadd =>
      obtain ⟨rfl, ht⟩ := Prod.mk.inj h
      obtain ⟨hrange, hkeysym, -⟩ := lorieKeysymToKeycode_eq_some ht
      exact ⟨hrange, hkeysym⟩

theorem avoidFakeNumLock_inRange {s : State} {keysym : KeySym} {state : BitVec 32} {t : Target}
    (h : s.xkb.InRange t.keycode) :
    s.xkb.InRange (avoidFakeNumLock s keysym state t).keycode := by
  rw [avoidFakeNumLock]
  split
  · cases halt : (altKeysyms keysym).findSome? fun alt =>
        (lorieKeysymToKeycode s alt state).filter fun t => ¬ FakesNumLock s state t with
    | none => exact h
    | some t' =>
      obtain ⟨alt, -, ht'⟩ := List.exists_of_findSome?_eq_some halt
      exact (lorieKeysymToKeycode_eq_some (Option.filter_eq_some_iff.mp ht').1).1
  · exact h

/-- The key that is chosen is in the keymap; and there is none for `NoSymbol`. -/
theorem chooseTarget_eq_some {s s' : State} {keysym : KeySym} {t : Target}
    (h : chooseTarget s keysym = (s', some t)) :
    s'.xkb.InRange t.keycode ∧ keysym ≠ noSymbol := by
  rw [chooseTarget] at h
  obtain ⟨hs, ht⟩ := Prod.mk.inj h
  obtain ⟨t', ht', rfl⟩ := Option.map_eq_some_iff.mp ht
  obtain ⟨hrange, hkeysym⟩ := matchKeysym_eq_some (Prod.ext hs ht')
  rw [hs]
  refine ⟨?_, hkeysym⟩
  rw [keepTabShift]
  split
  · exact avoidFakeNumLock_inRange hrange
  · exact avoidFakeNumLock_inRange hrange

def KeyEvent.Legal (e : KeyEvent) : Prop := 8 ≤ e.keycode ∧ e.keycode ≤ 255

theorem queueKeyboardEvents_of_legal {e : KeyEvent} (he : e.Legal) (s : State) :
    queueKeyboardEvents e s =
      { s with pending := s.pending ++ [e], queued := s.queued ++ [e] } := by
  rw [queueKeyboardEvents, if_neg]
  rw [KeyEvent.Legal] at he
  omega

theorem queueAll_of_legal {es : List KeyEvent} (hes : ∀ e ∈ es, e.Legal) (s : State) :
    queueAll es s = { s with pending := s.pending ++ es, queued := s.queued ++ es } := by
  induction es generalizing s with
  | nil => rw [queueAll, List.append_nil, List.append_nil]
  | cons e es ih =>
    rw [queueAll, queueKeyboardEvents_of_legal (hes e List.mem_cons_self),
      ih fun f hf => hes f (List.mem_cons_of_mem _ hf)]
    simp only [List.append_assoc, List.singleton_append]

theorem legal_opposite {es : List KeyEvent} (hes : ∀ e ∈ es, e.Legal) :
    ∀ e ∈ es.map KeyEvent.opposite, e.Legal := by
  intro e he
  obtain ⟨f, hf, rfl⟩ := List.mem_map.mp he
  exact hes f hf

/-- The three things that a fake can be. -/
theorem fakeModifier_eq_some {reason : Reason} {state newState mask : BitVec 32}
    {press : Option ℕ} {release : List ℕ} {fakes : List KeyEvent}
    (h : fakeModifier reason state newState mask press release = some fakes) :
    (Needs state newState mask ∧ ∃ key, press = some key ∧ fakes = [⟨true, key, reason⟩]) ∨
      (Needs newState state mask ∧ release ≠ [] ∧
        fakes = release.map fun key => ⟨false, key, reason⟩) ∨
      (¬ Needs state newState mask ∧ ¬ Needs newState state mask ∧ fakes = []) := by
  rw [fakeModifier] at h
  split at h
  next hpress =>
    obtain ⟨key, hkey, rfl⟩ := Option.map_eq_some_iff.mp h
    exact .inl ⟨hpress, key, hkey, rfl⟩
  next hpress =>
    split at h
    next hrelease =>
      split at h
      · cases h
      next hne =>
        cases h
        exact .inr (.inl ⟨hrelease, hne, rfl⟩)
    next hrelease =>
      cases h
      exact .inr (.inr ⟨hpress, hrelease, rfl⟩)

theorem fakeModifier_eq_none {reason : Reason} {state newState mask : BitVec 32}
    {press : Option ℕ} {release : List ℕ} :
    fakeModifier reason state newState mask press release = none ↔
      Needs state newState mask ∧ press = none ∨ Needs newState state mask ∧ release = [] := by
  rw [fakeModifier]
  split
  next hpress =>
    have hrelease : ¬ Needs newState state mask := fun hrelease => hrelease.2 hpress.1
    rw [Option.map_eq_none_iff, and_iff_right hpress]
    exact ⟨Or.inl, fun h => h.resolve_right fun h => hrelease h.1⟩
  next hpress =>
    have hno : ¬ (Needs state newState mask ∧ press = none) := fun h => hpress h.1
    split
    next hrelease =>
      rw [or_iff_right hno, and_iff_right hrelease]
      split
      next hnil => exact ⟨fun _ => hnil, fun _ => rfl⟩
      next hne => exact ⟨fun h => (Option.some_ne_none _ h).elim, fun h => absurd h hne⟩
    next hrelease =>
      rw [or_iff_right hno]
      exact ⟨fun h => (Option.some_ne_none _ h).elim, fun h => absurd h.1 hrelease⟩

theorem fakeShift_legal {s : State} {t : Target} {fakes : List KeyEvent}
    (h : fakeShift s t = some fakes) : ∀ e ∈ fakes, e.Legal := by
  intro e he
  rcases fakeModifier_eq_some h with ⟨-, key, hkey, rfl⟩ | ⟨-, -, rfl⟩ | ⟨-, -, rfl⟩
  · rw [List.mem_singleton.mp he]
    exact (loriePressShift_inRange hkey).legal
  · obtain ⟨key, hkey, rfl⟩ := List.mem_map.mp he
    exact (mem_releaseKeys hkey).1.legal
  · cases he

theorem fakeLevelThree_legal {s : State} {t : Target} {fakes : List KeyEvent}
    (h : fakeLevelThree s t = some fakes) : ∀ e ∈ fakes, e.Legal := by
  intro e he
  rcases fakeModifier_eq_some h with ⟨-, key, hkey, rfl⟩ | ⟨-, -, rfl⟩ | ⟨-, -, rfl⟩
  · rw [List.mem_singleton.mp he]
    exact (loriePressLevelThree_inRange hkey).legal
  · obtain ⟨key, hkey, rfl⟩ := List.mem_map.mp he
    exact (mem_releaseKeys hkey).1.legal
  · cases he

/-- The keys that are down once a state's events are processed. -/
def downAfter (s : State) : ℕ → Bool := (mieqProcessInputEvents s).down

/-- A press has chosen its key with nothing pending. -/
theorem chooseTarget_processed {s s' : State} {keysym : KeySym} {t : Option Target}
    (h : chooseTarget (mieqProcessInputEvents s) keysym = (s', t)) :
    s'.pending = [] ∧ s'.down = downAfter s ∧ s'.queued = s.queued ∧
      s'.pressedKeys = s.pressedKeys := by
  have hsame := chooseTarget_sameKeys (mieqProcessInputEvents s) keysym
  rw [h] at hsame
  exact ⟨hsame.pending, hsame.down, hsame.queued, hsame.pressedKeys⟩

/-- A press that gets to its end. -/
theorem keysymPress_done {s s' : State} {keysym : KeySym} {t : Target}
    {shift levelThree : List KeyEvent}
    (hchoose : chooseTarget (mieqProcessInputEvents s) keysym = (s', some t))
    (hshift : fakeShift s' t = some shift) (hlevel : fakeLevelThree s' t = some levelThree) :
    (keysymPress keysym s).queued = s.queued ++ pressEvents t.keycode shift levelThree ∧
      downAfter (keysymPress keysym s) =
        apply ((pressEvents t.keycode shift levelThree).map KeyEvent.write) (downAfter s) ∧
      (keysymPress keysym s).pressedKeys = recordPress keysym t.keycode s.pressedKeys := by
  obtain ⟨hpending, hdown, hqueued, hpressed⟩ := chooseTarget_processed hchoose
  have hkey := (chooseTarget_eq_some hchoose).1.legal
  have hqueue := queueAll_of_legal (fakeShift_legal hshift) s'
  have hlevel' : fakeLevelThree (queueAll shift s') t = some levelThree := by
    rw [hqueue]
    exact hlevel
  simp only [keysymPress, hchoose, hshift, hlevel']
  rw [hqueue, queueAll_of_legal (fakeLevelThree_legal hlevel),
    queueKeyboardEvents_of_legal (show (⟨true, t.keycode, .keycode⟩ : KeyEvent).Legal from hkey),
    queueAll_of_legal (legal_opposite (fakeLevelThree_legal hlevel)),
    queueAll_of_legal (legal_opposite (fakeShift_legal hshift))]
  refine ⟨?_, ?_, ?_⟩
  · simp only [mieqProcessInputEvents, hqueued, pressEvents, List.append_assoc]
  · simp only [downAfter, mieqProcessInputEvents, hpending, pressEvents, List.nil_append,
      List.append_assoc, List.map_nil, Latch.apply_nil]
    rw [hdown]
    rfl
  · simp only [mieqProcessInputEvents, hpressed]

/-- A press that fails at level three, with the fakes for Shift on the queue. -/
theorem keysymPress_failed {s s' : State} {keysym : KeySym} {t : Target}
    {shift : List KeyEvent}
    (hchoose : chooseTarget (mieqProcessInputEvents s) keysym = (s', some t))
    (hshift : fakeShift s' t = some shift) (hlevel : fakeLevelThree s' t = none) :
    (keysymPress keysym s).queued = s.queued ++ shift ∧
      downAfter (keysymPress keysym s) = apply (shift.map KeyEvent.write) (downAfter s) := by
  obtain ⟨hpending, hdown, hqueued, -⟩ := chooseTarget_processed hchoose
  have hqueue := queueAll_of_legal (fakeShift_legal hshift) s'
  have hlevel' : fakeLevelThree (queueAll shift s') t = none := by
    rw [hqueue]
    exact hlevel
  simp only [keysymPress, hchoose, hshift, hlevel']
  rw [hqueue]
  refine ⟨?_, ?_⟩
  · rw [hqueued]
  · simp only [downAfter, mieqProcessInputEvents, hpending, List.nil_append]
    rw [hdown]
    rfl

/-- A press that fails before it fakes anything. -/
theorem keysymPress_nothing {s : State} {keysym : KeySym}
    (h : ∀ s' t, chooseTarget (mieqProcessInputEvents s) keysym = (s', some t) →
      fakeShift s' t = none) :
    (keysymPress keysym s).queued = s.queued ∧ downAfter (keysymPress keysym s) = downAfter s := by
  cases hchoose : chooseTarget (mieqProcessInputEvents s) keysym with
  | mk s' t =>
    obtain ⟨hpending, hdown, hqueued, -⟩ := chooseTarget_processed hchoose
    have hpress : keysymPress keysym s = s' := by
      cases t with
      | none => simp only [keysymPress, hchoose]
      | some t => simp only [keysymPress, hchoose, h s' t hchoose]
    rw [hpress]
    refine ⟨hqueued, ?_⟩
    rw [downAfter, mieqProcessInputEvents, hpending, hdown]
    rfl

/-! ### The fakes are undone -/

/-- The fakes for each modifier, then their opposites in the same order. -/
def Undone (es : List KeyEvent) : Prop :=
  ∀ reason, reason ≠ .keycode →
    ∃ fakes, es.filter (·.reason = reason) = fakes ++ fakes.map KeyEvent.opposite

/-- Every fake that a press queues is undone, and no key is left changed but the one that is
recorded for the keysym. -/
structure FakesUndone (keysym : KeySym) (s : State) : Prop where
  undone : ∃ es, (lorieKeysymKeyboardEvent keysym true s).queued = s.queued ++ es ∧ Undone es
  others : ∀ key,
    downAfter (lorieKeysymKeyboardEvent keysym true s) key ≠ downAfter s key →
      (lorieKeysymKeyboardEvent keysym true s).pressedKeys key = keysym

/-- A modifier is to be faked. -/
def Fakes (s : State) (t : Target) (mask : BitVec 32) : Prop :=
  Needs (lorieGetKeyboardState s) t.newState mask ∨
    Needs t.newState (lorieGetKeyboardState s) mask

/-- There is no key to fake it with. -/
def NoShiftKey (s : State) (t : Target) : Prop :=
  Needs (lorieGetKeyboardState s) t.newState shiftMask ∧ loriePressShift s = none ∨
    Needs t.newState (lorieGetKeyboardState s) shiftMask ∧ lorieReleaseShift s maxRelease = []

def NoLevelThreeKey (s : State) (t : Target) : Prop :=
  Needs (lorieGetKeyboardState s) t.newState (levelThreeMask s t) ∧
      loriePressLevelThree s = none ∨
    Needs t.newState (lorieGetKeyboardState s) (levelThreeMask s t) ∧
      lorieReleaseLevelThree s maxRelease = []

/-- When a press of the key undoes its fakes. -/
structure CanUndo (s : State) (t : Target) : Prop where
  /-- level three does not fail when Shift has been faked -/
  levelThree : Fakes s t shiftMask → ¬ NoShiftKey s t → ¬ NoLevelThreeKey s t
  /-- the Shift key to press is up, or is the key itself -/
  shiftKey : Needs (lorieGetKeyboardState s) t.newState shiftMask →
    ∀ key ∈ loriePressShift s, s.down key = true → key = t.keycode
  /-- the same of level three, or it is one of the Shift keys that are released -/
  levelThreeKey : ¬ NoShiftKey s t →
    Needs (lorieGetKeyboardState s) t.newState (levelThreeMask s t) →
    ∀ key ∈ loriePressLevelThree s, s.down key = true → key = t.keycode ∨
      Needs t.newState (lorieGetKeyboardState s) shiftMask ∧
        key ∈ lorieReleaseShift s maxRelease

/-- The fakes for a modifier are all presses or all releases. -/
theorem fakeModifier_uniform {reason : Reason} {state newState mask : BitVec 32}
    {press : Option ℕ} {release : List ℕ} {fakes : List KeyEvent}
    (h : fakeModifier reason state newState mask press release = some fakes) :
    ∃ b, ∀ e ∈ fakes, e.press = b ∧ e.reason = reason := by
  rcases fakeModifier_eq_some h with ⟨-, key, -, rfl⟩ | ⟨-, -, rfl⟩ | ⟨-, -, rfl⟩
  · refine ⟨true, fun e he => ?_⟩
    rw [List.mem_singleton.mp he]
    exact ⟨rfl, rfl⟩
  · refine ⟨false, fun e he => ?_⟩
    obtain ⟨key, -, rfl⟩ := List.mem_map.mp he
    exact ⟨rfl, rfl⟩
  · exact ⟨true, fun e he => absurd he List.not_mem_nil⟩

theorem filter_opposite (es : List KeyEvent) (reason : Reason) :
    (es.map KeyEvent.opposite).filter (·.reason = reason) =
      (es.filter (·.reason = reason)).map KeyEvent.opposite := by
  rw [List.filter_map]
  rfl

theorem filter_reason {es : List KeyEvent} {reason : Reason}
    (h : ∀ e ∈ es, e.reason = reason) : es.filter (·.reason = reason) = es :=
  List.filter_eq_self.mpr fun e he => decide_eq_true (h e he)

theorem filter_other {es : List KeyEvent} {reason other : Reason}
    (h : ∀ e ∈ es, e.reason = reason) (hne : reason ≠ other) :
    es.filter (·.reason = other) = [] :=
  List.filter_eq_nil_iff.mpr fun e he => by
    rw [decide_eq_true_eq, h e he]
    exact hne

theorem undone_pressEvents {keycode : ℕ} {shift levelThree : List KeyEvent}
    (hshift : ∀ e ∈ shift, e.reason = .tempShift)
    (hlevel : ∀ e ∈ levelThree, e.reason = .tempLevelThree) :
    Undone (pressEvents keycode shift levelThree) := by
  intro reason hreason
  cases reason with
  | keycode => exact absurd rfl hreason
  | tempShift =>
    refine ⟨shift, ?_⟩
    have hno : levelThree.filter (·.reason = Reason.tempShift) = [] :=
      filter_other hlevel Reason.noConfusion
    have hkey : [(⟨true, keycode, .keycode⟩ : KeyEvent)].filter
        (·.reason = Reason.tempShift) = [] := rfl
    simp only [pressEvents, List.filter_append, filter_opposite, filter_reason hshift, hno, hkey,
      List.map_nil, List.append_nil]
  | tempLevelThree =>
    refine ⟨levelThree, ?_⟩
    have hno : shift.filter (·.reason = Reason.tempLevelThree) = [] :=
      filter_other hshift Reason.noConfusion
    have hkey : [(⟨true, keycode, .keycode⟩ : KeyEvent)].filter
        (·.reason = Reason.tempLevelThree) = [] := rfl
    simp only [pressEvents, List.filter_append, filter_opposite, filter_reason hlevel, hno, hkey,
      List.map_nil, List.append_nil, List.nil_append]

/-- Fakes alone are not undone. -/
theorem Undone.eq_nil {es : List KeyEvent} {b : Bool} {reason : Reason}
    (h : Undone es) (hes : ∀ e ∈ es, e.press = b ∧ e.reason = reason)
    (hreason : reason ≠ .keycode) : es = [] := by
  obtain ⟨fakes, hfakes⟩ := h reason hreason
  rw [filter_reason fun e he => (hes e he).2] at hfakes
  cases fakes with
  | nil => exact hfakes
  | cons e fakes =>
    have hfake := hes e (by rw [hfakes]; exact List.mem_cons_self)
    have hopposite := hes e.opposite (by
      rw [hfakes]
      exact List.mem_append_right _ (List.mem_map_of_mem List.mem_cons_self))
    have hb : (!e.press) = e.press := hopposite.1.trans hfake.1.symm
    cases hpress : e.press <;> rw [hpress] at hb <;> cases hb

theorem write_pressEvents (keycode : ℕ) (shift levelThree : List KeyEvent) :
    (pressEvents keycode shift levelThree).map KeyEvent.write =
      wrap (shift.map KeyEvent.write)
        (wrap (levelThree.map KeyEvent.write) [⟨keycode, true⟩]) := by
  simp only [pressEvents, wrap, List.map_append, List.map_map]
  rfl

/-- What fakes around a stream leave of a key. -/
theorem apply_wrap_fakes {reason : Reason} {state newState mask : BitVec 32}
    {press : Option ℕ} {release : List ℕ} {fakes : List KeyEvent}
    (h : fakeModifier reason state newState mask press release = some fakes)
    (ws : List (Write ℕ)) (f : ℕ → Bool) (key : ℕ) :
    (Needs state newState mask ∧ press = some key) ∧
        apply (wrap (fakes.map KeyEvent.write) ws) f key = false ∨
      (Needs newState state mask ∧ key ∈ release) ∧
        apply (wrap (fakes.map KeyEvent.write) ws) f key = true ∨
      (¬ (Needs state newState mask ∧ press = some key) ∧
        ¬ (Needs newState state mask ∧ key ∈ release)) ∧
        apply (wrap (fakes.map KeyEvent.write) ws) f key = apply ws f key := by
  have hexclusive : Needs state newState mask → ¬ Needs newState state mask :=
    fun hpress hrelease => hrelease.2 hpress.1
  rcases fakeModifier_eq_some h with ⟨hneeds, k, hk, rfl⟩ | ⟨hneeds, -, rfl⟩ | ⟨hp, hr, rfl⟩
  · by_cases hkey : k = key
    · rw [← hkey]
      refine .inl ⟨⟨hneeds, hk⟩, Latch.apply_wrap_of_const (b := true) ?_ ?_ ws f⟩
      · intro w hw
        rw [List.mem_singleton.mp hw]
        rfl
      · exact ⟨⟨k, true⟩, List.mem_singleton.mpr rfl, rfl⟩
    · refine .inr (.inr ⟨⟨fun hpress => ?_, fun hr => hexclusive hneeds hr.1⟩, ?_⟩)
      · rw [hk] at hpress
        exact hkey (Option.some_inj.mp hpress.2)
      · refine Latch.apply_wrap_of_forall_ne (fun w hw => ?_) ws f
        rw [List.mem_singleton.mp hw]
        exact hkey
  · by_cases hkey : key ∈ release
    · refine .inr (.inl ⟨⟨hneeds, hkey⟩, Latch.apply_wrap_of_const (b := false) ?_ ?_ ws f⟩)
      · intro w hw
        obtain ⟨e, he, rfl⟩ := List.mem_map.mp hw
        obtain ⟨k, -, rfl⟩ := List.mem_map.mp he
        rfl
      · exact ⟨⟨key, false⟩, List.mem_map_of_mem (List.mem_map_of_mem hkey), rfl⟩
    · refine .inr (.inr ⟨⟨fun hpress => hexclusive hpress.1 hneeds, fun hr => hkey hr.2⟩, ?_⟩)
      refine Latch.apply_wrap_of_forall_ne (fun w hw => ?_) ws f
      obtain ⟨e, he, rfl⟩ := List.mem_map.mp hw
      obtain ⟨k, hk, rfl⟩ := List.mem_map.mp he
      rintro rfl
      exact hkey hk
  · refine .inr (.inr ⟨⟨fun hpress => hp hpress.1, fun hrelease => hr hrelease.1⟩, ?_⟩)
    exact Latch.apply_wrap_of_forall_ne (fun w hw => absurd hw List.not_mem_nil) ws f

theorem recordPress_eq_iff {keysym : KeySym} (h : keysym ≠ noSymbol) (keycode : ℕ)
    (f : ℕ → KeySym) (i : ℕ) : recordPress keysym keycode f i = keysym ↔ i = keycode := by
  rw [recordPress]
  split
  next hi => exact ⟨fun _ => hi, fun _ => rfl⟩
  next hi =>
    refine ⟨fun hrecord => ?_, fun hi' => absurd hi' hi⟩
    split at hrecord
    next => exact absurd hrecord.symm h
    next hold => exact absurd hrecord hold

/-- A press that gets to its end leaves the other keys alone if no key that is down is faked
down. -/
theorem others_iff {s : State} {t : Target} {shift levelThree : List KeyEvent}
    (hshift : fakeShift s t = some shift) (hlevel : fakeLevelThree s t = some levelThree) :
    (∀ key, key ≠ t.keycode →
      apply ((pressEvents t.keycode shift levelThree).map KeyEvent.write) s.down key =
        s.down key) ↔ CanUndo s t := by
  have houter := apply_wrap_fakes hshift
    (wrap (levelThree.map KeyEvent.write) [⟨t.keycode, true⟩]) s.down
  have hinner := apply_wrap_fakes hlevel [⟨t.keycode, true⟩] s.down
  rw [write_pressEvents]
  constructor
  · -- a key that is down and faked down would be up at the end
    intro h
    have hnoLevel : ¬ NoLevelThreeKey s t := by
      intro hno
      rw [fakeLevelThree, fakeModifier_eq_none.mpr hno] at hlevel
      cases hlevel
    refine ⟨fun _ _ => hnoLevel, fun hneeds key hkey hdown => ?_,
      fun _ hneeds key hkey hdown => ?_⟩
    · by_contra hne
      rcases houter key with ⟨-, hfinal⟩ | ⟨⟨hneeds', -⟩, -⟩ | ⟨⟨hnot, -⟩, -⟩
      · rw [h key hne, hdown] at hfinal
        cases hfinal
      · exact hneeds'.2 hneeds.1
      · exact hnot ⟨hneeds, hkey⟩
    · by_contra hne
      obtain ⟨hne, hnotReleased⟩ := not_or.mp hne
      -- the fakes for Shift are outside, so they have the last word on the keys they write
      have hup : apply (wrap (shift.map KeyEvent.write)
          (wrap (levelThree.map KeyEvent.write) [⟨t.keycode, true⟩])) s.down key = false := by
        rcases houter key with ⟨-, hfinal⟩ | ⟨hreleased, -⟩ | ⟨-, hfinal⟩
        · exact hfinal
        · exact absurd hreleased hnotReleased
        · rw [hfinal]
          rcases hinner key with ⟨-, hfinal⟩ | ⟨⟨hneeds', -⟩, -⟩ | ⟨⟨hnot, -⟩, -⟩
          · exact hfinal
          · exact absurd hneeds.1 hneeds'.2
          · exact absurd ⟨hneeds, hkey⟩ hnot
      rw [h key hne, hdown] at hup
      cases hup
  · -- whatever wrote a key last wrote what it was before
    intro h key hne
    have hnoShift : ¬ NoShiftKey s t := by
      intro hno
      rw [fakeShift, fakeModifier_eq_none.mpr hno] at hshift
      cases hshift
    rcases houter key with ⟨⟨hneeds, hkey⟩, hfinal⟩ | ⟨⟨-, hmem⟩, hfinal⟩ |
      ⟨⟨-, hnotReleased⟩, hfinal⟩
    · rw [hfinal]
      cases hdown : s.down key with
      | false => rfl
      | true => exact absurd (h.shiftKey hneeds key hkey hdown) hne
    · rw [hfinal, (mem_releaseKeys hmem).2]
    · rw [hfinal]
      rcases hinner key with ⟨⟨hneeds, hkey⟩, hfinal⟩ | ⟨⟨-, hmem⟩, hfinal⟩ | ⟨-, hfinal⟩
      · rw [hfinal]
        cases hdown : s.down key with
        | false => rfl
        | true =>
          rcases h.levelThreeKey hnoShift hneeds key hkey hdown with heq | hreleased
          · exact absurd heq hne
          · exact absurd hreleased hnotReleased
      · rw [hfinal, (mem_releaseKeys hmem).2]
      · rw [hfinal]
        exact Function.update_of_ne hne _ _

/-- A press that fakes nothing for Shift cannot go wrong there. -/
theorem canUndo_of_shift_failed {s : State} {t : Target} (h : fakeShift s t = none) :
    CanUndo s t := by
  have hno : NoShiftKey s t := fakeModifier_eq_none.mp h
  refine ⟨fun _ hshift => absurd hno hshift, fun hneeds key hkey => ?_,
    fun hshift => absurd hno hshift⟩
  rcases hno with ⟨-, hnone⟩ | ⟨hneeds', -⟩
  · rw [hnone] at hkey
    cases hkey
  · exact absurd hneeds.1 hneeds'.2

/-- A press that fails at level three can only be undone if Shift is not faked. -/
theorem canUndo_iff_of_level_failed {s : State} {t : Target} {shift : List KeyEvent}
    (hshift : fakeShift s t = some shift) (hlevel : fakeLevelThree s t = none) :
    CanUndo s t ↔ shift = [] := by
  have hnoLevel : NoLevelThreeKey s t := fakeModifier_eq_none.mp hlevel
  have hnoShift : ¬ NoShiftKey s t := by
    intro hno
    rw [fakeShift, fakeModifier_eq_none.mpr hno] at hshift
    cases hshift
  have hlevelKey : Needs (lorieGetKeyboardState s) t.newState (levelThreeMask s t) →
      loriePressLevelThree s = none := by
    intro hneeds
    rcases hnoLevel with ⟨-, hnone⟩ | ⟨hneeds', -⟩
    · exact hnone
    · exact absurd hneeds.1 hneeds'.2
  rcases fakeModifier_eq_some hshift with ⟨hneeds, key, -, rfl⟩ | ⟨hneeds, hne, rfl⟩ |
    ⟨hpress, hrelease, rfl⟩
  · refine ⟨fun h => absurd hnoLevel (h.levelThree (.inl hneeds) hnoShift), fun h => ?_⟩
    cases h
  · refine ⟨fun h => absurd hnoLevel (h.levelThree (.inr hneeds) hnoShift), fun h => ?_⟩
    exact absurd (List.map_eq_nil_iff.mp h) hne
  · refine ⟨fun _ => rfl, fun _ => ⟨fun h => (h.elim hpress hrelease).elim,
      fun h => absurd h hpress, fun _ hneeds key hkey => ?_⟩⟩
    rw [hlevelKey hneeds] at hkey
    cases hkey

/-- The fakes of a press are undone if and only if they can be. -/
theorem fakes_undone_iff (keysym : KeySym) (s : State) :
    FakesUndone keysym s ↔ ∀ s' t,
      chooseTarget (mieqProcessInputEvents s) keysym = (s', some t) → CanUndo s' t := by
  have hnothing (h : ∀ s' t, chooseTarget (mieqProcessInputEvents s) keysym = (s', some t) →
      fakeShift s' t = none) : FakesUndone keysym s := by
    obtain ⟨hqueued, hdown⟩ := keysymPress_nothing h
    refine ⟨⟨[], ?_, fun _ _ => ⟨[], rfl⟩⟩, fun key hkey => ?_⟩
    · rw [List.append_nil]
      exact hqueued
    · exact absurd (congrFun hdown key) hkey
  cases hchoose : chooseTarget (mieqProcessInputEvents s) keysym with
  | mk s' target =>
    cases target with
    | none =>
      refine ⟨fun _ s₁ t h => ?_, fun _ => hnothing fun s₁ t h => ?_⟩
      · cases h
      · rw [hchoose] at h
        cases h
    | some t =>
      have hthis : (∀ s₁ t₁, (s', some t) = (s₁, some t₁) → CanUndo s₁ t₁) ↔ CanUndo s' t :=
        ⟨fun h => h s' t rfl, fun h s₁ t₁ heq => by cases heq; exact h⟩
      rw [hthis]
      have hdown := (chooseTarget_processed hchoose).2.1
      cases hshift : fakeShift s' t with
      | none =>
        -- `loriePressShift` fails first, and nothing is queued
        refine ⟨fun _ => canUndo_of_shift_failed hshift, fun _ => hnothing fun s₁ t₁ h => ?_⟩
        rw [hchoose] at h
        cases h
        exact hshift
      | some shift =>
        obtain ⟨b, huniform⟩ := fakeModifier_uniform hshift
        cases hlevel : fakeLevelThree s' t with
        | none =>
          -- level three fails after the fakes for Shift: they stay
          obtain ⟨hqueued, hfinal⟩ := keysymPress_failed hchoose hshift hlevel
          rw [canUndo_iff_of_level_failed hshift hlevel]
          refine ⟨fun h => ?_, fun hnil => ?_⟩
          · obtain ⟨es, hes, hundone⟩ := h.undone
            have heq : es = shift := List.append_cancel_left (hes.symm.trans hqueued)
            rw [heq] at hundone
            exact hundone.eq_nil huniform Reason.noConfusion
          · rw [hnil] at hqueued hfinal
            exact ⟨⟨[], hqueued, fun _ _ => ⟨[], rfl⟩⟩,
              fun key hkey => absurd (congrFun hfinal key) hkey⟩
        | some levelThree =>
          obtain ⟨b', huniform'⟩ := fakeModifier_uniform hlevel
          obtain ⟨hqueued, hfinal, hrecord⟩ := keysymPress_done hchoose hshift hlevel
          have hkeysym := (chooseTarget_eq_some hchoose).2
          rw [← hdown] at hfinal
          rw [← others_iff hshift hlevel]
          have hothers : (∀ key, downAfter (keysymPress keysym s) key ≠ downAfter s key →
              (keysymPress keysym s).pressedKeys key = keysym) ↔
              ∀ key, key ≠ t.keycode →
                apply ((pressEvents t.keycode shift levelThree).map KeyEvent.write) s'.down key =
                  s'.down key := by
            rw [hfinal, hrecord, ← hdown]
            refine forall_congr' fun key => ?_
            rw [recordPress_eq_iff hkeysym]
            exact not_imp_comm
          refine ⟨fun h => hothers.mp h.others, fun h => ⟨⟨_, hqueued, ?_⟩, hothers.mpr h⟩⟩
          exact undone_pressEvents (fun e he => (huniform e he).2) fun e he => (huniform' e he).2

/-- A keymap with a key for q, Q and two symbols of level three, a Shift key and a level three
key. -/
def fourLevels : XkbDesc where
  minKeyCode := 8
  maxKeyCode := 255
  types := [{}, { mods := 0x01, numLevels := 2, map := [⟨true, 1, 0x01, 0⟩] },
    { mods := 0x03, numLevels := 2, map := [⟨true, 1, 0x01, 0⟩, ⟨true, 1, 0x02, 0⟩] }, {},
    { mods := 0x81
      numLevels := 4
      map := [⟨true, 1, 0x01, 0⟩, ⟨true, 2, 0x80, 0⟩, ⟨true, 3, 0x81, 0⟩] }]
  keys key :=
    if key = 24 then
      { ktIndex := fun _ => 4, groupInfo := 1, width := 4, syms := [0x71, 0x51, 0x40, 0x7d9] }
    else if key = 50 then
      { groupInfo := 1, width := 1, syms := [0xffe1], acts := some [⟨.setMods, false, 0x01⟩] }
    else if key = 108 then
      { groupInfo := 1, width := 1, syms := [0xfe03], acts := some [⟨.setMods, false, 0x80⟩] }
    else {}
  modmap key := if key = 50 then 0x01 else if key = 108 then 0x80 else 0
  names := none
  legal := by decide

/-- Level three is locked, no key is down. -/
def levelThreeLocked : State where
  xkb := fourLevels
  lookupMods := 0x80
  group := 0
  down _ := false

/-- Shift is pressed for a Q and stays down. -/
theorem shift_stays_down : ¬ FakesUndone 0x51 levelThreeLocked := by
  intro h
  have hqueued : (lorieKeysymKeyboardEvent 0x51 true levelThreeLocked).queued =
      [⟨true, 50, .tempShift⟩] := by decide +kernel
  obtain ⟨es, hes, hundone⟩ := h.undone
  have heq : es = [⟨true, 50, .tempShift⟩] := hes.symm.trans hqueued
  rw [heq] at hundone
  have hshift : ∀ e ∈ [(⟨true, 50, .tempShift⟩ : KeyEvent)],
      e.press = true ∧ e.reason = .tempShift :=
    fun e he => List.mem_singleton.mp he ▸ ⟨rfl, rfl⟩
  have hnil := hundone.eq_nil hshift Reason.noConfusion
  cases hnil

end Keyboard
