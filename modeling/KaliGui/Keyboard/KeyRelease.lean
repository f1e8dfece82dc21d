/-
The presses and releases of a run (`lorieKeysymKeyboardEvent`, `pressedKeys`).

Calls for any keysyms are interleaved with changes of the keymap, of the modifiers and of the
group.  The fakes of a press aside, every release is of a key that was pressed.  A press that is
given another key than the one its keysym is recorded for drops the record, and the other key
stays down.

* `keysymPress_incomplete`, `keysymPress_complete`, `keysymRelease_cases` — what a call does to
  the keys;
* `inv_step` — a recorded key is down, and its keysym is held;
* `releases_match` — when every key that is down is let go of in the end.
-/
import KaliGui.Keyboard.KeysymEvent
import KaliGui.Lib.Run

namespace Keyboard

open Latch (Write apply Matched)
open Machine (run Meets Always)

/-! ### Runs -/

inductive Act
  | keysym (keysym : KeySym) (down : Bool)
  /-- the keymap is changed, by this server or by a client -/
  | keymap (d : XkbDesc)
  | modifiers (mods group : BitVec 8)

/-- The keyboard, and the keysyms that the viewer has pressed and not released since. -/
structure Session where
  keyboard : State
  held : KeySym → Bool

def step (s : Session) : Act → Option Session
  | .keysym keysym down =>
    some ⟨lorieKeysymKeyboardEvent keysym down s.keyboard, Function.update s.held keysym down⟩
  | .keymap d => some { s with keyboard := { s.keyboard with xkb := d } }
  | .modifiers mods group =>
    some { s with keyboard := { s.keyboard with lookupMods := mods, group := group } }

structure Session.Fresh (s : Session) : Prop where
  queued : s.keyboard.queued = []
  pressedKeys : ∀ key, s.keyboard.pressedKeys key = noSymbol
  held : ∀ keysym, s.held keysym = false

/-- The presses and releases that are not fakes. -/
def keyWrites (es : List KeyEvent) : List (Write ℕ) :=
  (es.filter (·.reason = .keycode)).map KeyEvent.write

/-- The keys that are pressed and not released since, fakes aside. -/
def keyDown (s : State) : ℕ → Bool := apply (keyWrites s.queued) fun _ => false

/-! ### What a call does -/

/-- A press finds a key and what it has to fake. -/
structure Completes (keysym : KeySym) (s s' : State) (t : Target) : Prop where
  choose : chooseTarget (mieqProcessInputEvents s) keysym = (s', some t)
  shift : (fakeShift s' t).isSome
  levelThree : (fakeLevelThree s' t).isSome

theorem keyWrites_append (es fs : List KeyEvent) :
    keyWrites (es ++ fs) = keyWrites es ++ keyWrites fs := by
  rw [keyWrites, List.filter_append, List.map_append]
  rfl

theorem keyWrites_fakes {es : List KeyEvent} {b : Bool} {reason : Reason}
    (h : ∀ e ∈ es, e.press = b ∧ e.reason = reason) (hreason : reason ≠ .keycode) :
    keyWrites es = [] := by
  rw [keyWrites, filter_other (fun e he => (h e he).2) hreason]
  rfl

theorem keyWrites_opposite {es : List KeyEvent} (h : keyWrites es = []) :
    keyWrites (es.map KeyEvent.opposite) = [] := by
  rw [keyWrites, List.map_eq_nil_iff] at h ⊢
  rw [filter_opposite, h]
  rfl

theorem keyWrites_pressEvents {s : State} {t : Target} {shift levelThree : List KeyEvent}
    (hshift : fakeShift s t = some shift) (hlevel : fakeLevelThree s t = some levelThree) :
    keyWrites (pressEvents t.keycode shift levelThree) = [⟨t.keycode, true⟩] := by
  obtain ⟨b, hb⟩ := fakeModifier_uniform hshift
  obtain ⟨c, hc⟩ := fakeModifier_uniform hlevel
  have hnoShift := keyWrites_fakes hb Reason.noConfusion
  have hnoLevel := keyWrites_fakes hc Reason.noConfusion
  simp only [pressEvents, keyWrites_append, hnoShift, hnoLevel, keyWrites_opposite hnoShift,
    keyWrites_opposite hnoLevel, List.append_nil, List.nil_append]
  rfl

/-- What a press leaves if it finds no key, or cannot fake Shift for it. -/
theorem keysymPress_refused {s s' : State} {keysym : KeySym} {target : Option Target}
    (hchoose : chooseTarget (mieqProcessInputEvents s) keysym = (s', target))
    (h : ∀ t, target = some t → fakeShift s' t = none) :
    (keysymPress keysym s).pressedKeys = s.pressedKeys ∧
      keyWrites (keysymPress keysym s).queued = keyWrites s.queued ∧
      downAfter (keysymPress keysym s) = downAfter s := by
  have hpressed := (chooseTarget_processed hchoose).2.2.2
  obtain ⟨hqueued, hdown⟩ := keysymPress_nothing fun s₁ t ht => by
    rw [hchoose] at ht
    cases ht
    exact h t rfl
  refine ⟨?_, congrArg keyWrites hqueued, hdown⟩
  cases target with
  | none => simp only [keysymPress, hchoose, hpressed]
  | some t => simp only [keysymPress, hchoose, h t rfl, hpressed]

/-- What a press leaves if it fakes Shift and cannot fake level three. -/
theorem keysymPress_halfway {s s' : State} {keysym : KeySym} {t : Target} {shift : List KeyEvent}
    (hchoose : chooseTarget (mieqProcessInputEvents s) keysym = (s', some t))
    (hshift : fakeShift s' t = some shift) (hlevel : fakeLevelThree s' t = none) :
    (keysymPress keysym s).pressedKeys = s.pressedKeys ∧
      keyWrites (keysymPress keysym s).queued = keyWrites s.queued ∧
      (CanUndo s' t → downAfter (keysymPress keysym s) = downAfter s) := by
  have hpressed := (chooseTarget_processed hchoose).2.2.2
  obtain ⟨b, hb⟩ := fakeModifier_uniform hshift
  obtain ⟨hqueued, hdown⟩ := keysymPress_failed hchoose hshift hlevel
  refine ⟨?_, ?_, fun hundo => ?_⟩
  · have hqueue := queueAll_of_legal (fakeShift_legal hshift) s'
    have hlevel' : fakeLevelThree (queueAll shift s') t = none := by
      rw [hqueue]
      exact hlevel
    simp only [keysymPress, hchoose, hshift, hlevel']
    rw [hqueue]
    exact hpressed
  · rw [hqueued, keyWrites_append, keyWrites_fakes hb Reason.noConfusion, List.append_nil]
  · have hnil := (canUndo_iff_of_level_failed hshift hlevel).mp hundo
    rw [hdown, hnil]
    rfl

/-- What a press leaves if it does not get to its end. -/
theorem keysymPress_incomplete {s : State} {keysym : KeySym}
    (h : ∀ s' t, ¬ Completes keysym s s' t) :
    (keysymPress keysym s).pressedKeys = s.pressedKeys ∧
      keyWrites (keysymPress keysym s).queued = keyWrites s.queued ∧
      ((∀ s' t, chooseTarget (mieqProcessInputEvents s) keysym = (s', some t) → CanUndo s' t) →
        downAfter (keysymPress keysym s) = downAfter s) := by
  cases hchoose : chooseTarget (mieqProcessInputEvents s) keysym with
  | mk s' target =>
    cases target with
    | none =>
      obtain ⟨hpressed, hqueued, hdown⟩ := keysymPress_refused hchoose nofun
      exact ⟨hpressed, hqueued, fun _ => hdown⟩
    | some t =>
      cases hshift : fakeShift s' t with
      | none =>
        obtain ⟨hpressed, hqueued, hdown⟩ := keysymPress_refused hchoose
          fun t₁ ht => Option.some.inj ht ▸ hshift
        exact ⟨hpressed, hqueued, fun _ => hdown⟩
      | some shift =>
        cases hlevel : fakeLevelThree s' t with
        | some levelThree =>
          exact absurd ⟨hchoose, by rw [hshift]; rfl, by rw [hlevel]; rfl⟩ (h s' t)
        | none =>
          obtain ⟨hpressed, hqueued, hdown⟩ := keysymPress_halfway hchoose hshift hlevel
          exact ⟨hpressed, hqueued, fun hundo => hdown (hundo s' t rfl)⟩

/-- What a press leaves if it gets to its end. -/
theorem keysymPress_complete {s s' : State} {keysym : KeySym} {t : Target}
    (h : Completes keysym s s' t) :
    (keysymPress keysym s).pressedKeys = recordPress keysym t.keycode s.pressedKeys ∧
      keyDown (keysymPress keysym s) = Function.update (keyDown s) t.keycode true ∧
      keyWrites (keysymPress keysym s).queued = keyWrites s.queued ++ [⟨t.keycode, true⟩] ∧
      (CanUndo s' t → ∀ key, key ≠ t.keycode →
        downAfter (keysymPress keysym s) key = downAfter s key) := by
  obtain ⟨shift, hshift⟩ := Option.isSome_iff_exists.mp h.shift
  obtain ⟨levelThree, hlevel⟩ := Option.isSome_iff_exists.mp h.levelThree
  obtain ⟨hqueued, hdown, hpressed⟩ := keysymPress_done h.choose hshift hlevel
  have hwrites : keyWrites (keysymPress keysym s).queued =
      keyWrites s.queued ++ [⟨t.keycode, true⟩] := by
    rw [hqueued, keyWrites_append, keyWrites_pressEvents hshift hlevel]
  refine ⟨hpressed, ?_, hwrites, fun hundo key hkey => ?_⟩
  · rw [keyDown, hwrites, Latch.apply_concat]
    rfl
  · have hsame := (chooseTarget_processed h.choose).2.1
    rw [hdown, ← hsame]
    exact (others_iff hshift hlevel).mpr hundo key hkey

/-- The search of a release ends at slot 0 if and only if it is for `NoSymbol`. -/
theorem releaseKey_cases {s : State} (keysym : KeySym)
    (hlegal : ∀ key, s.pressedKeys key ≠ noSymbol → 8 ≤ key ∧ key ≤ 255) :
    (∃ key, keysym ≠ noSymbol ∧ s.pressedKeys key = keysym ∧
        ((List.range 256).find? fun i => s.pressedKeys i = keysym) = some key) ∨
      (keysym = noSymbol ∧ s.pressedKeys 0 = noSymbol ∧
        ((List.range 256).find? fun i => s.pressedKeys i = keysym) = some 0) ∨
      (∀ key, s.pressedKeys key ≠ keysym) ∧
        ((List.range 256).find? fun i => s.pressedKeys i = keysym) = none := by
  have hfree : s.pressedKeys 0 = noSymbol := by
    by_contra hne
    have hle := (hlegal 0 hne).1
    omega
  by_cases hsymbol : keysym = noSymbol
  · rw [hsymbol]
    exact .inr (.inl ⟨rfl, hfree, List.find?_cons_of_pos (decide_eq_true hfree)⟩)
  cases hfind : (List.range 256).find? fun i => s.pressedKeys i = keysym with
  | none =>
    have hnone := List.find?_eq_none.mp hfind
    refine .inr (.inr ⟨fun key hkey => ?_, rfl⟩)
    have hle := (hlegal key (by rw [hkey]; exact hsymbol)).2
    exact hnone key (List.mem_range.mpr (by omega)) (decide_eq_true hkey)
  | some key =>
    have hfound := List.find?_some hfind
    exact .inl ⟨key, hsymbol, of_decide_eq_true hfound, rfl⟩

/-- What a release leaves; slot 0 is always free, and stops the releases of `NoSymbol`. -/
theorem keysymRelease_cases {s : State} (keysym : KeySym)
    (hlegal : ∀ key, s.pressedKeys key ≠ noSymbol → 8 ≤ key ∧ key ≤ 255) :
    (∃ key, keysym ≠ noSymbol ∧ s.pressedKeys key = keysym ∧
        (keysymRelease keysym s).pressedKeys = Function.update s.pressedKeys key noSymbol ∧
        (keysymRelease keysym s).queued = s.queued ++ [⟨false, key, .keycode⟩] ∧
        downAfter (keysymRelease keysym s) = Function.update (downAfter s) key false) ∨
      (keysym = noSymbol ∨ ∀ key, s.pressedKeys key ≠ keysym) ∧
        (keysymRelease keysym s).pressedKeys = s.pressedKeys ∧
        (keysymRelease keysym s).queued = s.queued ∧
        downAfter (keysymRelease keysym s) = downAfter s := by
  rcases releaseKey_cases keysym hlegal with
    ⟨key, hsymbol, hkey, hfind⟩ | ⟨hsymbol, hfree, hfind⟩ | ⟨hnone, hfind⟩
  · have hle : (⟨false, key, .keycode⟩ : KeyEvent).Legal :=
      hlegal key (by rw [hkey]; exact hsymbol)
    have hrelease : keysymRelease keysym s = mieqProcessInputEvents
        (queueKeyboardEvents ⟨false, key, .keycode⟩
          { s with pressedKeys := Function.update s.pressedKeys key noSymbol }) := by
      simp only [keysymRelease, hfind]
    rw [hrelease, queueKeyboardEvents_of_legal hle]
    refine .inl ⟨key, hsymbol, hkey, rfl, rfl, ?_⟩
    simp only [downAfter, mieqProcessInputEvents, List.map_append, List.map_cons, List.map_nil,
      Latch.apply_concat, Latch.apply_nil]
    rfl
  · have hrelease : keysymRelease keysym s = mieqProcessInputEvents
        (queueKeyboardEvents ⟨false, 0, .keycode⟩
          { s with pressedKeys := Function.update s.pressedKeys 0 noSymbol }) := by
      simp only [keysymRelease, hfind]
    rw [hrelease, queueKeyboardEvents, if_pos (.inl (by decide))]
    exact .inr ⟨.inl hsymbol, Function.update_eq_self_iff.mpr hfree.symm, rfl, rfl⟩
  · have hrelease : keysymRelease keysym s = s := by simp only [keysymRelease, hfind]
    rw [hrelease]
    exact .inr ⟨.inr hnone, rfl, rfl, rfl⟩

/-- Where `pressedKeys` has a keysym after a press. -/
theorem recordPress_cases {keysym : KeySym} {keycode key : ℕ} {f : ℕ → KeySym}
    (h : recordPress keysym keycode f key ≠ noSymbol) :
    key = keycode ∧ recordPress keysym keycode f key = keysym ∨
      key ≠ keycode ∧ f key ≠ keysym ∧ recordPress keysym keycode f key = f key := by
  rw [recordPress] at h ⊢
  split at h
  next hkey =>
    rw [if_pos hkey]
    exact .inl ⟨hkey, rfl⟩
  next hkey =>
    split at h
    next => exact absurd rfl h
    next hne =>
      rw [if_neg hkey, if_neg hne]
      exact .inr ⟨hkey, hne, rfl⟩

/-! ### Every run -/

/-- What `pressedKeys` says of the keys, and of the keysyms that are held. -/
structure Inv (s : State) (held : KeySym → Bool) : Prop where
  legal : ∀ key, s.pressedKeys key ≠ noSymbol → 8 ≤ key ∧ key ≤ 255
  /-- a keysym is recorded for one key -/
  alone : ∀ i j, s.pressedKeys i ≠ noSymbol →
    s.pressedKeys i = s.pressedKeys j → i = j
  held : ∀ key, s.pressedKeys key ≠ noSymbol →
    held (s.pressedKeys key) = true
  down : ∀ key, s.pressedKeys key ≠ noSymbol → keyDown s key = true
  matched : Matched (keyWrites s.queued) fun _ => false

theorem Session.Fresh.inv {s : Session} (h : s.Fresh) : Inv s.keyboard s.held where
  legal key hkey := absurd (h.pressedKeys key) hkey
  alone i _ hi := absurd (h.pressedKeys i) hi
  held key hkey := absurd (h.pressedKeys key) hkey
  down key hkey := absurd (h.pressedKeys key) hkey
  matched := by
    rw [h.queued]
    exact trivial

theorem inv_complete {s s' : State} {held : KeySym → Bool} {keysym : KeySym} {t : Target}
    (hi : Inv s held)
    (h : Completes keysym s s' t) :
    Inv (keysymPress keysym s) (Function.update held keysym true) := by
  obtain ⟨hpressed, hdown, hwrites, -⟩ := keysymPress_complete h
  obtain ⟨hrange, hsymbol⟩ := chooseTarget_eq_some h.choose
  constructor
  · intro key hkey
    rw [hpressed] at hkey
    rcases recordPress_cases hkey with ⟨rfl, -⟩ | ⟨-, -, hold⟩
    · exact hrange.legal
    · rw [hold] at hkey
      exact hi.legal key hkey
  · intro i j hne heq
    rw [hpressed] at hne heq
    rcases recordPress_cases hne with ⟨rfl, hkeysym⟩ | ⟨-, hother, hold⟩
    · rw [hkeysym] at heq
      exact ((recordPress_eq_iff hsymbol _ _ j).mp heq.symm).symm
    · have hnej := hne
      rw [heq] at hnej
      rcases recordPress_cases hnej with ⟨-, hkeysym⟩ | ⟨-, -, holdj⟩
      · rw [hold, hkeysym] at heq
        exact absurd heq hother
      · rw [hold] at hne heq
        rw [holdj] at heq
        exact hi.alone i j hne heq
  · intro key hkey
    rw [hpressed] at hkey ⊢
    rcases recordPress_cases hkey with ⟨-, hkeysym⟩ | ⟨-, hother, hold⟩
    · rw [hkeysym]
      exact Function.update_self _ _ _
    · rw [hold] at hkey ⊢
      rw [Function.update_of_ne hother]
      exact hi.held key hkey
  · intro key hkey
    rw [hpressed] at hkey
    rw [hdown]
    rcases recordPress_cases hkey with ⟨rfl, -⟩ | ⟨hne, -, hold⟩
    · exact Function.update_self _ _ _
    · rw [hold] at hkey
      rw [Function.update_of_ne hne]
      exact hi.down key hkey
  · rw [hwrites, Latch.matched_concat]
    exact ⟨hi.matched, fun hoff => absurd hoff Bool.noConfusion⟩

theorem inv_incomplete {s : State} {held : KeySym → Bool} {keysym : KeySym} (hi : Inv s held)
    (h : ∀ s' t, ¬ Completes keysym s s' t) :
    Inv (keysymPress keysym s) (Function.update held keysym true) := by
  obtain ⟨hpressed, hwrites, -⟩ := keysymPress_incomplete h
  constructor
  · rw [hpressed]
    exact hi.legal
  · rw [hpressed]
    exact hi.alone
  · rw [hpressed]
    intro key hkey
    by_cases heq : s.pressedKeys key = keysym
    · rw [heq]
      exact Function.update_self _ _ _
    · rw [Function.update_of_ne heq]
      exact hi.held key hkey
  · rw [hpressed, keyDown, hwrites]
    exact hi.down
  · rw [hwrites]
    exact hi.matched

theorem keyDown_release {s s' : State} {key : ℕ}
    (h : s'.queued = s.queued ++ [⟨false, key, .keycode⟩]) :
    keyWrites s'.queued = keyWrites s.queued ++ [⟨key, false⟩] ∧
      keyDown s' = Function.update (keyDown s) key false := by
  have hwrites : keyWrites s'.queued = keyWrites s.queued ++ [⟨key, false⟩] := by
    rw [h, keyWrites_append]
    rfl
  refine ⟨hwrites, ?_⟩
  rw [keyDown, hwrites, Latch.apply_concat]
  rfl

theorem inv_release {s : State} {held : KeySym → Bool} (keysym : KeySym) (hi : Inv s held) :
    Inv (keysymRelease keysym s) (Function.update held keysym false) := by
  rcases keysymRelease_cases keysym hi.legal with
    ⟨k, hsymbol, hk, hpressed, hqueued, -⟩ | ⟨hnone, hpressed, hqueued, -⟩
  · obtain ⟨hwrites, hdown⟩ := keyDown_release hqueued
    have hrecorded : s.pressedKeys k ≠ noSymbol := by
      rw [hk]
      exact hsymbol
    have hother : ∀ key, Function.update s.pressedKeys k noSymbol key ≠ noSymbol →
        key ≠ k ∧ Function.update s.pressedKeys k noSymbol key =
          s.pressedKeys key := by
      intro key hkey
      have hne : key ≠ k := by
        rintro rfl
        exact hkey (Function.update_self _ _ _)
      exact ⟨hne, Function.update_of_ne hne _ _⟩
    constructor
    · intro key hkey
      rw [hpressed] at hkey
      rw [(hother key hkey).2] at hkey
      exact hi.legal key hkey
    · intro i j hne heq
      rw [hpressed] at hne heq
      have hnej := hne
      rw [heq] at hnej
      have hi' := (hother i hne).2
      have hj := (hother j hnej).2
      rw [hi'] at hne heq
      rw [hj] at heq
      exact hi.alone i j hne heq
    · intro key hkey
      rw [hpressed] at hkey ⊢
      obtain ⟨hne, hold⟩ := hother key hkey
      rw [hold] at hkey ⊢
      -- no other key is recorded for the keysym
      have hkeysym : s.pressedKeys key ≠ keysym :=
        fun heq => hne (hi.alone key k hkey (heq.trans hk.symm))
      rw [Function.update_of_ne hkeysym]
      exact hi.held key hkey
    · intro key hkey
      rw [hpressed] at hkey
      obtain ⟨hne, hold⟩ := hother key hkey
      rw [hold] at hkey
      rw [hdown, Function.update_of_ne hne]
      exact hi.down key hkey
    · rw [hwrites, Latch.matched_concat]
      exact ⟨hi.matched, fun _ => hi.down k hrecorded⟩
  · constructor
    · rw [hpressed]
      exact hi.legal
    · rw [hpressed]
      exact hi.alone
    · rw [hpressed]
      intro key hkey
      have hkeysym : s.pressedKeys key ≠ keysym := by
        rcases hnone with rfl | hnone
        · exact hkey
        · exact hnone key
      rw [Function.update_of_ne hkeysym]
      exact hi.held key hkey
    · rw [hpressed, keyDown, hqueued]
      exact hi.down
    · rw [hqueued]
      exact hi.matched

theorem inv_step {s s' : Session} {a : Act} (hi : Inv s.keyboard s.held)
    (h : step s a = some s') : Inv s'.keyboard s'.held := by
  cases a with
  | keymap d =>
    cases h
    exact ⟨hi.legal, hi.alone, hi.held, hi.down, hi.matched⟩
  | modifiers mods group =>
    cases h
    exact ⟨hi.legal, hi.alone, hi.held, hi.down, hi.matched⟩
  | keysym keysym down =>
    cases h
    cases down with
    | false => exact inv_release keysym hi
    | true =>
      by_cases hcomplete : ∃ s' t, Completes keysym s.keyboard s' t
      · obtain ⟨s', t, ht⟩ := hcomplete
        exact inv_complete hi ht
      · exact inv_incomplete hi fun s' t ht => hcomplete ⟨s', t, ht⟩

/-! ### Runs that give a keysym one key -/

/-- No press gets to its end with another key than the one that its keysym is recorded for. -/
def OneKey (s : Session) (a : Act) : Prop :=
  ∀ keysym s' t, a = .keysym keysym true → Completes keysym s.keyboard s' t →
    ∀ key, key ≠ t.keycode → s.keyboard.pressedKeys key ≠ keysym

/-- Every fake that a press begins with can be undone. -/
def Undoes (s : Session) (a : Act) : Prop :=
  ∀ keysym s' t, a = .keysym keysym true →
    chooseTarget (mieqProcessInputEvents s.keyboard) keysym = (s', some t) → CanUndo s' t

/-- Every key that is down is recorded. -/
def Session.Known (s : Session) : Prop :=
  ∀ key, keyDown s.keyboard key = true → s.keyboard.pressedKeys key ≠ noSymbol

/-- Every key that is down is let go of when some keysym that is held is released. -/
def Session.LetsGo (s : Session) : Prop :=
  ∀ key, keyDown s.keyboard key = true → ∃ keysym, s.held keysym = true ∧
    keyDown (lorieKeysymKeyboardEvent keysym false s.keyboard) key = false

section

variable {s : State} {keysym : KeySym} {key : ℕ}

theorem known_release (hlegal : ∀ key, s.pressedKeys key ≠ noSymbol → 8 ≤ key ∧ key ≤ 255)
    (hknown : ∀ key, keyDown s key = true → s.pressedKeys key ≠ noSymbol)
    (hkey : keyDown (keysymRelease keysym s) key = true) :
    (keysymRelease keysym s).pressedKeys key ≠ noSymbol := by
  rcases keysymRelease_cases keysym hlegal with
    ⟨k, -, -, hpressed, hqueued, -⟩ | ⟨-, hpressed, hqueued, -⟩
  · rw [(keyDown_release hqueued).2] at hkey
    have hne : key ≠ k := by
      rintro rfl
      rw [Function.update_self] at hkey
      cases hkey
    rw [Function.update_of_ne hne] at hkey
    rw [hpressed, Function.update_of_ne hne]
    exact hknown key hkey
  · rw [keyDown, hqueued] at hkey
    rw [hpressed]
    exact hknown key hkey

theorem known_press (hknown : ∀ key, keyDown s key = true → s.pressedKeys key ≠ noSymbol)
    (hone : ∀ s' t, Completes keysym s s' t → ∀ key, key ≠ t.keycode → s.pressedKeys key ≠ keysym)
    (hkey : keyDown (keysymPress keysym s) key = true) :
    (keysymPress keysym s).pressedKeys key ≠ noSymbol := by
  by_cases hcomplete : ∃ s' t, Completes keysym s s' t
  · obtain ⟨s', t, ht⟩ := hcomplete
    obtain ⟨hpressed, hdown, -, -⟩ := keysymPress_complete ht
    have hsymbol := (chooseTarget_eq_some ht.choose).2
    rw [hpressed, recordPress]
    rw [hdown] at hkey
    split
    · exact hsymbol
    next hne =>
      rw [if_neg (hone s' t ht key hne)]
      rw [Function.update_of_ne hne] at hkey
      exact hknown key hkey
  · obtain ⟨hpressed, hwrites, -⟩ := keysymPress_incomplete fun s' t ht => hcomplete ⟨s', t, ht⟩
    rw [keyDown, hwrites] at hkey
    rw [hpressed]
    exact hknown key hkey

end

theorem known_step {s s' : Session} {a : Act} (hi : Inv s.keyboard s.held) (hknown : s.Known)
    (hone : OneKey s a) (h : step s a = some s') : s'.Known := by
  cases a with
  | keymap d =>
    cases h
    exact hknown
  | modifiers mods group =>
    cases h
    exact hknown
  | keysym keysym down =>
    cases h
    intro key hkey
    cases down with
    | false => exact known_release hi.legal hknown hkey
    | true => exact known_press hknown (fun s' t => hone keysym s' t rfl) hkey

theorem letsGo_of_known {s : Session} (hi : Inv s.keyboard s.held) (hknown : s.Known) :
    s.LetsGo := by
  intro key hkey
  have hrecorded := hknown key hkey
  refine ⟨s.keyboard.pressedKeys key, hi.held key hrecorded, ?_⟩
  change keyDown (keysymRelease (s.keyboard.pressedKeys key) s.keyboard) key = false
  rcases keysymRelease_cases (s.keyboard.pressedKeys key) hi.legal with
    ⟨k, hsymbol, hk, -, hqueued, -⟩ | ⟨hnone, -⟩
  · have hkk : k = key := hi.alone k key (by rw [hk]; exact hsymbol) hk
    rw [(keyDown_release hqueued).2, hkk]
    exact Function.update_self _ _ _
  · rcases hnone with hnone | hnone
    · exact absurd hnone hrecorded
    · exact absurd rfl (hnone key)

/-- A key that is down without a record is not let go of by any release. -/
theorem known_of_letsGo {s : Session} (hi : Inv s.keyboard s.held) (h : s.LetsGo) :
    s.Known := by
  intro key hkey hfree
  obtain ⟨keysym, -, hup⟩ := h key hkey
  change keyDown (keysymRelease keysym s.keyboard) key = false at hup
  rcases keysymRelease_cases keysym hi.legal with ⟨k, hsymbol, hk, -, hqueued, -⟩ |
    ⟨-, -, hqueued, -⟩
  · have hne : key ≠ k := by
      rintro rfl
      exact hsymbol (hk.symm.trans hfree)
    rw [(keyDown_release hqueued).2, Function.update_of_ne hne, hkey] at hup
    cases hup
  · rw [keyDown, hqueued] at hup
    exact Bool.noConfusion (hup.symm.trans hkey)

/-- The press that drops a record leaves a key down without one. -/
theorem oneKey_of_known {s s' : Session} {a : Act} (hi : Inv s.keyboard s.held)
    (h : step s a = some s') (hknown : s'.Known) : OneKey s a := by
  rintro keysym s₁ t rfl ht key hne heq
  cases h
  obtain ⟨hpressed, hdown, -, -⟩ := keysymPress_complete ht
  have hsymbol := (chooseTarget_eq_some ht.choose).2
  have hkey : keyDown s.keyboard key = true := hi.down key (by rw [heq]; exact hsymbol)
  refine hknown key ?_ ?_
  · change keyDown (keysymPress keysym s.keyboard) key = true
    rw [hdown, Function.update_of_ne hne]
    exact hkey
  · change (keysymPress keysym s.keyboard).pressedKeys key = noSymbol
    rw [hpressed, recordPress, if_neg hne, if_pos heq]

section

variable {s : State} {keysym : KeySym} {key : ℕ} {before : ℕ → Bool}

theorem down_release (hlegal : ∀ key, s.pressedKeys key ≠ noSymbol → 8 ≤ key ∧ key ≤ 255)
    (hdown : ∀ key, downAfter s key = true → keyDown s key = true ∨ before key = true)
    (hkey : downAfter (keysymRelease keysym s) key = true) :
    keyDown (keysymRelease keysym s) key = true ∨ before key = true := by
  rcases keysymRelease_cases keysym hlegal with
    ⟨k, -, -, -, hqueued, hafter⟩ | ⟨-, -, hqueued, hafter⟩
  · rw [hafter] at hkey
    have hne : key ≠ k := by
      rintro rfl
      rw [Function.update_self] at hkey
      cases hkey
    rw [Function.update_of_ne hne] at hkey
    rw [(keyDown_release hqueued).2, Function.update_of_ne hne]
    exact hdown key hkey
  · rw [hafter] at hkey
    rw [keyDown, hqueued]
    exact hdown key hkey

theorem down_press
    (hdown : ∀ key, downAfter s key = true → keyDown s key = true ∨ before key = true)
    (hundo : ∀ s' t, chooseTarget (mieqProcessInputEvents s) keysym = (s', some t) → CanUndo s' t)
    (hkey : downAfter (keysymPress keysym s) key = true) :
    keyDown (keysymPress keysym s) key = true ∨ before key = true := by
  by_cases hcomplete : ∃ s' t, Completes keysym s s' t
  · obtain ⟨s', t, ht⟩ := hcomplete
    obtain ⟨-, hpressed, -, hothers⟩ := keysymPress_complete ht
    rw [hpressed]
    by_cases hne : key = t.keycode
    · rw [hne]
      exact .inl (Function.update_self _ _ _)
    · rw [hothers (hundo s' t ht.choose) key hne] at hkey
      rw [Function.update_of_ne hne]
      exact hdown key hkey
  · obtain ⟨-, hwrites, hafter⟩ := keysymPress_incomplete fun s' t ht => hcomplete ⟨s', t, ht⟩
    rw [hafter hundo] at hkey
    rw [keyDown, hwrites]
    exact hdown key hkey

end

/-- Beside the keys that the keyboard had down before, only recorded keys are down. -/
theorem down_step {s s' : Session} {a : Act} {before : ℕ → Bool} (hi : Inv s.keyboard s.held)
    (hdown : ∀ key, downAfter s.keyboard key = true →
      keyDown s.keyboard key = true ∨ before key = true)
    (hundo : Undoes s a) (h : step s a = some s') (key : ℕ)
    (hkey : downAfter s'.keyboard key = true) :
    keyDown s'.keyboard key = true ∨ before key = true := by
  cases a with
  | keymap d =>
    cases h
    exact hdown key hkey
  | modifiers mods group =>
    cases h
    exact hdown key hkey
  | keysym keysym down =>
    cases h
    cases down with
    | false => exact down_release hi.legal hdown hkey
    | true => exact down_press hdown (fun s' t => hundo keysym s' t rfl) hkey

/-- In every run a release is of a key that is down.  Every key that is down can be let go of,
throughout the run, if and only if no press is given another key than the one its keysym is
recorded for.  Then no key is down once the viewer holds no keysym; and if the fakes are undone
too, the keyboard has no key down that it had not before the run. -/
theorem releases_match {s₀ s : Session} {as : List Act} (hfresh : s₀.Fresh)
    (hrun : run step s₀ as = some s) :
    Matched (keyWrites s.keyboard.queued) (fun _ => false) ∧
      (Always step Session.LetsGo s₀ as ↔ Meets step OneKey s₀ as) ∧
      (Meets step OneKey s₀ as → (∀ keysym, s.held keysym = false) →
        (∀ key, keyDown s.keyboard key = false) ∧
        (Meets step Undoes s₀ as → ∀ key, downAfter s.keyboard key = true →
          downAfter s₀.keyboard key = true)) := by
  have hknown₀ : s₀.Known := by
    intro key hkey
    rw [keyDown, hfresh.queued] at hkey
    cases hkey
  have hinv : Inv s.keyboard s.held :=
    Machine.run_invariant_of_step (fun _ _ _ hi => inv_step hi) hfresh.inv hrun
  refine ⟨hinv.matched, ?_, fun hone hreleased => ?_⟩
  · refine Machine.always_iff_meets (I := fun s => Inv s.keyboard s.held ∧ s.Known)
      (fun s h => letsGo_of_known h.1 h.2) (fun s a s' h hs => ⟨fun hone => ?_, fun hlets => ?_⟩)
      (fun s a s' h hone hs => ⟨inv_step h.1 hs, known_step h.1 h.2 hone hs⟩)
      ⟨hfresh.inv, hknown₀⟩ hrun
    · exact letsGo_of_known (inv_step h.1 hs) (known_step h.1 h.2 hone hs)
    · exact oneKey_of_known h.1 hs (known_of_letsGo (inv_step h.1 hs) hlets)
  · have hknown : s.Known := (Machine.run_invariant
      (I := fun s => Inv s.keyboard s.held ∧ s.Known)
      (fun s a s' h hone hs => ⟨inv_step h.1 hs, known_step h.1 h.2 hone hs⟩)
      ⟨hfresh.inv, hknown₀⟩ hone hrun).2
    have hup : ∀ key, keyDown s.keyboard key = false := by
      intro key
      by_contra hdown
      have hkey := hknown key (eq_true_of_ne_false hdown)
      exact Bool.noConfusion ((hreleased _).symm.trans (hinv.held key hkey))
    refine ⟨hup, fun hundo key hkey => ?_⟩
    have hdown := (Machine.run_invariant
      (I := fun s => Inv s.keyboard s.held ∧ ∀ key, downAfter s.keyboard key = true →
        keyDown s.keyboard key = true ∨ downAfter s₀.keyboard key = true)
      (fun s a s' h hundo hs => ⟨inv_step h.1 hs, down_step h.1 h.2 hundo hs⟩)
      ⟨hfresh.inv, fun _ h => .inr h⟩ hundo hrun).2
    rcases hdown key hkey with hkey' | hkey'
    · exact Bool.noConfusion ((hup key).symm.trans hkey')
    · exact hkey'

/-- A key that needs nothing faked. -/
theorem canUndo_of_same {s : State} {t : Target} (h : t.newState = lorieGetKeyboardState s) :
    CanUndo s t := by
  have hno : ∀ mask, ¬ Needs (lorieGetKeyboardState s) t.newState mask := by
    rintro mask ⟨hzero, hne⟩
    rw [h] at hne
    exact hne hzero
  have hno' : ∀ mask, ¬ Needs t.newState (lorieGetKeyboardState s) mask := by
    rintro mask ⟨hzero, hne⟩
    rw [h] at hzero
    exact hne hzero
  exact ⟨fun hfakes => (hfakes.elim (hno _) (hno' _)).elim, fun hneeds => absurd hneeds (hno _),
    fun _ hneeds => absurd hneeds (hno _)⟩

/-- Two layouts, with q and a the other way round in the second. -/
def twoLayouts : XkbDesc where
  minKeyCode := 8
  maxKeyCode := 255
  types := [{}]
  keys key :=
    if key = 24 then { groupInfo := 2, width := 1, syms := [0x71, 0x61] }
    else if key = 38 then { groupInfo := 2, width := 1, syms := [0x61, 0x71] }
    else {}
  modmap _ := 0
  names := none
  legal := allKeyCodes_legal

def atRest : Session where
  keyboard := { xkb := twoLayouts, lookupMods := 0, group := 0, down := fun _ => false }
  held _ := false

/-- Two keys that are held at once, and let go of in the order in which they were pressed. -/
def twoHeld : List Act :=
  [.keysym 0x71 true, .keysym 0x61 true, .keysym 0x71 false, .keysym 0x61 false]

/-- While q is held. -/
def qHeld : State := lorieKeysymKeyboardEvent 0x71 true atRest.keyboard

theorem qHeld_inv : Inv qHeld (Function.update atRest.held 0x71 true) := by
  have hfresh : atRest.Fresh := ⟨rfl, fun _ => rfl, fun _ => rfl⟩
  exact inv_step hfresh.inv (show step atRest (.keysym 0x71 true) = some ⟨qHeld, _⟩ from rfl)

/-- No key is recorded for a then. -/
theorem qHeld_pressedKeys (key : ℕ) : qHeld.pressedKeys key ≠ 0x61 := by
  intro hkey
  have hnone : ∀ key ∈ List.range 256, qHeld.pressedKeys key ≠ 0x61 := by decide +kernel
  have hlegal := qHeld_inv.legal key (by rw [hkey]; decide)
  exact hnone key (List.mem_range.mpr (by omega)) hkey

theorem atRest_releases : ∃ s, run step atRest twoHeld = some s ∧
    keyDown qHeld 24 = true ∧
    ∀ key, keyDown s.keyboard key = false ∧ downAfter s.keyboard key = false := by
  have hfresh : atRest.Fresh := ⟨rfl, fun _ => rfl, fun _ => rfl⟩
  have hone : Meets step OneKey atRest twoHeld := by
    refine Machine.meets_cons_of_eq rfl ?_ (Machine.meets_cons_of_eq rfl ?_
      (Machine.meets_cons_of_eq rfl ?_ (Machine.meets_cons_of_eq rfl ?_ trivial)))
    · rintro keysym s' t ha - key - hkey
      cases ha
      cases hkey
    · rintro keysym s' t ha - key -
      cases ha
      exact qHeld_pressedKeys key
    · rintro keysym s' t ha
      cases ha
    · rintro keysym s' t ha
      cases ha
  have same : ∀ (s : State) (keysym : KeySym),
      (chooseTarget s keysym).2.map (·.newState) =
        some (lorieGetKeyboardState (chooseTarget s keysym).1) →
      ∀ s' t, chooseTarget s keysym = (s', some t) → CanUndo s' t := by
    intro s keysym h s' t hchoose
    rw [hchoose] at h
    exact canUndo_of_same (Option.some_inj.mp h)
  have hundo : Meets step Undoes atRest twoHeld := by
    refine Machine.meets_cons_of_eq rfl ?_ (Machine.meets_cons_of_eq rfl ?_
      (Machine.meets_cons_of_eq rfl ?_ (Machine.meets_cons_of_eq rfl ?_ trivial)))
    · rintro keysym s' t ha
      cases ha
      exact same (mieqProcessInputEvents atRest.keyboard) 0x71 (by decide +kernel) s' t
    · rintro keysym s' t ha
      cases ha
      exact same (mieqProcessInputEvents qHeld) 0x61 (by decide +kernel) s' t
    · rintro keysym s' t ha
      cases ha
    · rintro keysym s' t ha
      cases ha
  refine ⟨_, rfl, by decide +kernel, fun key => ?_⟩
  have hreleased : ∀ keysym, Function.update (Function.update (Function.update
      (Function.update (fun _ => false) 0x71 true) 0x61 true) 0x71 false) 0x61 false keysym =
        false := by
    intro keysym
    simp only [Function.update_apply]
    split_ifs
    all_goals rfl
  obtain ⟨hup, hdown⟩ := (releases_match hfresh rfl).2.2 hone hreleased
  refine ⟨hup key, ?_⟩
  by_contra hkey
  exact Bool.noConfusion (hdown hundo key (eq_true_of_ne_false hkey))

/-- The layout is switched while q is held, and q is pressed again, on its other key. -/
theorem atRest_stuck : ∃ s,
    run step atRest [.keysym 0x71 true, .modifiers 0 1, .keysym 0x71 true, .keysym 0x71 false] =
      some s ∧ (∀ keysym, s.held keysym = false) ∧ keyDown s.keyboard 24 = true ∧
      downAfter s.keyboard 24 = true := by
  refine ⟨_, rfl, fun keysym => ?_, by decide +kernel, by decide +kernel⟩
  change Function.update (Function.update (Function.update (fun _ => false) 0x71 true) 0x71 true)
    0x71 false keysym = false
  rw [Function.update_idem, Function.update_idem]
  exact congrFun (Function.update_eq_self 0x71 fun _ => false) keysym

end Keyboard
