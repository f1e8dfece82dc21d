/-
A touch on its way to the server (`sendTouchEvent` in `activity.cpp`, `EVENT_TOUCH` in
`lorie.h` and `cmdentrypoint.cpp`).

The activity is given the position as two `jint`s and sends their low sixteen bits.  The
server takes them for a number that is not negative and clamps it to the screen; its
clamp to zero changes nothing.

* `sendTouchEvent`, `receiveTouch` — the event as it is written, and as it is read;
* `clampTo` — what a coordinate should come to;
* `Survives` — whatever is queued for a position is the clamped position, scaled;
* `survives_iff` — the positions for which that holds.
-/
import KaliGui.Lorie.Event
import KaliGui.Lorie.Touch

namespace Lorie.Touch

open ByteStream

/-! ### The activity's side -/

/-- `EVENT_TOUCH` -/
def eventTouch : UInt8 := 5

/-- The cast `(uint16_t)` of a `jint`. -/
def toUint16 (n : Int32) : UInt16 := n.toUInt32.toUInt16

/-- `lorieEvent.touch` in memory: the type byte is followed by one that no member covers. -/
def Message.bytes (e : Message) : List UInt8 :=
  eventBytes eventTouch ([0] ++ leBytes 2 e.type.toNat ++ leBytes 2 e.id.toNat ++
    leBytes 2 e.x.toNat ++ leBytes 2 e.y.toNat)

/-- `sendTouchEvent`; `none` where it sends nothing. -/
def sendTouchEvent (action id x y : Int32) : Option (List UInt8) :=
  if action ≠ -1 then
    some (Message.bytes ⟨toUint16 action, toUint16 id, toUint16 x, toUint16 y⟩)
  else none

/-! ### The server's side -/

/-- `e->touch` of an event that was read. -/
def Message.ofBytes (event : List UInt8) : Message where
  type := .ofNat (field 2 2 event)
  id := .ofNat (field 4 2 event)
  x := .ofNat (field 6 2 event)
  y := .ofNat (field 8 2 event)

/-- `handleTouchEvent` on an event that was read. -/
def receiveTouch (s : State) (event : List UInt8) (screen : Screen) : State :=
  handleTouchEvent s (Message.ofBytes event) screen

/-! ### What should hold -/

/-- A coordinate clamped to `0` to `hi`. -/
def clampTo (n : ℤ) (hi : ℕ) : ℕ := (max (min n hi) 0).toNat

/-- Whatever is queued for the position, whoever touches and whatever went before, is for
the clamped position, scaled. -/
def Survives (x y : Int32) (screen : Screen) : Prop :=
  ∀ (action id : Int32) (event : List UInt8), sendTouchEvent action id x y = some event →
    ∀ (s : State) (e : Event), (receiveTouch s event screen).queued = e :: s.queued →
      e.valuators = scaled (clampTo x.toInt screen.width, clampTo y.toInt screen.height) screen

/-- A coordinate that sixteen bits hold, or whose low ones stand for the same edge. -/
def Holdable (n : ℤ) (hi : ℕ) : Prop :=
  if n < 0 then n % 65536 = 0 else n < 65536 ∨ (hi : ℤ) ≤ n % 65536

instance (n : ℤ) (hi : ℕ) : Decidable (Holdable n hi) := inferInstanceAs (Decidable (ite _ _ _))

/-! ### Between the two -/

theorem toUint16_toNat (n : Int32) : ((toUint16 n).toNat : ℤ) = n.toInt % 65536 := by
  have hnat : (toUint16 n).toNat = n.toUInt32.toNat % 65536 := UInt32.toNat_toUInt16 _
  have hint : n.toInt = if 2 * n.toUInt32.toNat < 2 ^ 32 then (n.toUInt32.toNat : ℤ)
      else (n.toUInt32.toNat : ℤ) - 2 ^ 32 := BitVec.toInt_eq_toNat_cond _
  rw [hnat, hint]
  split
  · omega
  · omega

/-- A sixteen-bit member, with the members before it and after it. -/
theorem ofNat_field (t : UInt8) (offset : ℕ) (n : UInt16) {members : List UInt8}
    (before after : List UInt8) (hmembers : members = before ++ leBytes 2 n.toNat ++ after)
    (hoffset : before.length + 1 = offset) :
    UInt16.ofNat (field offset 2 (eventBytes t members)) = n := by
  subst hmembers hoffset
  have hfit : n.toNat % 256 ^ 2 = n.toNat := Nat.mod_eq_of_lt n.toNat_lt
  rw [field_eventBytes, hfit, UInt16.ofNat_toNat]

/-- The server reads the message the activity wrote. -/
theorem ofBytes_bytes (e : Message) : Message.ofBytes e.bytes = e := by
  have htype := ofNat_field eventTouch 2 e.type [0]
    (leBytes 2 e.id.toNat ++ leBytes 2 e.x.toNat ++ leBytes 2 e.y.toNat) rfl rfl
  have hid := ofNat_field eventTouch 4 e.id ([0] ++ leBytes 2 e.type.toNat)
    (leBytes 2 e.x.toNat ++ leBytes 2 e.y.toNat) rfl rfl
  have hx := ofNat_field eventTouch 6 e.x ([0] ++ leBytes 2 e.type.toNat ++ leBytes 2 e.id.toNat)
    (leBytes 2 e.y.toNat) rfl rfl
  have hy := ofNat_field eventTouch 8 e.y
    ([0] ++ leBytes 2 e.type.toNat ++ leBytes 2 e.id.toNat ++ leBytes 2 e.x.toNat) [] rfl rfl
  exact (Message.mk.injEq ..).mpr ⟨htype, hid, hx, hy⟩

/-- Each event queued for a message is for its position on the screen. -/
theorem handleTouchEvent_valuators {s : State} {m : Message} {screen : Screen} {e : Event}
    (h : (handleTouchEvent s m screen).queued = e :: s.queued) :
    e.valuators = scaled (m.clamped screen) screen := by
  have hsame : s.queued ≠ e :: s.queued := (List.cons_ne_self e s.queued).symm
  have hqueue : ∀ type, (queueTouchEvents s ⟨type, m.id, m.clamped screen, screen⟩).queued =
      e :: s.queued → e.valuators = scaled (m.clamped screen) screen := by
    intro type hnew
    rw [queueTouchEvents] at hnew
    split at hnew
    · obtain ⟨rfl, -⟩ := List.cons.inj hnew
      rfl
    · obtain ⟨rfl, -⟩ := List.cons.inj hnew
      rfl
    · obtain ⟨rfl, -⟩ := List.cons.inj hnew
      rfl
    · exact absurd hnew hsame
  unfold handleTouchEvent at h
  dsimp only at h
  generalize (if touchType m.type = some .touchUpdate ∧ s.touches m.id = none then
    some TouchType.touchBegin else touchType m.type) = type at h
  split at h
  · exact absurd h hsame
  split at h
  · exact absurd h hsame
  cases type with
  | none => exact absurd h hsame
  | some type => exact hqueue type h

/-- On the screen, the low bits of a coordinate stand for its clamp exactly if it is
holdable. -/
theorem min_toUint16 (n : Int32) (hi : ℕ) (hpos : 0 < hi) (hlt : hi < 2 ^ 15) :
    min (toUint16 n).toNat hi = clampTo n.toInt hi ↔ Holdable n.toInt hi := by
  have hlow := toUint16_toNat n
  rw [clampTo, Holdable]
  split
  · omega
  · omega

theorem scaled_inj {p q : ℕ × ℕ} {screen : Screen} (h : scaled p screen = scaled q screen) :
    p = q := by
  have hwidth : (screen.width : ℚ) ≠ 0 := Nat.cast_ne_zero.mpr screen.width_pos.ne'
  have hheight : (screen.height : ℚ) ≠ 0 := Nat.cast_ne_zero.mpr screen.height_pos.ne'
  rw [scaled, scaled, Prod.mk.injEq, div_left_inj' hwidth, div_left_inj' hheight, Nat.cast_inj,
    Nat.cast_inj] at h
  exact Prod.ext (Nat.eq_of_mul_eq_mul_right (by decide) h.1)
    (Nat.eq_of_mul_eq_mul_right (by decide) h.2)

/-- A position survives the wire exactly if both coordinates are holdable. -/
theorem survives_iff (x y : Int32) (screen : Screen) :
    Survives x y screen ↔ Holdable x.toInt screen.width ∧ Holdable y.toInt screen.height := by
  rw [← min_toUint16 x screen.width screen.width_pos screen.width_lt,
    ← min_toUint16 y screen.height screen.height_pos screen.height_lt]
  constructor
  · intro h
    -- the begin of a touch is always queued
    have hbegin := h 18 0 _ rfl {}
      ⟨.touchBegin, 0, Message.clamped ⟨18, 0, toUint16 x, toUint16 y⟩ screen, screen⟩ (by
        rw [receiveTouch, ofBytes_bytes, handleTouchEvent_begin rfl]
        rfl)
    have hclamped := scaled_inj hbegin
    exact ⟨congrArg Prod.fst hclamped, congrArg Prod.snd hclamped⟩
  · rintro ⟨hx, hy⟩ action id event hsend s e hqueued
    rw [sendTouchEvent] at hsend
    split at hsend <;> [skip; cases hsend]
    obtain rfl := Option.some_inj.mp hsend
    rw [receiveTouch, ofBytes_bytes] at hqueued
    rw [handleTouchEvent_valuators hqueued, Message.clamped, hx, hy]

/-- A finger one pixel to the left of a picture of a thousand by a thousand pixels. -/
theorem left_not_survives : ¬ Survives (-1) 500 thousand := by
  intro h
  have hbegin := h 18 0 _ rfl {} ⟨.touchBegin, 0, (1000, 500), thousand⟩ (by
    rw [receiveTouch, ofBytes_bytes, handleTouchEvent_begin rfl]
    rfl)
  have hclamped := scaled_inj hbegin
  exact absurd (congrArg Prod.fst hclamped) (by decide)

end Lorie.Touch
