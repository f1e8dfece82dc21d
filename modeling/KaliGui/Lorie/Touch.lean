/-
Touch streams (`handleTouchEvent` in `cmdentrypoint.cpp`, `GetTouchEvents` in
`getevents.c`).

The position of an `EVENT_TOUCH` is clamped to the screen and then scaled to the range of
the touch device's axes, which is what the touch point keeps.  An update that repeats the
kept position is to be dropped; the test compares the position before scaling with the
kept one after it.

* `handleTouchEvent` — one message, for a screen of any size;
* `stream` — the events queued for one touch id;
* `Tidy` — streams are `Begin Update* End` repeated, and an update of an active touch is
  dropped exactly if it is for the position of the last event;
* `tidy_iff` — the runs in which that holds.

The quotients are kept exact.  A quotient of the numbers met here is an integer exactly if
the `double` nearest to it is.
-/
import KaliGui.Lib.Run
import Mathlib.Data.Rat.Cast.Order
import Mathlib.Tactic.FieldSimp

namespace Lorie.Touch

open Machine

/-! ### Messages and events -/

/-- `pScreenPtr->width` and `height`, which are `short` and not zero. -/
structure Screen where
  width : ℕ
  height : ℕ
  width_pos : 0 < width
  width_lt : width < 2 ^ 15
  height_pos : 0 < height
  height_lt : height < 2 ^ 15
  deriving DecidableEq, Repr

inductive TouchType
  /-- `XI_TouchBegin` -/
  | touchBegin
  | touchUpdate
  | touchEnd
  deriving DecidableEq, Repr

/-- The types `GetTouchEvents` knows. -/
def touchType (type : UInt16) : Option TouchType :=
  if type = 18 then some .touchBegin
  else if type = 19 then some .touchUpdate
  else if type = 20 then some .touchEnd
  else none

/-- `EVENT_TOUCH` -/
structure Message where
  type : UInt16
  id : UInt16
  x : UInt16
  y : UInt16
  deriving DecidableEq, Repr

/-- The screen position of a message. -/
def Message.clamped (e : Message) (screen : Screen) : ℕ × ℕ :=
  (min e.x.toNat screen.width, min e.y.toNat screen.height)

/-- A position on the device's axes, `0` to `0xFFFF`. -/
def scaled (p : ℕ × ℕ) (screen : Screen) : ℚ × ℚ :=
  ((p.1 * 0xFFFF : ℕ) / (screen.width : ℚ), (p.2 * 0xFFFF : ℕ) / (screen.height : ℚ))

/-- An event in the queue, with the position and the screen it was made of. -/
structure Event where
  type : TouchType
  id : UInt16
  position : ℕ × ℕ
  screen : Screen
  deriving DecidableEq, Repr

def Event.valuators (e : Event) : ℚ × ℚ := scaled e.position e.screen

structure State where
  /-- the valuators of the active touch point with the id, `TouchFindByDDXID` -/
  touches : UInt16 → Option (ℚ × ℚ) := fun _ => none
  /-- the events queued, the newest first -/
  queued : List Event := []
  /-- for each update received for an active touch: whether it was dropped, and whether
  it was for the position of the last event -/
  updates : List (Bool × Bool) := []

/-! ### The server's side -/

/-- `QueueTouchEvents`: an update or an end finds its touch point or is refused. -/
def queueTouchEvents (s : State) (e : Event) : State :=
  match e.type, s.touches e.id with
  | .touchBegin, _ | .touchUpdate, some _ =>
    { s with
      touches := Function.update s.touches e.id (some e.valuators)
      queued := e :: s.queued }
  | .touchEnd, some _ =>
    { s with touches := Function.update s.touches e.id none, queued := e :: s.queued }
  | _, none => s

/-- `handleTouchEvent` -/
def handleTouchEvent (s : State) (e : Message) (screen : Screen) : State :=
  let p := e.clamped screen
  let touch := s.touches e.id
  if touchType e.type = some .touchUpdate ∧ touch = some ((p.1 : ℚ), (p.2 : ℚ)) then s
  else
    let type := if touchType e.type = some .touchUpdate ∧ touch = none then some .touchBegin
      else touchType e.type
    if type = some .touchEnd ∧ touch = none then s
    else
      match type with
      | none => s
      | some type => queueTouchEvents s ⟨type, e.id, p, screen⟩

/-- The last event queued for a touch id. -/
def last (id : UInt16) (queued : List Event) : Option Event := queued.find? fun e => e.id == id

/-- The last event for a touch that has not ended. -/
def lastActive (id : UInt16) (queued : List Event) : Option Event :=
  (last id queued).filter fun e => e.type ≠ .touchEnd

/-- A message, for the screen of the moment. -/
def step (s : State) (a : Message × Screen) : Option State :=
  let next := handleTouchEvent s a.1 a.2
  match touchType a.1.type, lastActive a.1.id s.queued with
  | some .touchUpdate, some e =>
    some { next with updates :=
      (decide (next.queued.length = s.queued.length),
        decide (a.1.clamped a.2 = e.position)) :: s.updates }
  | _, _ => some next

/-! ### What should hold -/

/-- A touch, down or not, after one more event. -/
def follow : TouchType → Bool → Option Bool
  | .touchBegin, false => some true
  | .touchUpdate, true => some true
  | .touchEnd, true => some false
  | _, _ => none

/-- Whether a touch is down after the events; `none` if those for its id are not
`Begin Update* End` repeated. -/
def stream (id : UInt16) : List Event → Option Bool
  | [] => some false
  | e :: es => if e.id = id then (stream id es).bind (follow e.type) else stream id es

/-- The streams are well formed, and exactly the updates that repeat the position of the
last event were dropped. -/
structure Tidy (s : State) : Prop where
  formed : ∀ id, (stream id s.queued).isSome
  dropped : ∀ u ∈ s.updates, u.1 = u.2

/-- The numbers `p` are those the event's position was scaled to. -/
def Coincides (e : Event) (p : ℕ × ℕ) : Prop :=
  e.position.1 * 0xFFFF = p.1 * e.screen.width ∧ e.position.2 * 0xFFFF = p.2 * e.screen.height

instance (e : Event) (p : ℕ × ℕ) : Decidable (Coincides e p) := inferInstanceAs (Decidable (_ ∧ _))

/-- No touch begins twice; an update of an active touch for the same position is for the
corner, and one for another position does not coincide with the scaled one. -/
def Unambiguous (s : State) (a : Message × Screen) : Prop :=
  match touchType a.1.type, lastActive a.1.id s.queued with
  | some .touchBegin, some _ => False
  | some .touchUpdate, some e =>
    if a.1.clamped a.2 = e.position then e.position = (0, 0)
    else ¬ Coincides e (a.1.clamped a.2)
  | _, _ => True

/-! ### What one message does -/

theorem lastActive_cons (id : UInt16) (e : Event) (es : List Event) :
    lastActive id (e :: es) =
      if e.id = id then if e.type = .touchEnd then none else some e else lastActive id es := by
  rw [lastActive, last, List.find?_cons]
  by_cases hid : e.id = id
  · rw [if_pos hid, hid, beq_self_eq_true]
    by_cases hend : e.type = .touchEnd
    · rw [if_pos hend]
      exact if_neg (by simp [hend])
    · rw [if_neg hend]
      exact if_pos (by simp [hend])
  · rw [if_neg hid, beq_eq_false_iff_ne.mpr hid]
    rfl

/-- One more event in the queue. -/
def State.queue (s : State) (e : Event) : State :=
  { s with
    touches := Function.update s.touches e.id
      (if e.type = .touchEnd then none else some e.valuators)
    queued := e :: s.queued }

theorem queueTouchEvents_eq {s : State} {e : Event}
    (h : e.type = .touchBegin ∨ (s.touches e.id).isSome) : queueTouchEvents s e = s.queue e := by
  rw [queueTouchEvents, State.queue]
  cases htype : e.type with
  | touchBegin => cases s.touches e.id <;> rfl
  | touchUpdate =>
    rw [htype] at h
    obtain ⟨v, hv⟩ := Option.isSome_iff_exists.mp (h.resolve_left (by simp))
    rw [hv]
    rfl
  | touchEnd =>
    rw [htype] at h
    obtain ⟨v, hv⟩ := Option.isSome_iff_exists.mp (h.resolve_left (by simp))
    rw [hv]
    rfl

/-- The touch points are those of the queued events. -/
structure Tracked (s : State) : Prop where
  down : ∀ id, stream id s.queued = some (s.touches id).isSome
  kept : ∀ id, s.touches id = (lastActive id s.queued).map Event.valuators

theorem tracked_initial : Tracked {} where
  down _ := rfl
  kept _ := rfl

/-- An event that the stream of its id may go on with. -/
theorem Tracked.queue {s : State} (h : Tracked s) {e : Event}
    (hnext : follow e.type (s.touches e.id).isSome = some (decide (e.type ≠ .touchEnd))) :
    Tracked (s.queue e) where
  down id := by
    have hafter : (s.queue e).touches id =
        if id = e.id then if e.type = .touchEnd then none else some e.valuators
        else s.touches id := Function.update_apply _ _ _ _
    rw [hafter]
    show (if e.id = id then (stream id s.queued).bind (follow e.type) else stream id s.queued) = _
    by_cases hid : e.id = id
    · rw [if_pos hid, if_pos hid.symm, h.down, ← hid, Option.bind_some, hnext]
      by_cases hend : e.type = .touchEnd
      · rw [if_pos hend, hend]
        rfl
      · rw [if_neg hend, decide_eq_true hend]
        rfl
    · rw [if_neg hid, if_neg (Ne.symm hid), h.down]
  kept id := by
    have hafter : (s.queue e).touches id =
        if id = e.id then if e.type = .touchEnd then none else some e.valuators
        else s.touches id := Function.update_apply _ _ _ _
    have hlast : lastActive id (s.queue e).queued = _ := lastActive_cons id e s.queued
    rw [hafter, hlast]
    by_cases hid : e.id = id
    · rw [if_pos hid, if_pos hid.symm]
      split <;> rfl
    · rw [if_neg hid, if_neg (Ne.symm hid), h.kept]

theorem handleTouchEvent_unknown {s : State} {e : Message} (h : touchType e.type = none)
    (screen : Screen) : handleTouchEvent s e screen = s := by
  simp [handleTouchEvent, h]

theorem handleTouchEvent_begin {s : State} {e : Message} (h : touchType e.type = some .touchBegin)
    (screen : Screen) :
    handleTouchEvent s e screen = s.queue ⟨.touchBegin, e.id, e.clamped screen, screen⟩ := by
  rw [← queueTouchEvents_eq (Or.inl rfl)]
  simp [handleTouchEvent, h]

/-- An update or an end for a touch that is not down. -/
theorem handleTouchEvent_up {s : State} {e : Message} (hup : s.touches e.id = none)
    (screen : Screen) :
    (touchType e.type = some .touchUpdate → handleTouchEvent s e screen =
      s.queue ⟨.touchBegin, e.id, e.clamped screen, screen⟩) ∧
      (touchType e.type = some .touchEnd → handleTouchEvent s e screen = s) := by
  constructor
  · intro h
    rw [← queueTouchEvents_eq (Or.inl rfl)]
    simp [handleTouchEvent, h, hup]
  · intro h
    simp [handleTouchEvent, h, hup]

theorem handleTouchEvent_end {s : State} {e : Message} (h : touchType e.type = some .touchEnd)
    (hdown : (s.touches e.id).isSome) (screen : Screen) :
    handleTouchEvent s e screen = s.queue ⟨.touchEnd, e.id, e.clamped screen, screen⟩ := by
  rw [← queueTouchEvents_eq (Or.inr hdown)]
  have hne : s.touches e.id ≠ none := Option.isSome_iff_ne_none.mp hdown
  simp [handleTouchEvent, h, hne]

theorem valuators_eq_iff (e : Event) (p : ℕ × ℕ) :
    e.valuators = ((p.1 : ℚ), (p.2 : ℚ)) ↔ Coincides e p := by
  have hwidth : (e.screen.width : ℚ) ≠ 0 := Nat.cast_ne_zero.mpr e.screen.width_pos.ne'
  have hheight : (e.screen.height : ℚ) ≠ 0 := Nat.cast_ne_zero.mpr e.screen.height_pos.ne'
  rw [Event.valuators, scaled, Prod.mk.injEq, div_eq_iff hwidth, div_eq_iff hheight, Coincides]
  exact and_congr (by exact_mod_cast Iff.rfl) (by exact_mod_cast Iff.rfl)

/-- An update for a touch that is down. -/
theorem handleTouchEvent_update {s : State} {e : Message} {before : Event}
    (h : touchType e.type = some .touchUpdate) (hdown : s.touches e.id = some before.valuators)
    (screen : Screen) :
    handleTouchEvent s e screen =
      if Coincides before (e.clamped screen) then s
      else s.queue ⟨.touchUpdate, e.id, e.clamped screen, screen⟩ := by
  have hiff := valuators_eq_iff before (e.clamped screen)
  have hqueue := queueTouchEvents_eq (s := s) (e := ⟨.touchUpdate, e.id, e.clamped screen, screen⟩)
    (Or.inr (by rw [hdown]; rfl))
  by_cases hsame : Coincides before (e.clamped screen)
  · have hv := hiff.mpr hsame
    simp [handleTouchEvent, h, hdown, hv, hsame]
  · have hv : before.valuators ≠ _ := fun hv => hsame (hiff.mp hv)
    rw [if_neg hsame, ← hqueue]
    simp [handleTouchEvent, h, hdown, hv]

theorem mul_eq_mul_self_iff {a w : ℕ} (hw : w < 2 ^ 15) : a * 0xFFFF = a * w ↔ a = 0 := by
  constructor
  · intro heq
    by_contra ha
    have := Nat.eq_of_mul_eq_mul_left (Nat.pos_of_ne_zero ha) heq
    omega
  · rintro rfl
    rw [Nat.zero_mul, Nat.zero_mul]

/-- A position on the screen coincides with itself scaled only in the corner. -/
theorem coincides_self_iff (e : Event) : Coincides e e.position ↔ e.position = (0, 0) := by
  rw [Coincides, mul_eq_mul_self_iff e.screen.width_lt, mul_eq_mul_self_iff e.screen.height_lt]
  constructor
  · rintro ⟨hx, hy⟩
    exact Prod.ext hx hy
  · intro heq
    rw [heq]
    exact ⟨rfl, rfl⟩

/-! ### Step by step -/

/-- A message that is no update of an active touch. -/
theorem step_of_not_update {s : State} {a : Message × Screen}
    (h : touchType a.1.type = some .touchUpdate → lastActive a.1.id s.queued = none) :
    step s a = some (handleTouchEvent s a.1 a.2) := by
  rw [step]
  split
  next e htype hlast =>
    rw [h htype] at hlast
    cases hlast
  next => rfl

theorem Tidy.queue {s : State} (h : Tidy s) {e : Event} (hnext : Tracked (s.queue e)) :
    Tidy (s.queue e) where
  formed id := by
    rw [hnext.down]
    rfl
  dropped := h.dropped

/-- A second begin of a touch. -/
theorem not_tidy_begin {s : State} {e : Event} (h : Tracked s) (htype : e.type = .touchBegin)
    (hdown : (s.touches e.id).isSome) : ¬ Tidy (s.queue e) := by
  intro htidy
  have hformed := htidy.formed e.id
  have hstream : stream e.id (s.queue e).queued = none := by
    show (if e.id = e.id then (stream e.id s.queued).bind (follow e.type) else _) = none
    rw [if_pos rfl, h.down, hdown, htype]
    rfl
  rw [hstream] at hformed
  cases hformed

/-- An update of an active touch, and what is noted of it. -/
theorem step_update {s : State} {e : Message} {before : Event} (h : Tracked s)
    (htype : touchType e.type = some .touchUpdate)
    (hlast : lastActive e.id s.queued = some before) (screen : Screen) :
    step s (e, screen) = some { handleTouchEvent s e screen with updates :=
      (decide (Coincides before (e.clamped screen)),
        decide (e.clamped screen = before.position)) :: s.updates } := by
  have hdown : s.touches e.id = some before.valuators := by
    rw [h.kept, hlast]
    rfl
  have hlength : decide ((handleTouchEvent s e screen).queued.length = s.queued.length) =
      decide (Coincides before (e.clamped screen)) := by
    rw [handleTouchEvent_update htype hdown]
    by_cases hsame : Coincides before (e.clamped screen)
    · rw [if_pos hsame, decide_eq_true hsame, decide_eq_true rfl]
    · rw [if_neg hsame, decide_eq_false hsame, decide_eq_false]
      exact Nat.succ_ne_self _
  rw [step, htype, hlast]
  simp only [hlength]

/-- The filter is right about an update exactly if it is not misled. -/
theorem unambiguous_update {s : State} {e : Message} {before : Event}
    (htype : touchType e.type = some .touchUpdate)
    (hlast : lastActive e.id s.queued = some before) (screen : Screen) :
    Unambiguous s (e, screen) ↔ decide (Coincides before (e.clamped screen)) =
      decide (e.clamped screen = before.position) := by
  simp only [Unambiguous, htype, hlast]
  rw [decide_eq_decide]
  split
  next hsame =>
    rw [hsame, coincides_self_iff]
    exact (iff_true_right rfl).symm
  next hsame => exact (iff_false_right hsame).symm

/-- A step keeps the touch points with the queue, and the streams tidy exactly if it
meets the condition. -/
theorem tidy_step {s s' : State} {a : Message × Screen} (h : Tracked s) (htidy : Tidy s)
    (hstep : step s a = some s') :
    (Unambiguous s a ↔ Tidy s') ∧ (Unambiguous s a → Tracked s') := by
  obtain ⟨e, screen⟩ := a
  have hkept := h.kept e.id
  cases htype : touchType e.type with
  | none =>
    rw [step_of_not_update (by simp [htype]), handleTouchEvent_unknown htype] at hstep
    obtain rfl := Option.some_inj.mp hstep
    have hok : Unambiguous s (e, screen) := by simp [Unambiguous, htype]
    exact ⟨iff_of_true hok htidy, fun _ => h⟩
  | some type =>
    cases hlast : lastActive e.id s.queued with
    | none =>
      -- the point is up: whatever begins it is queued, and its end is not
      rw [hlast, Option.map_none] at hkept
      have hok : Unambiguous s (e, screen) := by
        rw [Unambiguous, htype, hlast]
        cases type <;> trivial
      rw [step_of_not_update fun _ => hlast] at hstep
      obtain rfl := Option.some_inj.mp hstep
      have hbegin : Tracked (s.queue ⟨.touchBegin, e.id, e.clamped screen, screen⟩) :=
        h.queue (by rw [hkept]; rfl)
      cases type with
      | touchBegin =>
        rw [handleTouchEvent_begin htype]
        exact ⟨iff_of_true hok (htidy.queue hbegin), fun _ => hbegin⟩
      | touchUpdate =>
        rw [(handleTouchEvent_up hkept screen).1 htype]
        exact ⟨iff_of_true hok (htidy.queue hbegin), fun _ => hbegin⟩
      | touchEnd =>
        rw [(handleTouchEvent_up hkept screen).2 htype]
        exact ⟨iff_of_true hok htidy, fun _ => h⟩
    | some before =>
      rw [hlast, Option.map_some] at hkept
      have hdown : (s.touches e.id).isSome := by
        rw [hkept]
        rfl
      cases type with
      | touchBegin =>
        -- a second begin is queued as it is
        rw [step_of_not_update (by simp [htype]), handleTouchEvent_begin htype] at hstep
        obtain rfl := Option.some_inj.mp hstep
        have hnot : ¬ Unambiguous s (e, screen) := by simp [Unambiguous, htype, hlast]
        exact ⟨iff_of_false hnot (not_tidy_begin h rfl hdown), fun hok => absurd hok hnot⟩
      | touchUpdate =>
        rw [step_update h htype hlast] at hstep
        obtain rfl := Option.some_inj.mp hstep
        have hnext : Tracked (handleTouchEvent s e screen) := by
          rw [handleTouchEvent_update htype hkept]
          split
          · exact h
          · exact h.queue (by rw [hdown]; rfl)
        rw [unambiguous_update htype hlast]
        refine ⟨⟨fun hok => ⟨fun id => ?_, fun u hu => ?_⟩, fun hafter => ?_⟩,
          fun _ => ⟨hnext.down, hnext.kept⟩⟩
        · rw [hnext.down]
          rfl
        · rcases List.mem_cons.mp hu with rfl | hu
          · exact hok
          · exact htidy.dropped u hu
        · exact hafter.dropped _ List.mem_cons_self
      | touchEnd =>
        have hok : Unambiguous s (e, screen) := by simp [Unambiguous, htype]
        rw [step_of_not_update (by simp [htype]), handleTouchEvent_end htype hdown] at hstep
        obtain rfl := Option.some_inj.mp hstep
        have hend : Tracked (s.queue ⟨.touchEnd, e.id, e.clamped screen, screen⟩) :=
          h.queue (by rw [hdown]; rfl)
        exact ⟨iff_of_true hok (htidy.queue hend), fun _ => hend⟩

theorem step_isSome (s : State) (a : Message × Screen) : ∃ s', step s a = some s' := by
  rw [step]
  split
  · exact ⟨_, rfl⟩
  · exact ⟨_, rfl⟩

/-- The touch streams stay tidy through a run exactly if no touch begins twice and the
filter is not misled by the scaling. -/
theorem tidy_iff (as : List (Message × Screen)) :
    Always step Tidy {} as ↔ Meets step Unambiguous {} as := by
  obtain ⟨t, hrun⟩ := run_of_total step_isSome {} as
  refine always_iff_meets (I := fun s => Tracked s ∧ Tidy s) (fun _ h => h.2)
    (fun _ _ _ h hstep => (tidy_step h.1 h.2 hstep).1) (fun s a s' h hok hstep => ?_)
    ⟨tracked_initial, fun _ => rfl, fun _ hu => absurd hu List.not_mem_nil⟩ hrun
  obtain ⟨hiff, htracked⟩ := tidy_step h.1 h.2 hstep
  exact ⟨htracked hok, hiff.mp hok⟩

/-! ### An update that repeats the position -/

/-- 1000 by 1000 pixels. -/
def thousand : Screen := ⟨1000, 1000, by decide, by decide, by decide, by decide⟩

/-- A touch begins at a point and is updated there. -/
def repeated : List (Message × Screen) :=
  [(⟨18, 1, 500, 500⟩, thousand), (⟨19, 1, 500, 500⟩, thousand)]

/-- The second message is queued. -/
theorem repeated_not_tidy : ¬ Always step Tidy {} repeated := by
  intro hall
  have heval : (run step {} repeated).map State.updates = some [(false, true)] := by
    decide +kernel
  obtain ⟨s, hrun, hupdates⟩ := Option.map_eq_some_iff.mp heval
  obtain ⟨s₁, h₁, hrun⟩ := run_cons_eq_some.mp hrun
  obtain ⟨s₂, h₂, hrun⟩ := run_cons_eq_some.mp hrun
  obtain rfl : s₂ = s := Option.some_inj.mp hrun
  have hdropped := ((hall.of_step h₁).of_step h₂).head.dropped (false, true)
    (by rw [hupdates]; exact List.mem_singleton_self _)
  cases hdropped

end Lorie.Touch
