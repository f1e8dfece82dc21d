/-
Stylus buttons (`EVENT_STYLUS` and `EVENT_STYLUS_ENABLE` in `handleLorieEvents`,
`lorieSetStylusEnabled` in `InitInput.c`).

A message names its device, the mouse, the pen or the eraser, and the mask of the buttons
that are down.  The server queues a press or release for each of the three low bits that
differs from the mask of the last message that found its device, whichever device that
was.  The pen and the eraser come and go; the last mask stays.

* `stylusEvents` — the presses and releases of one message;
* `step` — messages, and stylus support switched on and off;
* `Consistent` — on each device the presses and releases alternate and agree with the
  masks;
* `consistent_iff` — the runs in which they do: no other device is addressed while a
  button is down.
-/
import KaliGui.Lib.Presses
import KaliGui.Lib.Run

namespace Lorie.Stylus

open Machine Presses

inductive Device
  | mouse
  | pen
  | eraser
  deriving DecidableEq, Repr

/-! ### The server's side -/

/-- The loop over the three buttons; the button is `i + 1`. -/
def buttonLoop : ℕ → ℕ → BitVec 32 → BitVec 32 → List (ℕ × Bool)
  | 0, _, _, _ => []
  | n + 1, i, released, pressed =>
    (if released.getLsbD 0 then [(i + 1, false)] else []) ++
      (if pressed.getLsbD 0 then [(i + 1, true)] else []) ++
      buttonLoop n (i + 1) (released >>> 1) (pressed >>> 1)

/-- What a message with the mask `buttons` makes of the mask before it. -/
def stylusEvents (buttonsPrev : BitVec 32) (buttons : BitVec 8) : List (ℕ × Bool) :=
  let buttons := buttons.setWidth 32
  let diff := buttonsPrev ^^^ buttons
  let released := diff &&& ~~~buttons
  let pressed := diff &&& buttons
  buttonLoop 3 0 released pressed

structure State where
  /-- `buttons_prev` -/
  buttonsPrev : BitVec 32 := 0
  /-- `loriePen` is not null -/
  loriePen : Bool := false
  lorieEraser : Bool := false
  /-- the presses and releases queued for each device since it was added -/
  queued : Device → List (ℕ × Bool) := fun _ => []
  /-- device and mask of the message just handled -/
  message : Option (Device × BitVec 8) := none
  /-- the device of the last message that found it, if it has not been removed -/
  owner : Option Device := none

inductive Act
  /-- `EVENT_STYLUS` -/
  | stylus (buttons : BitVec 8) (eraser mouse : Bool)
  /-- `EVENT_STYLUS_ENABLE` -/
  | stylusEnable (enable : Bool)

def State.present (s : State) : Device → Bool
  | .mouse => true
  | .pen => s.loriePen
  | .eraser => s.lorieEraser

/-- `device` -/
def addressed (eraser mouse : Bool) : Device :=
  if mouse then .mouse else if eraser then .eraser else .pen

/-- The case `EVENT_STYLUS`. -/
def handleStylus (s : State) (buttons : BitVec 8) (device : Device) : State :=
  if s.present device then
    { s with
      queued := Function.update s.queued device
        (s.queued device ++ stylusEvents s.buttonsPrev buttons)
      buttonsPrev := buttons.setWidth 32
      message := some (device, buttons)
      owner := some device }
  else { s with message := some (device, buttons) }

/-- `RemoveDevice`; the buttons go with the device. -/
def removeDevice (s : State) (device : Device) : State :=
  { s with
    queued := Function.update s.queued device []
    owner := if s.owner = some device then none else s.owner }

/-- `lorieSetStylusEnabled` -/
def setStylusEnabled (s : State) (enabled : Bool) : State :=
  if enabled then { s with loriePen := true, lorieEraser := true }
  else
    let s := if s.loriePen then { removeDevice s .pen with loriePen := false } else s
    if s.lorieEraser then { removeDevice s .eraser with lorieEraser := false } else s

def step (s : State) : Act → Option State
  | .stylus buttons eraser mouse => some (handleStylus s buttons (addressed eraser mouse))
  | .stylusEnable enable => some { setStylusEnabled s enable with message := none }

/-! ### What should hold -/

/-- The buttons of a mask, its low three bits. -/
def maskHolds {w : ℕ} (mask : BitVec w) : ℕ → Bool
  | 0 => false
  | i + 1 => decide (i < 3) && mask.getLsbD i

/-- On each device the presses and releases of each button alternate; a message leaves on
its device just the buttons of its mask held, and a mask of zero leaves nothing held on
the others. -/
structure Consistent (s : State) : Prop where
  alternate : ∀ device button, (held button (s.queued device)).isSome
  mask : ∀ device buttons, s.message = some (device, buttons) → s.present device = true →
    ∀ button, held button (s.queued device) = some (maskHolds buttons button)
  released : ∀ device, s.message = some (device, 0) →
    ∀ other ≠ device, ∀ button, held button (s.queued other) = some false

/-- No button is down by the last mask. -/
def NoButtons (s : State) : Prop := ∀ button, maskHolds s.buttonsPrev button = false

/-- A message finds its device only while no button is down, or on the device that has
the buttons; and while one is down on a device, no mask of zero comes for a device that
is not there. -/
def Undivided (s : State) : Act → Prop
  | .stylus buttons eraser mouse =>
    if s.present (addressed eraser mouse) then
      NoButtons s ∨ s.owner = some (addressed eraser mouse)
    else buttons = 0 → NoButtons s ∨ s.owner = none
  | .stylusEnable _ => True

/-! ### What a message does to a button -/

theorem lt_of_mem_buttonLoop {n i : ℕ} {released pressed : BitVec 32} {e : ℕ × Bool}
    (h : e ∈ buttonLoop n i released pressed) : i < e.1 := by
  induction n generalizing i released pressed with
  | zero => exact absurd h List.not_mem_nil
  | succ n ih =>
    rw [buttonLoop, List.append_assoc, List.mem_append, List.mem_append] at h
    rcases h with h | h | h
    · split at h
      · rw [List.mem_singleton.mp h]
        exact Nat.lt_succ_self i
      · exact absurd h List.not_mem_nil
    · split at h
      · rw [List.mem_singleton.mp h]
        exact Nat.lt_succ_self i
      · exact absurd h List.not_mem_nil
    · exact Nat.lt_trans (Nat.lt_succ_self i) (ih h)

/-- The release and the press of one turn of the loop. -/
def turnBits (released pressed : Bool) (h : Option Bool) : Option Bool :=
  let h := if released then turn false h else h
  if pressed then turn true h else h

theorem replay_turnBits (button i : ℕ) (released pressed : Bool) (h : Option Bool) :
    replay button h ((if released then [(i, false)] else []) ++
        if pressed then [(i, true)] else []) =
      if i = button then turnBits released pressed h else h := by
  rw [turnBits]
  cases released <;> cases pressed <;> simp only [replay, Bool.false_eq_true, if_false, if_true,
    List.nil_append, List.cons_append] <;> split <;> rfl

/-- The loop turns each of its buttons once. -/
theorem replay_buttonLoop (n i k : ℕ) (released pressed : BitVec 32) (h : Option Bool) :
    replay (i + 1 + k) h (buttonLoop n i released pressed) =
      if k < n then turnBits (released.getLsbD k) (pressed.getLsbD k) h else h := by
  induction n generalizing i k released pressed h with
  | zero => rw [buttonLoop, replay_nil, if_neg (Nat.not_lt_zero k)]
  | succ n ih =>
    rw [buttonLoop, replay_append, replay_turnBits]
    cases k with
    | zero =>
      have hrest : ∀ e ∈ buttonLoop n (i + 1) (released >>> 1) (pressed >>> 1), e.1 ≠ i + 1 + 0 :=
        fun e he => Nat.ne_of_gt (lt_of_mem_buttonLoop he)
      rw [replay_of_forall_ne hrest, if_pos rfl, if_pos (Nat.succ_pos n)]
    | succ k =>
      have hnext : i + 1 + (k + 1) = i + 1 + 1 + k := by omega
      rw [if_neg (by omega), hnext, ih, BitVec.getLsbD_ushiftRight, BitVec.getLsbD_ushiftRight,
        Nat.add_comm 1 k]
      simp only [Nat.add_lt_add_iff_right]

/-- A message turns the buttons whose bit has changed. -/
theorem replay_stylusEvents (buttonsPrev : BitVec 32) (buttons : BitVec 8) (button : ℕ)
    (h : Option Bool) :
    replay button h (stylusEvents buttonsPrev buttons) =
      if maskHolds buttonsPrev button = maskHolds buttons button then h
      else turn (maskHolds buttons button) h := by
  cases button with
  | zero =>
    rw [maskHolds, maskHolds, if_pos rfl]
    exact replay_of_forall_ne (fun e he => Nat.ne_of_gt (lt_of_mem_buttonLoop he)) h
  | succ k =>
    have hloop := replay_buttonLoop 3 0 k
      ((buttonsPrev ^^^ buttons.setWidth 32) &&& ~~~(buttons.setWidth 32))
      ((buttonsPrev ^^^ buttons.setWidth 32) &&& buttons.setWidth 32) h
    rw [show 0 + 1 + k = k + 1 by omega] at hloop
    rw [stylusEvents, hloop, maskHolds, maskHolds]
    by_cases hk : k < 3
    · have h32 : k < 32 := by omega
      simp only [hk, if_true, decide_true, Bool.true_and, BitVec.getLsbD_and, BitVec.getLsbD_xor,
        BitVec.getLsbD_not, BitVec.getLsbD_setWidth, h32, turnBits]
      cases buttonsPrev.getLsbD k <;> cases buttons.getLsbD k <;> rfl
    · rw [if_neg hk, decide_eq_false hk, Bool.false_and, Bool.false_and, if_pos rfl]

/-- The mask is stored as it came. -/
theorem maskHolds_setWidth (buttons : BitVec 8) (button : ℕ) :
    maskHolds (buttons.setWidth 32) button = maskHolds buttons button := by
  cases button with
  | zero => rfl
  | succ i =>
    rw [maskHolds, maskHolds, BitVec.getLsbD_setWidth]
    by_cases hi : i < 3
    · rw [decide_eq_true (show i < 32 by omega), Bool.true_and]
    · rw [decide_eq_false hi, Bool.false_and, Bool.false_and]

/-! ### Step by step -/

/-- The buttons of the last mask are held on the owner, and nothing on the others. -/
structure Owned (s : State) : Prop where
  held : ∀ device button,
    held button (s.queued device) = some (decide (s.owner = some device) &&
      maskHolds s.buttonsPrev button)
  present : ∀ device, s.owner = some device → s.present device = true

theorem owned_initial : Owned {} where
  held _ _ := rfl
  present _ h := nomatch h

theorem Owned.held_of_ne {s : State} (h : Owned s) {device : Device}
    (hne : s.owner ≠ some device) (button : ℕ) :
    Presses.held button (s.queued device) = some false := by
  rw [h.held, decide_eq_false hne, Bool.false_and]

theorem Owned.held_of_noButtons {s : State} (h : Owned s) (hno : NoButtons s) (device : Device)
    (button : ℕ) : Presses.held button (s.queued device) = some false := by
  rw [h.held, hno, Bool.and_false]

/-- The addressed device after a message, if it was there. -/
theorem held_handleStylus (s : State) (buttons : BitVec 8) {device : Device}
    (hpresent : s.present device = true) (button : ℕ) :
    held button ((handleStylus s buttons device).queued device) =
      if maskHolds s.buttonsPrev button = maskHolds buttons button then
        held button (s.queued device)
      else turn (maskHolds buttons button) (held button (s.queued device)) := by
  rw [handleStylus, if_pos hpresent, ← replay_stylusEvents, ← held_append]
  exact congrArg (held button) (Function.update_self device _ s.queued)

theorem queued_handleStylus_of_ne (s : State) (buttons : BitVec 8) {device other : Device}
    (hne : other ≠ device) : (handleStylus s buttons device).queued other = s.queued other := by
  rw [handleStylus]
  split
  · exact Function.update_of_ne hne _ _
  · rfl

/-- A message that finds its device as `Undivided` says. -/
theorem Owned.found {s : State} (h : Owned s) (buttons : BitVec 8) {device : Device}
    (hpresent : s.present device = true) (hok : NoButtons s ∨ s.owner = some device) :
    Owned (handleStylus s buttons device) ∧ Consistent (handleStylus s buttons device) := by
  -- the events are the difference to `buttons_prev`, which is what the device holds
  have haddressed : ∀ button, Presses.held button ((handleStylus s buttons device).queued device) =
      some (maskHolds buttons button) := by
    intro button
    rw [held_handleStylus s buttons hpresent]
    have hbefore : Presses.held button (s.queued device) =
        some (maskHolds s.buttonsPrev button) := by
      rcases hok with hno | howner
      · rw [h.held_of_noButtons hno, hno]
      · rw [h.held, decide_eq_true howner, Bool.true_and]
    rw [hbefore]
    split
    next heq => rw [heq]
    next hne => rw [Bool.eq_not_of_ne hne, turn_not]
  have hothers : ∀ other ≠ device, ∀ button,
      Presses.held button ((handleStylus s buttons device).queued other) = some false := by
    intro other hne button
    rw [queued_handleStylus_of_ne s buttons hne]
    rcases hok with hno | howner
    · exact h.held_of_noButtons hno other button
    · refine h.held_of_ne (fun hother => hne ?_) button
      exact Option.some_inj.mp (hother.symm.trans howner)
  have hstate : (handleStylus s buttons device).owner = some device ∧
      (handleStylus s buttons device).buttonsPrev = buttons.setWidth 32 ∧
      (handleStylus s buttons device).message = some (device, buttons) ∧
      (handleStylus s buttons device).present = s.present := by
    rw [handleStylus, if_pos hpresent]
    refine ⟨rfl, rfl, rfl, ?_⟩
    funext d
    cases d <;> rfl
  obtain ⟨howner, hprev, hmessage, hsame⟩ := hstate
  refine ⟨⟨fun other button => ?_, fun other hother => ?_⟩, ⟨fun other button => ?_,
    fun other mask hmask _ button => ?_, fun other hmask => ?_⟩⟩
  · rw [howner, hprev, maskHolds_setWidth]
    by_cases hne : other = device
    · rw [hne, haddressed, decide_eq_true rfl, Bool.true_and]
    · rw [hothers other hne, decide_eq_false (fun heq => hne (Option.some_inj.mp heq).symm),
        Bool.false_and]
  · rw [howner] at hother
    rw [hsame, ← Option.some_inj.mp hother]
    exact hpresent
  · by_cases hne : other = device
    · rw [hne, haddressed]
      rfl
    · rw [hothers other hne]
      rfl
  · rw [hmessage] at hmask
    obtain ⟨rfl, rfl⟩ := Prod.mk.inj (Option.some_inj.mp hmask)
    exact haddressed button
  · rw [hmessage] at hmask
    obtain ⟨rfl, -⟩ := Prod.mk.inj (Option.some_inj.mp hmask)
    exact hothers

/-- If a button is down and another device is addressed, something is wrong. -/
theorem Owned.found_of_consistent {s : State} (h : Owned s) {buttons : BitVec 8} {device : Device}
    (hpresent : s.present device = true) (hafter : Consistent (handleStylus s buttons device)) :
    NoButtons s ∨ s.owner = some device := by
  by_contra hnot
  obtain ⟨hbuttons, howner⟩ := not_or.mp hnot
  obtain ⟨button, hdown⟩ := not_forall.mp hbuttons
  have hdown : maskHolds s.buttonsPrev button = true := by simpa using hdown
  have hqueued := held_handleStylus s buttons hpresent button
  have hmessage : (handleStylus s buttons device).message = some (device, buttons) := by
    rw [handleStylus, if_pos hpresent]
  have hthere : (handleStylus s buttons device).present device = true := by
    rw [handleStylus, if_pos hpresent]
    cases device <;> exact hpresent
  have hmask := hafter.mask device buttons hmessage hthere button
  rw [hqueued, hdown, h.held_of_ne howner] at hmask
  -- the new device got no press of the button, or a release without one
  cases hbit : maskHolds buttons button
  · rw [hbit] at hmask
    exact absurd hmask (by simp)
  · rw [hbit] at hmask
    exact absurd hmask (by simp)

/-- A message for a device that is not there. -/
theorem Owned.dropped {s : State} (h : Owned s) (buttons : BitVec 8) {device : Device}
    (habsent : s.present device = false) :
    Owned (handleStylus s buttons device) ∧ (Consistent (handleStylus s buttons device) ↔
      (buttons = 0 → NoButtons s ∨ s.owner = none)) := by
  have hstate : handleStylus s buttons device = { s with message := some (device, buttons) } := by
    rw [handleStylus, if_neg (by simp [habsent])]
  rw [hstate]
  -- nothing is queued, so the owner's buttons stay down after a message without any
  refine ⟨⟨h.held, fun d hd => ?_⟩, fun hafter hzero => ?_, fun hok => ⟨fun d button => ?_,
    fun d mask hmask hd => ?_, fun d hmask other _ button => ?_⟩⟩
  · cases d <;> exact h.present _ hd
  · subst hzero
    cases howner : s.owner with
    | none => exact Or.inr rfl
    | some d =>
      refine Or.inl fun button => ?_
      have hne : d ≠ device := by
        rintro rfl
        rw [h.present d howner] at habsent
        cases habsent
      have hfree := hafter.released device rfl d hne button
      rw [show Presses.held button (s.queued d) = some (decide (s.owner = some d) &&
        maskHolds s.buttonsPrev button) from h.held d button, decide_eq_true howner,
        Bool.true_and] at hfree
      exact Option.some_inj.mp hfree
  · show (Presses.held button (s.queued d)).isSome
    rw [h.held]
    rfl
  · obtain ⟨rfl, -⟩ := Prod.mk.inj (Option.some_inj.mp hmask)
    have hthere : s.present device = true := by
      rw [← hd]
      cases device <;> rfl
    rw [habsent] at hthere
    cases hthere
  · obtain ⟨-, rfl⟩ := Prod.mk.inj (Option.some_inj.mp hmask)
    rcases hok rfl with hno | hnone
    · exact h.held_of_noButtons hno other button
    · exact h.held_of_ne (by rw [hnone]; exact fun hother => nomatch hother) button

/-- A device that is removed takes its buttons with it. -/
theorem Owned.held_removeDevice {s : State} (h : Owned s) (removed device : Device) (button : ℕ) :
    Presses.held button ((removeDevice s removed).queued device) =
      some (decide ((removeDevice s removed).owner = some device) &&
        maskHolds s.buttonsPrev button) := by
  have hqueued : (removeDevice s removed).queued device =
      if device = removed then [] else s.queued device := by
    rw [removeDevice]
    exact Function.update_apply _ _ _ _
  have howner : (removeDevice s removed).owner =
      if s.owner = some removed then none else s.owner := rfl
  rw [hqueued, howner]
  by_cases hd : device = removed
  · rw [if_pos hd, held_nil, hd]
    split
    next => rfl
    next hne => rw [decide_eq_false hne, Bool.false_and]
  · rw [if_neg hd, h.held]
    split
    next heq =>
      have hne : ¬ s.owner = some device := by
        rw [heq]
        exact fun hremoved => hd (Option.some_inj.mp hremoved).symm
      rw [decide_eq_false hne]
      rfl
    next => rfl

theorem owner_removeDevice_ne (s : State) (removed : Device) :
    (removeDevice s removed).owner ≠ some removed := by
  show (if s.owner = some removed then none else s.owner) ≠ some removed
  split
  next => exact fun h => nomatch h
  next hne => exact hne

theorem owner_of_removeDevice {s : State} {removed device : Device}
    (h : (removeDevice s removed).owner = some device) : s.owner = some device := by
  have howner : (if s.owner = some removed then none else s.owner) = some device := h
  split at howner
  next => cases howner
  next => exact howner

theorem Owned.removePen {s : State} (h : Owned s) :
    Owned { removeDevice s .pen with loriePen := false } where
  held := h.held_removeDevice .pen
  present device hd := by
    have hpresent := h.present device (owner_of_removeDevice hd)
    cases device with
    | mouse => rfl
    | pen => exact absurd hd (owner_removeDevice_ne s .pen)
    | eraser => exact hpresent

theorem Owned.removeEraser {s : State} (h : Owned s) :
    Owned { removeDevice s .eraser with lorieEraser := false } where
  held := h.held_removeDevice .eraser
  present device hd := by
    have hpresent := h.present device (owner_of_removeDevice hd)
    cases device with
    | mouse => rfl
    | pen => exact hpresent
    | eraser => exact absurd hd (owner_removeDevice_ne s .eraser)

theorem Owned.setStylusEnabled {s : State} (h : Owned s) (enabled : Bool) :
    Owned (setStylusEnabled s enabled) := by
  rw [Stylus.setStylusEnabled]
  cases enabled with
  | true =>
    refine ⟨h.held, fun device hd => ?_⟩
    cases device <;> rfl
  | false =>
    have hpen : Owned (if s.loriePen then { removeDevice s .pen with loriePen := false }
        else s) := by
      split
      · exact h.removePen
      · exact h
    have heraser (t : State) (ht : Owned t) :
        Owned (if t.lorieEraser then { removeDevice t .eraser with lorieEraser := false }
          else t) := by
      split
      · exact ht.removeEraser
      · exact ht
    exact heraser _ hpen

/-- Switching stylus support on or off keeps everything in order. -/
theorem Owned.enabled {s : State} (h : Owned s) (enabled : Bool) :
    Owned { Stylus.setStylusEnabled s enabled with message := none } ∧
      Consistent { Stylus.setStylusEnabled s enabled with message := none } := by
  have hnext := h.setStylusEnabled enabled
  refine ⟨⟨hnext.held, fun device hd => ?_⟩, fun device button => ?_,
    (fun _ _ hmask => nomatch hmask), (fun _ hmask => nomatch hmask)⟩
  · cases device <;> exact hnext.present _ hd
  · rw [hnext.held]
    rfl

/-- A step keeps the buttons with one device and leaves everything consistent exactly if
it meets the condition. -/
theorem owned_step {s s' : State} {a : Act} (h : Owned s) (hstep : step s a = some s') :
    (Undivided s a ↔ Consistent s') ∧ (Undivided s a → Owned s') := by
  cases a with
  | stylus buttons eraser mouse =>
    obtain rfl := Option.some_inj.mp hstep
    rw [Undivided]
    cases hpresent : s.present (addressed eraser mouse) with
    | true =>
      simp only [if_true]
      exact ⟨⟨fun hok => (h.found buttons hpresent hok).2, h.found_of_consistent hpresent⟩,
        fun hok => (h.found buttons hpresent hok).1⟩
    | false =>
      simp only [Bool.false_eq_true, if_false]
      obtain ⟨howned, hiff⟩ := h.dropped buttons hpresent
      exact ⟨hiff.symm, fun _ => howned⟩
  | stylusEnable enable =>
    obtain rfl := Option.some_inj.mp hstep
    obtain ⟨howned, hconsistent⟩ := h.enabled enable
    exact ⟨iff_of_true trivial hconsistent, fun _ => howned⟩

theorem consistent_initial : Consistent {} where
  alternate _ _ := rfl
  mask _ _ h := nomatch h
  released _ h := nomatch h

/-- Every message is handled. -/
theorem step_isSome (s : State) (a : Act) : ∃ s', step s a = some s' := by
  cases a with
  | stylus buttons eraser mouse => exact ⟨_, rfl⟩
  | stylusEnable enable => exact ⟨_, rfl⟩

/-- The buttons of all three devices stay in order through a run exactly if it never
addresses another device while a button is down. -/
theorem consistent_iff (as : List Act) :
    Always step Consistent {} as ↔ Meets step Undivided {} as := by
  obtain ⟨t, hrun⟩ := run_of_total step_isSome {} as
  refine always_iff_meets (I := fun s => Owned s ∧ Consistent s) (fun _ h => h.2)
    (fun _ _ _ h hstep => (owned_step h.1 hstep).1) (fun s a s' h hok hstep => ?_)
    ⟨owned_initial, consistent_initial⟩ hrun
  obtain ⟨hiff, howned⟩ := owned_step h.1 hstep
  exact ⟨howned hok, hiff.mp hok⟩

/-! ### From the pen to the mouse with a button down -/

/-- The pen presses its first button, then the mouse reports the same mask. -/
def penThenMouse : List Act :=
  [.stylusEnable true, .stylus 1 false false, .stylus 1 false true]

/-- Nothing is pressed on the mouse, and the pen keeps its button. -/
theorem penThenMouse_not_consistent : ¬ Always step Consistent {} penThenMouse := by
  intro hall
  have hlast := ((hall.of_step rfl).of_step rfl).of_step rfl
  have hmask := hlast.head.mask .mouse 1 rfl rfl 1
  exact absurd hmask (by decide)

end Lorie.Stylus
