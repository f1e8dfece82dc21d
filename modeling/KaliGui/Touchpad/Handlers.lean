/-
The touch handlers (`TouchpadInputInterceptor.kt`, `MouseGestureHandler.kt`,
`DirectGestureHandler.kt`, `ScrollGestureHandler.kt`).

One state is shared by the three handlers; timers are the tokens armed in the
scheduler, with what their actions captured.  `none` is an exception thrown by a
handler, or a loop that takes more than the given number of turns.

* `onTouch` — one touch sample;
* `fireLongPress`, `fireTwoFingerHold` — the two timers;
* `step` — touch streams, timers, mode switches and cursor placements.
-/
import KaliGui.Lib.Run
import KaliGui.Lib.Loops
import KaliGui.Touchpad.InputModel

namespace Touchpad

/-- `TouchpadPointerState`, with the handlers' own fields, the armed timers and
what was sent. -/
structure State (F : Type*) where
  mouseMode : Bool
  cursorX : ℤ
  cursorY : ℤ
  downX : F
  downY : F
  downTime : ℤ
  dragged : Bool
  slopAnchorX : F
  slopAnchorY : F
  grabbing : Bool
  recentTapCount : ℕ
  lastTapUpTime : ℤ
  lastTapX : F
  lastTapY : F
  rightClicked : Bool
  scrolling : Bool
  scrollLastY : F
  scrollAccum : F
  scrollAnchorY : F
  twoFingerRightClicked : Bool
  directPressed : Bool
  /-- `ScrollGestureHandler.holdPending` -/
  holdPending : Bool
  /-- the long-press timer, armed with `cfg.holdAction` -/
  longPress : Option HoldAction
  /-- the two-finger hold timer is armed -/
  twoFingerHold : Bool
  /-- a gesture is under way: its `DOWN` was delivered, its end was not -/
  touching : Bool
  /-- the calls of the sink, the newest first -/
  log : List SinkEvent

variable {F : Type*} [FloatOps F]

/-- A call of the sink. -/
def State.emit (s : State F) (e : SinkEvent) : State F := { s with log := e :: s.log }

/-- `TouchpadPointerState.releaseGrab`. -/
def releaseGrab (s : State F) : State F :=
  if s.grabbing then { s.emit (.sendButton left false) with grabbing := false } else s

/-- `MouseGestureHandler.cancelLongPress`. -/
def cancelLongPress (s : State F) : State F := { s with longPress := none }

/-! ### DirectGestureHandler -/

/-- `DirectGestureHandler.handle`. -/
def directHandle (v : Viewport) (e : TouchEvent F) (s : State F) : Option (State F) :=
  (v.toFramebuffer e.x e.y).map fun fb =>
    match fb with
    | none => s
    | some (x, y) =>
      let s := s.emit (.updateCursor x y)
      match e.action with
      | .down => { s.emit (.sendPointer x y left (some true)) with directPressed := true }
      | .move => s.emit (.sendPointer x y left none)
      | .up | .cancel =>
        { s.emit (.sendPointer x y left (some false)) with directPressed := false }
      | _ => s

/-! ### MouseGestureHandler -/

/-- The handler acts: neither of the two widths it tests is missing. -/
def Viewport.laidOut (v : Viewport) : Bool :=
  !(decide (v.viewportWidth ≤ 0) || decide (v.framebufferWidth ≤ 0))

def distance (x1 y1 x2 y2 : F) : F :=
  let dx := x1 - x2
  let dy := y1 - y2
  FloatOps.sqrt (dx * dx + dy * dy)

/-- `MouseGestureHandler.scheduleLongPress`. -/
def scheduleLongPress (cfg : TouchpadConfig F) (s : State F) : State F :=
  { cancelLongPress s with longPress := some cfg.holdAction }

/-- Whether the second of two touches is near the first in time and place. -/
def closeToLastTap (cfg : TouchpadConfig F) (e : TouchEvent F) (s : State F) : Bool :=
  decide (0 < s.recentTapCount) && decide (e.timeMs - s.lastTapUpTime ≤ cfg.doubleTapTimeoutMs) &&
    FloatOps.le (distance e.x e.y s.lastTapX s.lastTapY) (FloatOps.ofInt cfg.doubleTapSlopPx)

/-- How the `DOWN` branch ends: it grabs at once or arms the long press. -/
def grabOrSchedule (cfg : TouchpadConfig F) (s : State F) : State F :=
  match cfg.holdAction with
  | .tapTapHold =>
    if 1 ≤ s.recentTapCount then
      let s := { s with grabbing := true }
      let s := s.emit (.sendPointer s.cursorX s.cursorY left none)
      s.emit (.sendButton left true)
    else scheduleLongPress cfg s
  | .grabDrag | .rightClick => scheduleLongPress cfg s

/-- The `DOWN` branch of `MouseGestureHandler.handle`. -/
def mouseDown (cfg : TouchpadConfig F) (e : TouchEvent F) (s : State F) : State F :=
  let s := { s with
    downX := e.x, downY := e.y, slopAnchorX := e.x, slopAnchorY := e.y, downTime := e.timeMs,
    dragged := false, grabbing := false, rightClicked := false }
  grabOrSchedule cfg (if closeToLastTap cfg e s then s else { s with recentTapCount := 0 })

/-- `MouseGestureHandler.movePointer`. -/
def movePointer (v : Viewport) (e : TouchEvent F) (s : State F) : Option (State F) :=
  let dx := (e.x - s.downX) / FloatOps.ofInt v.viewportWidth * FloatOps.ofInt v.framebufferWidth
  let dy := (e.y - s.downY) / FloatOps.ofInt v.viewportHeight * FloatOps.ofInt v.framebufferHeight
  (coerceIn (FloatOps.toInt (FloatOps.ofInt s.cursorX + dx)) 0 (v.framebufferWidth - 1)).bind
    fun nx =>
  (coerceIn (FloatOps.toInt (FloatOps.ofInt s.cursorY + dy)) 0 (v.framebufferHeight - 1)).map
    fun ny =>
  if nx ≠ s.cursorX ∨ ny ≠ s.cursorY then
    let s := { s with cursorX := nx, cursorY := ny }
    (s.emit (.updateCursor nx ny)).emit (.sendPointer nx ny left none)
  else s

/-- The `MOVE` branch of `MouseGestureHandler.handle`. -/
def mouseMove (v : Viewport) (cfg : TouchpadConfig F) (e : TouchEvent F) (s : State F) :
    Option (State F) :=
  let slopX := e.x - s.slopAnchorX
  let slopY := e.y - s.slopAnchorY
  let s :=
    if !s.dragged &&
        FloatOps.lt (cfg.tapSlopPx * cfg.tapSlopPx) (slopX * slopX + slopY * slopY) then
      { cancelLongPress { s with dragged := true } with recentTapCount := 0 }
    else s
  (movePointer v e s).map fun s => { s with downX := e.x, downY := e.y }

/-- What the `UP` branch sends: the end of a grab, or the click of a tap. -/
def releaseOrClick (e : TouchEvent F) (s : State F) : State F :=
  if s.grabbing then
    { s.emit (.sendButton left false) with grabbing := false, recentTapCount := 0 }
  else if s.rightClicked then s
  else if !s.dragged then
    let s := s.emit (.updateCursor s.cursorX s.cursorY)
    let s := s.emit (.sendPointer s.cursorX s.cursorY left none)
    let s := s.emit (.sendPointer s.cursorX s.cursorY left (some true))
    let s := s.emit (.sendPointer s.cursorX s.cursorY left (some false))
    { s with recentTapCount := 1, lastTapUpTime := e.timeMs, lastTapX := e.x, lastTapY := e.y }
  else s

/-- The `UP` branch of `MouseGestureHandler.handle`. -/
def mouseUp (e : TouchEvent F) (s : State F) : State F :=
  { releaseOrClick e (cancelLongPress s) with dragged := false }

/-- `MouseGestureHandler.handle`. -/
def mouseHandle (v : Viewport) (cfg : TouchpadConfig F) (e : TouchEvent F) (s : State F) :
    Option (State F) :=
  if !v.laidOut then some s
  else
    match e.action with
    | .down => some (mouseDown cfg e s)
    | .move => mouseMove v cfg e s
    | .up => some (mouseUp e s)
    | .cancel => some { releaseGrab (cancelLongPress s) with dragged := false, recentTapCount := 0 }
    | _ => some s

/-- The action `scheduleLongPress` posts. -/
def fireLongPress (holdAction : HoldAction) (s : State F) : State F :=
  if !s.dragged && !s.grabbing && !s.rightClicked then
    let s := s.emit (.sendPointer s.cursorX s.cursorY left none)
    if holdAction = .grabDrag then { s with grabbing := true }.emit (.sendButton left true)
    else
      let s := { s with rightClicked := true }
      (s.emit (.sendButton right true)).emit (.sendButton right false)
  else s

/-! ### ScrollGestureHandler -/

/-- `ScrollGestureHandler.cancelHold`. -/
def cancelHold (s : State F) : State F :=
  if s.holdPending then { s with twoFingerHold := false, holdPending := false } else s

/-- `ScrollGestureHandler.scheduleHold`. -/
def scheduleHold (s : State F) : State F :=
  { cancelHold s with holdPending := true, twoFingerHold := true }

/-- `ScrollGestureHandler.wheel`. -/
def wheel (up : Bool) (s : State F) : State F :=
  let button := if up then wheelUp else wheelDown
  (s.emit (.sendButton button true)).emit (.sendButton button false)

/-- `while (scrollAccum <= -notch)`, for at most `fuel` turns. -/
def scrollDown (notch : F) : ℕ → State F → Option (State F)
  | fuel, s =>
    if FloatOps.le s.scrollAccum (-notch) then
      match fuel with
      | 0 => none
      | fuel + 1 => scrollDown notch fuel
          (wheel false { s with scrollAccum := s.scrollAccum + notch })
    else some s

/-- `while (scrollAccum >= notch)`, for at most `fuel` turns. -/
def scrollUp (notch : F) : ℕ → State F → Option (State F)
  | fuel, s =>
    if FloatOps.le notch s.scrollAccum then
      match fuel with
      | 0 => none
      | fuel + 1 => scrollUp notch fuel
          (wheel true { s with scrollAccum := s.scrollAccum - notch })
    else some s

theorem scrollDown_isWhile (notch : F) :
    Loops.IsWhile (scrollDown notch) (fun s => FloatOps.le s.scrollAccum (-notch))
      (fun s => wheel false { s with scrollAccum := s.scrollAccum + notch }) where
  stops s fuel h := by
    cases fuel <;> rw [scrollDown, if_neg (Bool.eq_false_iff.mp h)]
  runsOut s h := by rw [scrollDown, if_pos h]
  turns s fuel h := by rw [scrollDown, if_pos h]

theorem scrollUp_isWhile (notch : F) :
    Loops.IsWhile (scrollUp notch) (fun s => FloatOps.le notch s.scrollAccum)
      (fun s => wheel true { s with scrollAccum := s.scrollAccum - notch }) where
  stops s fuel h := by
    cases fuel <;> rw [scrollUp, if_neg (Bool.eq_false_iff.mp h)]
  runsOut s h := by rw [scrollUp, if_pos h]
  turns s fuel h := by rw [scrollUp, if_pos h]

/-- The wheel notches of a `MOVE` of two fingers. -/
def scrollBy (cfg : TouchpadConfig F) (fuel : ℕ) (y : F) (s : State F) : Option (State F) :=
  if s.twoFingerRightClicked then some s
  else
    let dy := y - s.scrollLastY
    let s := { s with scrollLastY := y, scrollAccum := s.scrollAccum + dy }
    (scrollDown cfg.scrollNotchPx fuel s).bind (scrollUp cfg.scrollNotchPx fuel)

/-- The `MOVE` branch of `ScrollGestureHandler.handle`. -/
def scrollMove (cfg : TouchpadConfig F) (fuel : ℕ) (y : F) (s : State F) : Option (State F) :=
  if !s.scrolling then
    some { s with scrolling := true, scrollLastY := y, scrollAnchorY := y }
  else
    scrollBy cfg fuel y
      (if s.holdPending && FloatOps.lt cfg.tapSlopPx (FloatOps.abs (y - s.scrollAnchorY)) then
        cancelHold s
      else s)

/-- `ScrollGestureHandler.handle`. -/
def scrollHandle (cfg : TouchpadConfig F) (fuel : ℕ) (e : TouchEvent F) (s : State F) :
    Option (State F) :=
  let y := (e.y + e.y1) / FloatOps.ofInt 2
  match e.action with
  | .pointerDown =>
    let s := { s with
      scrolling := true, scrollAccum := FloatOps.ofInt 0, scrollLastY := y, scrollAnchorY := y,
      twoFingerRightClicked := false }
    some (if s.mouseMode then scheduleHold s else s)
  | .move => scrollMove cfg fuel y s
  | .pointerUp | .up | .cancel =>
    some { cancelHold s with scrolling := false, scrollAccum := FloatOps.ofInt 0 }
  | _ => some s

/-- The action `scheduleHold` posts. -/
def fireTwoFingerHold (s : State F) : State F :=
  let s := { s with holdPending := false, twoFingerRightClicked := true }
  let s := s.emit (.sendPointer s.cursorX s.cursorY left none)
  (s.emit (.sendButton right true)).emit (.sendButton right false)

/-! ### TouchpadInputInterceptor -/

/-- What `onTouch` does before it lets two fingers scroll. -/
def dropPress (s : State F) : State F :=
  let s := { releaseGrab (cancelLongPress s) with recentTapCount := 0 }
  if s.directPressed then { s.emit (.sendButton left false) with directPressed := false } else s

/-- `TouchpadInputInterceptor.onTouch`. -/
def onTouch (v : Viewport) (cfg : TouchpadConfig F) (fuel : ℕ) (e : TouchEvent F) (s : State F) :
    Option (State F) :=
  if 2 ≤ e.pointerCount then scrollHandle cfg fuel e (dropPress s)
  else if s.scrolling then
    some (if e.action.ends then { s with scrolling := false, scrollAccum := FloatOps.ofInt 0 }
      else s)
  else if s.mouseMode then mouseHandle v cfg e s
  else directHandle v e s

/-- `TouchpadInputInterceptor.setCursor`. -/
def setCursor (x y : ℤ) (s : State F) : State F :=
  { s with cursorX := x, cursorY := y }.emit (.updateCursor x y)

/-! ### Runs -/

inductive Action (F : Type*)
  /-- a touch sample, with the viewport and the settings of the moment -/
  | touch (e : TouchEvent F) (v : Viewport) (cfg : TouchpadConfig F) (fuel : ℕ)
  /-- the armed long-press timer fires -/
  | longPress
  /-- the armed two-finger hold timer fires -/
  | twoFingerHold
  /-- `mouseMode` is set -/
  | setMode (mouseMode : Bool)
  | setCursor (x y : ℤ)

/-- One step.  Touch samples come in well-formed streams: a gesture starts with
`DOWN` and ends with `UP` or `CANCEL`. -/
def step (s : State F) : Action F → Option (State F)
  | .touch e v cfg fuel =>
    if s.touching = (e.action != .down) then
      (onTouch v cfg fuel e s).map fun s => { s with touching := !e.action.ends }
    else none
  | .longPress => s.longPress.map fun h => fireLongPress h { s with longPress := none }
  | .twoFingerHold =>
    if s.twoFingerHold then some (fireTwoFingerHold { s with twoFingerHold := false }) else none
  | .setMode m => some { s with mouseMode := m }
  | .setCursor x y => some (setCursor x y s)

/-- The layer as it is created. -/
def initial (mouseMode : Bool) : State F where
  mouseMode := mouseMode
  cursorX := 0
  cursorY := 0
  downX := FloatOps.ofInt 0
  downY := FloatOps.ofInt 0
  downTime := 0
  dragged := false
  slopAnchorX := FloatOps.ofInt 0
  slopAnchorY := FloatOps.ofInt 0
  grabbing := false
  recentTapCount := 0
  lastTapUpTime := 0
  lastTapX := FloatOps.ofInt 0
  lastTapY := FloatOps.ofInt 0
  rightClicked := false
  scrolling := false
  scrollLastY := FloatOps.ofInt 0
  scrollAccum := FloatOps.ofInt 0
  scrollAnchorY := FloatOps.ofInt 0
  twoFingerRightClicked := false
  directPressed := false
  holdPending := false
  longPress := none
  twoFingerHold := false
  touching := false
  log := []

end Touchpad
