/-
The types of the touch layer (`InputModel.kt`, `Geometry.kt`).

Coordinates are `Float` in the source.  Nothing is assumed about them: they are
any type with the operations of `FloatOps`, so that what holds of the handlers
holds for every rounding and every special value.  Rationals are one instance,
to run the handlers on, and single precision is another.

* `TouchEvent`, `Viewport`, `TouchpadConfig` — what the handlers read;
* `SinkEvent` — what they send;
* `Viewport.toFramebuffer` — from a view coordinate to a framebuffer pixel.
-/
import Mathlib.Algebra.Order.Floor.Ring
import Mathlib.Data.Int.Notation
import Mathlib.Data.Rat.Floor

namespace Touchpad

/-- The operations the handlers use on `Float`. -/
class FloatOps (F : Type*) extends Add F, Sub F, Mul F, Div F, Neg F where
  lt : F → F → Bool
  le : F → F → Bool
  abs : F → F
  sqrt : F → F
  ofInt : ℤ → F
  /-- `toInt`, towards zero -/
  toInt : F → ℤ

/-- Exact numbers, with the root rounded down to a whole one. -/
instance : FloatOps ℚ where
  lt a b := decide (a < b)
  le a b := decide (a ≤ b)
  abs a := if a < 0 then -a else a
  sqrt a := (Nat.sqrt ⌊a⌋.toNat : ℕ)
  ofInt n := n
  toInt a := a.num.tdiv a.den

/-- Single precision; `toInt` goes to the ends of the range outside it. -/
instance : FloatOps Float32 where
  lt := Float32.lt
  le := Float32.le
  abs := Float32.abs
  sqrt := Float32.sqrt
  ofInt := Float32.ofInt
  toInt a :=
    if Float32.lt a 0 then -min (-a).toUInt32.toNat (2 ^ 31)
    else min a.toUInt32.toNat (2 ^ 31 - 1)

/-! ### What the handlers read -/

/-- `MouseButton.LEFT` and its neighbours, X button numbers. -/
def left : ℕ := 1
def right : ℕ := 3
def wheelUp : ℕ := 4
def wheelDown : ℕ := 5

inductive TouchAction
  | down
  | move
  | up
  | cancel
  | pointerDown
  | pointerUp
  | other
  deriving DecidableEq, Repr

/-- The action that ends a gesture. -/
def TouchAction.ends (a : TouchAction) : Bool := a == .up || a == .cancel

structure TouchEvent (F : Type*) where
  action : TouchAction
  pointerCount : ℕ
  x : F
  y : F
  x1 : F
  y1 : F
  timeMs : ℤ

structure Viewport where
  viewportX : ℤ
  viewportY : ℤ
  viewportWidth : ℤ
  viewportHeight : ℤ
  framebufferWidth : ℤ
  framebufferHeight : ℤ
  deriving DecidableEq, Repr

inductive HoldAction
  | tapTapHold
  | grabDrag
  | rightClick
  deriving DecidableEq, Repr

structure TouchpadConfig (F : Type*) where
  holdAction : HoldAction
  tapSlopPx : F
  scrollNotchPx : F
  doubleTapTimeoutMs : ℤ
  doubleTapSlopPx : ℤ

/-! ### What the handlers send -/

/-- A call of `InputActionListener`. -/
inductive SinkEvent
  /-- motion, and a press or release of the button where `pressed` is not null -/
  | sendPointer (x y : ℤ) (button : ℕ) (pressed : Option Bool)
  | sendButton (button : ℕ) (pressed : Bool)
  | updateCursor (x y : ℤ)
  deriving DecidableEq, Repr

/-! ### Geometry -/

/-- `coerceIn`; `none` for the exception it throws on an empty range. -/
def coerceIn (n lo hi : ℤ) : Option ℤ :=
  if hi < lo then none else some (if n < lo then lo else if hi < n then hi else n)

variable {F : Type*} [FloatOps F]

/-- Where `Viewport.toFramebuffer` is not null: the point as a fraction of the
rendered image. -/
def Viewport.fraction (v : Viewport) (viewX viewY : F) : Option (F × F) :=
  if v.viewportWidth ≤ 0 ∨ v.viewportHeight ≤ 0 then none
  else
    let fx := (viewX - FloatOps.ofInt v.viewportX) / FloatOps.ofInt v.viewportWidth
    let fy := (viewY - FloatOps.ofInt v.viewportY) / FloatOps.ofInt v.viewportHeight
    let zero : F := FloatOps.ofInt 0
    let one : F := FloatOps.ofInt 1
    if FloatOps.lt fx zero || FloatOps.lt one fx || FloatOps.lt fy zero || FloatOps.lt one fy then
      none
    else some (fx, fy)

/-- `Viewport.toFramebuffer`; the outer `none` is an exception, the inner one null. -/
def Viewport.toFramebuffer (v : Viewport) (viewX viewY : F) : Option (Option (ℤ × ℤ)) :=
  match v.fraction viewX viewY with
  | none => some none
  | some (fx, fy) =>
    (coerceIn (FloatOps.toInt (fx * FloatOps.ofInt v.framebufferWidth)) 0
      (v.framebufferWidth - 1)).bind fun x =>
    (coerceIn (FloatOps.toInt (fy * FloatOps.ofInt v.framebufferHeight)) 0
      (v.framebufferHeight - 1)).map fun y => some (x, y)

/-- The point lies inside the rendered image. -/
def Viewport.inside (v : Viewport) (viewX viewY : F) : Bool := (v.fraction viewX viewY).isSome

/-- Whether `toFramebuffer` is null is decided by the point's place alone. -/
theorem Viewport.toFramebuffer_isSome {v : Viewport} {viewX viewY : F} {p : Option (ℤ × ℤ)}
    (h : v.toFramebuffer viewX viewY = some p) : p.isSome = v.inside viewX viewY := by
  rw [Viewport.toFramebuffer] at h
  rw [Viewport.inside]
  rcases hf : v.fraction viewX viewY with _ | ⟨fx, fy⟩
  · simp only [hf, Option.some_inj] at h
    rw [← h]
    rfl
  · simp only [hf] at h
    obtain ⟨x, -, h⟩ := Option.bind_eq_some_iff.mp h
    obtain ⟨y, -, rfl⟩ := Option.map_eq_some_iff.mp h
    rfl

end Touchpad
