/-
The image of the cursor in the shared state (`lorieConvertCursor`, `lorieSetCursor` in
`InitOutput.c`).

The server writes the size, the hot spot and the pixels of a cursor for the renderer, which
uploads as many words of `bits` as the size says.  A cursor that is too big is exchanged
for the root cursor, after its `bits` were taken.

* `CursorRec.pixel` — what a pixel of a cursor is;
* `lorieConvertCursor_apply` — the words that a conversion writes;
* `lorieSetCursor_consistent_iff` — when size, hot spot and pixels are of one cursor.
-/
import KaliGui.Lib.Scan
import Mathlib.Data.Int.Notation

namespace Lorie.CursorImage

/-! ### Cursors -/

/-- `BitmapBytePad`: rows of a bitmap are padded to 32 bits. -/
def bitmapBytePad (width : ℕ) : ℕ := (width + 31) / 32 * 4

/-- `CursorBits`, with arrays as long as the size says. -/
structure CursorBits where
  source : Array UInt8
  mask : Array UInt8
  width : UInt16
  height : UInt16
  xhot : UInt16
  yhot : UInt16
  argb : Option (Array UInt32)
  source_size : source.size = height.toNat * bitmapBytePad width.toNat
  mask_size : mask.size = height.toNat * bitmapBytePad width.toNat
  argb_size : ∀ a ∈ argb, a.size = width.toNat * height.toNat

/-- `CursorRec` -/
structure CursorRec where
  bits : CursorBits
  foreRed : UInt16
  foreGreen : UInt16
  foreBlue : UInt16
  backRed : UInt16
  backGreen : UInt16
  backBlue : UInt16

/-- BGRA to RGBA. -/
def bgraToRgba (p : UInt32) : UInt32 :=
  (p &&& (0xFF000000 : UInt32)) ||| ((p &&& (0x00FF0000 : UInt32)) >>> (16 : UInt32)) |||
    (p &&& (0x0000FF00 : UInt32)) ||| ((p &&& (0x000000FF : UInt32)) <<< (16 : UInt32))

/-- A colour in RGB, of which the upper bytes count. -/
def colour (red green blue : UInt16) : UInt32 :=
  ((blue.toUInt32 &&& (0xff00 : UInt32)) <<< (8 : UInt32)) |||
    (green.toUInt32 &&& (0xff00 : UInt32)) ||| (red.toUInt32 >>> (8 : UInt32))

/-- The byte of a bitmap with the bit of column `x` in row `y`. -/
def bitmapIndex (width y x : ℕ) : ℕ := y * bitmapBytePad width + x / 8

/-- That bit; the lowest comes first. -/
def bitmapBit (data : Array UInt8) (width y x : ℕ) : Bool :=
  data.getD (bitmapIndex width y x) 0 &&& 1 <<< (x % 8).toUInt8 ≠ 0

/-- The pixel of a bitmap cursor. -/
def CursorRec.bitmapPixel (c : CursorRec) (y x : ℕ) : UInt32 :=
  let fg := colour c.foreRed c.foreGreen c.foreBlue
  let bg := colour c.backRed c.backGreen c.backBlue
  let d := if bitmapBit c.bits.source c.bits.width.toNat y x then fg else bg
  if bitmapBit c.bits.mask c.bits.width.toNat y x then d ||| 0xff000000 else 0

/-- `lorieConvertCursor`, on the words from `bits` on. -/
def lorieConvertCursor (c : CursorRec) (data : ℕ → UInt32) : ℕ → UInt32 :=
  match c.bits.argb with
  | some argb =>
    Scan.fill (fun i => bgraToRgba (argb.getD i 0)) (c.bits.width.toNat * c.bits.height.toNat) data
  | none => (Scan.rows c.bitmapPixel c.bits.height.toNat c.bits.width.toNat (data, 0)).1

/-! ### The shared state -/

/-- `cursor` of the shared state; `bits` goes on with what lies behind its 512 × 512 words. -/
structure SharedCursor where
  x : UInt32
  y : UInt32
  xhot : UInt32
  yhot : UInt32
  width : UInt32
  height : UInt32
  bits : ℕ → UInt32
  updated : Bool
  moved : Bool
  visible : Bool

/-- `lorieMoveCursor`; `fromMouse` is `lorieCursorFromMouse` of the device. -/
def lorieMoveCursor (fromMouse : Bool) (x y : Int32) (s : SharedCursor) : SharedCursor :=
  if fromMouse then { s with x := x.toUInt32, y := y.toUInt32, moved := true } else s

/-- Too big for `cursor.bits`, as `lorieSetCursor` takes it. -/
def CursorRec.Big (c : CursorRec) : Prop := 512 ≤ c.bits.width.toNat ∨ 512 ≤ c.bits.height.toNat

instance (c : CursorRec) : Decidable c.Big := inferInstanceAs (Decidable (_ ∨ _))

/-- The cursor that is shown: the root cursor for one that is too big. -/
def shown (rootCursor pCurs : Option CursorRec) : Option CursorRec :=
  pCurs.bind fun c => if c.Big then rootCursor else some c

/-- `lorieSetCursor` -/
def lorieSetCursor (fromMouse : Bool) (rootCursor pCurs : Option CursorRec) (x0 y0 : Int32)
    (s : SharedCursor) : SharedCursor :=
  -- taken before the cursor is exchanged
  let bits := pCurs.map CursorRec.bits
  if ¬ fromMouse then s
  else
    let s := match shown rootCursor pCurs, bits with
      | some c, some bits =>
        { s with
          xhot := bits.xhot.toUInt32, yhot := bits.yhot.toUInt32
          width := bits.width.toUInt32, height := bits.height.toUInt32
          bits := lorieConvertCursor c s.bits }
      | _, _ => { s with xhot := 0, yhot := 0, width := 0, height := 0 }
    lorieMoveCursor true x0 y0 { s with updated := true }

/-! ### Conversion -/

/-- The pixels of a cursor, in row order. -/
def CursorRec.pixel (c : CursorRec) (k : ℕ) : UInt32 :=
  match c.bits.argb with
  | some argb => bgraToRgba (argb.getD k 0)
  | none => c.bitmapPixel (k / c.bits.width.toNat) (k % c.bits.width.toNat)

/-- A conversion writes the pixels of the cursor, and nothing behind them. -/
theorem lorieConvertCursor_apply (c : CursorRec) (data : ℕ → UInt32) (k : ℕ) :
    lorieConvertCursor c data k =
      if k < c.bits.width.toNat * c.bits.height.toNat then c.pixel k else data k := by
  rw [lorieConvertCursor, CursorRec.pixel]
  cases c.bits.argb with
  | some argb => exact Scan.fill_apply _ _ data k
  | none =>
    dsimp only
    rw [(Scan.rows_apply c.bitmapPixel c.bits.height.toNat c.bits.width.toNat data 0).2 k,
      Nat.mul_comm c.bits.width.toNat]
    simp only [Nat.zero_le, true_and, Nat.zero_add, Nat.sub_zero]

/-! ### One cursor -/

/-- The size, the hot spot and the pixels that are shared are those of the cursor shown,
and fit `cursor.bits`. -/
def Consistent (c : Option CursorRec) (s : SharedCursor) : Prop :=
  s.width.toNat * s.height.toNat ≤ 512 * 512 ∧
    match c with
    | some c =>
      (s.width = c.bits.width.toUInt32 ∧ s.height = c.bits.height.toUInt32) ∧
        (s.xhot = c.bits.xhot.toUInt32 ∧ s.yhot = c.bits.yhot.toUInt32) ∧
        ∀ k < s.width.toNat * s.height.toNat, s.bits k = c.pixel k
    | none => (s.width = 0 ∧ s.height = 0) ∧ s.xhot = 0 ∧ s.yhot = 0

/-- A root cursor of the size and with the hot spot of another. -/
def SameMetrics (r c : CursorRec) : Prop :=
  (r.bits.width = c.bits.width ∧ r.bits.height = c.bits.height) ∧
    r.bits.xhot = c.bits.xhot ∧ r.bits.yhot = c.bits.yhot

theorem toUInt32_injective {a b : UInt16} (h : a.toUInt32 = b.toUInt32) : a = b := by
  have := congrArg UInt32.toNat h
  simpa [← UInt16.toNat_inj] using this

variable {rootCursor : Option CursorRec} {x0 y0 : Int32} {s : SharedCursor}

/-- The sizes are of the cursor that is set, the words of the one that is shown. -/
theorem lorieSetCursor_some {c r : CursorRec} (h : shown rootCursor (some c) = some r) :
    ∃ s', lorieSetCursor true rootCursor (some c) x0 y0 s = s' ∧
      (s'.width = c.bits.width.toUInt32 ∧ s'.height = c.bits.height.toUInt32) ∧
        (s'.xhot = c.bits.xhot.toUInt32 ∧ s'.yhot = c.bits.yhot.toUInt32) ∧
          s'.bits = lorieConvertCursor r s.bits := by
  rw [lorieSetCursor, h]
  exact ⟨_, rfl, ⟨rfl, rfl⟩, ⟨rfl, rfl⟩, rfl⟩

/-- Where no cursor is shown, none is shared. -/
theorem lorieSetCursor_none {pCurs : Option CursorRec} (h : shown rootCursor pCurs = none) :
    Consistent none (lorieSetCursor true rootCursor pCurs x0 y0 s) := by
  rw [lorieSetCursor, h]
  exact ⟨Nat.zero_le _, ⟨rfl, rfl⟩, rfl, rfl⟩

/-- The shared image is of one cursor exactly if the cursor shown has the size and the hot
spot of the one that is set. -/
theorem consistent_some_iff {c r : CursorRec} (h : shown rootCursor (some c) = some r) :
    Consistent (some r) (lorieSetCursor true rootCursor (some c) x0 y0 s) ↔
      SameMetrics r c ∧ c.bits.width.toNat * c.bits.height.toNat ≤ 512 * 512 := by
  obtain ⟨s', hs', ⟨hwidth, hheight⟩, ⟨hxhot, hyhot⟩, hbits⟩ := lorieSetCursor_some h
  rw [hs', Consistent, hwidth, hheight, UInt16.toNat_toUInt32, UInt16.toNat_toUInt32]
  constructor
  · rintro ⟨hfits, ⟨hw, hh⟩, ⟨hx, hy⟩, -⟩
    rw [hxhot] at hx
    rw [hyhot] at hy
    refine ⟨⟨⟨?_, ?_⟩, ?_, ?_⟩, hfits⟩
    · exact (toUInt32_injective hw).symm
    · exact (toUInt32_injective hh).symm
    · exact (toUInt32_injective hx).symm
    · exact (toUInt32_injective hy).symm
  · rintro ⟨⟨⟨hw, hh⟩, hx, hy⟩, hfits⟩
    refine ⟨hfits, ⟨by rw [hw], by rw [hh]⟩, ⟨by rw [hxhot, hx], by rw [hyhot, hy]⟩, fun k hk => ?_⟩
    rw [hbits, lorieConvertCursor_apply, if_pos]
    rw [hw, hh]
    exact hk

/-- What the mouse shows is one cursor exactly if it is small, or none; or if it is big,
there is no root cursor, or one of its very size and hot spot that fits. -/
theorem lorieSetCursor_consistent_iff (rootCursor pCurs : Option CursorRec) (x0 y0 : Int32)
    (s : SharedCursor) :
    Consistent (shown rootCursor pCurs) (lorieSetCursor true rootCursor pCurs x0 y0 s) ↔
      ∀ c ∈ pCurs, c.Big → ∀ r ∈ rootCursor,
        SameMetrics r c ∧ c.bits.width.toNat * c.bits.height.toNat ≤ 512 * 512 := by
  cases pCurs with
  | none => exact iff_of_true (lorieSetCursor_none rfl) nofun
  | some c =>
    by_cases hbig : c.Big
    · cases rootCursor with
      | none =>
        have hshown : shown none (some c) = none := by simp [shown, hbig]
        rw [hshown]
        exact iff_of_true (lorieSetCursor_none hshown) (by simp)
      | some r =>
        have hshown : shown (some r) (some c) = some r := by simp [shown, hbig]
        rw [hshown, consistent_some_iff hshown]
        simp [hbig]
    · have hshown : shown rootCursor (some c) = some c := by simp [shown, hbig]
      have hfits : c.bits.width.toNat * c.bits.height.toNat ≤ 512 * 512 := by
        rw [CursorRec.Big] at hbig
        exact Nat.mul_le_mul (by omega) (by omega)
      rw [hshown, consistent_some_iff hshown]
      refine iff_of_true ⟨⟨⟨rfl, rfl⟩, rfl, rfl⟩, hfits⟩ ?_
      simp [hbig]

/-- A cursor of `width` × `height` pixels, all of them clear. -/
def CursorRec.clear (width height : UInt16) : CursorRec where
  bits :=
    { source := Array.replicate (height.toNat * bitmapBytePad width.toNat) 0
      mask := Array.replicate (height.toNat * bitmapBytePad width.toNat) 0
      width := width, height := height, xhot := 0, yhot := 0, argb := none
      source_size := Array.size_replicate, mask_size := Array.size_replicate, argb_size := nofun }
  foreRed := 0
  foreGreen := 0
  foreBlue := 0
  backRed := 0
  backGreen := 0
  backBlue := 0

/-- No cursor at all. -/
def SharedCursor.initial : SharedCursor :=
  { x := 0, y := 0, xhot := 0, yhot := 0, width := 0, height := 0, bits := fun _ => 0,
    updated := false, moved := false, visible := false }

/-- For a cursor of 600 × 2 pixels the root cursor is converted, of which 16 × 16 words are
written; the shared size is 600 × 2. -/
theorem lorieSetCursor_big :
    ¬ ∀ (rootCursor pCurs : Option CursorRec) (x0 y0 : Int32) (s : SharedCursor),
      Consistent (shown rootCursor pCurs) (lorieSetCursor true rootCursor pCurs x0 y0 s) := by
  intro h
  have hwidth := (h (some (.clear 16 16)) (some (.clear 600 2)) 0 0 .initial).2.1.1
  exact absurd hwidth (by decide)

end Lorie.CursorImage
