/-
Drawing an axis-aligned rectangle from a texture, with exact coordinates.

One axis at a time, as a rectangle's edges and texture coordinates on one axis do
not depend on the other.  A pixel is drawn if its centre lies between the edges;
the texture coordinate there is interpolated between those of the edges, and the
nearest texel taken, the coordinate clamped to the texture.

* `Covers`, `texel` — whether a pixel is drawn, and from which texel;
* `covers_toNdc`, `texel_toNdc` — edges on pixel boundaries with matching texture
  coordinates copy texels to pixels, shifted by a whole number;
* `shift_eq_zero` — only the shift by nothing leaves a bounded set of pixels in itself.
-/
import Mathlib.Algebra.Order.Floor.Ring
import Mathlib.Data.Rat.Floor
import Mathlib.Tactic.FieldSimp
import Mathlib.Tactic.Linarith
import Mathlib.Tactic.Ring

namespace Raster

/-- The place of a normalised device coordinate on an axis of `size` pixels. -/
def viewport (size : ℕ) (ndc : ℚ) : ℚ := (ndc + 1) / 2 * size

/-- The centre of a pixel. -/
def centre (i : ℤ) : ℚ := i + 1 / 2

/-- The centre of the pixel `i` lies between the edges. -/
def Covers (size : ℕ) (lo hi : ℚ) (i : ℤ) : Prop :=
  viewport size lo ≤ centre i ∧ centre i < viewport size hi

instance (size : ℕ) (lo hi : ℚ) (i : ℤ) : Decidable (Covers size lo hi i) :=
  inferInstanceAs (Decidable (_ ∧ _))

/-- The texture coordinate at the centre of the pixel `i`. -/
def interpolate (size : ℕ) (lo hi uLo uHi : ℚ) (i : ℤ) : ℚ :=
  uLo + (centre i - viewport size lo) / (viewport size hi - viewport size lo) * (uHi - uLo)

/-- `GL_NEAREST` with `GL_CLAMP_TO_EDGE` on a texture of `texels`. -/
def nearest (texels : ℕ) (u : ℚ) : ℤ := max 0 (min ⌊u * texels⌋ (texels - 1))

/-- The texel the pixel `i` is drawn from. -/
def texel (size texels : ℕ) (lo hi uLo uHi : ℚ) (i : ℤ) : ℤ :=
  nearest texels (interpolate size lo hi uLo uHi i)

/-! ### Edges on pixel boundaries -/

/-- The device coordinate of the boundary before the pixel `p`. -/
def toNdc (size : ℕ) (p : ℤ) : ℚ := 2 * p / size - 1

variable {size texels : ℕ}

theorem viewport_toNdc (hsize : 0 < size) (p : ℤ) : viewport size (toNdc size p) = p := by
  have hne : (size : ℚ) ≠ 0 := by exact_mod_cast hsize.ne'
  rw [viewport, toNdc]
  field_simp
  ring

/-- Exactly the pixels between the boundaries are drawn. -/
theorem covers_toNdc (hsize : 0 < size) (p q i : ℤ) :
    Covers size (toNdc size p) (toNdc size q) i ↔ p ≤ i ∧ i < q := by
  rw [Covers, viewport_toNdc hsize, viewport_toNdc hsize, centre]
  constructor
  · rintro ⟨hlo, hhi⟩
    have hp : (p : ℚ) < i + 1 := by linarith
    have hq : (i : ℚ) < q := by linarith
    exact ⟨Int.lt_add_one_iff.mp (by exact_mod_cast hp), by exact_mod_cast hq⟩
  · rintro ⟨hp, hq⟩
    have hp' : (p : ℚ) ≤ i := by exact_mod_cast hp
    have hq' : (i : ℚ) + 1 ≤ q := by exact_mod_cast hq
    exact ⟨by linarith, by linarith⟩

/-- With the texture coordinates of `shift` texels before, a pixel is drawn from the
texel `shift` before it, or the nearest the texture has. -/
theorem texel_toNdc (hsize : 0 < size) (htexels : 0 < texels) {p q : ℤ} (hpq : p < q)
    (shift i : ℤ) :
    texel size texels (toNdc size p) (toNdc size q) (((p - shift : ℤ) : ℚ) / texels)
        (((q - shift : ℤ) : ℚ) / texels) i =
      max 0 (min (i - shift) (texels - 1)) := by
  have hne : (texels : ℚ) ≠ 0 := by exact_mod_cast htexels.ne'
  have hwidth : ((q : ℚ) - p) ≠ 0 := by
    have hlt : (p : ℚ) < q := by exact_mod_cast hpq
    exact (sub_pos.mpr hlt).ne'
  have hu : interpolate size (toNdc size p) (toNdc size q) (((p - shift : ℤ) : ℚ) / texels)
      (((q - shift : ℤ) : ℚ) / texels) i * texels = ((i - shift : ℤ) : ℚ) + 1 / 2 := by
    rw [interpolate, viewport_toNdc hsize, viewport_toNdc hsize, centre]
    push_cast
    field_simp
    ring
  have hfloor : ⌊((i - shift : ℤ) : ℚ) + 1 / 2⌋ = i - shift := by
    rw [Int.floor_intCast_add]
    norm_num
  rw [texel, nearest, hu, hfloor]

/-! ### Shifts -/

variable {P : ℤ → Prop} {d : ℤ}

theorem shift_iterate (h : ∀ i, P i → P (i + d)) {i : ℤ} (hi : P i) (n : ℕ) : P (i + n * d) := by
  induction n with
  | zero => simpa using hi
  | succ n ih =>
    have hnext : i + (n + 1 : ℕ) * d = i + n * d + d := by
      push_cast
      ring
    rw [hnext]
    exact h _ ih

theorem shift_eq_zero (lo hi : ℤ) (h : ∀ i, P i → P (i + d))
    (hbounds : ∀ i, P i → lo ≤ i ∧ i < hi) (hP : ∃ i, P i) : d = 0 := by
  obtain ⟨i, hi'⟩ := hP
  by_contra hd
  -- The shift repeated often enough leaves the bounds, one way or the other.
  have hfar := hbounds _ (shift_iterate h hi' (hi - lo).toNat)
  have hstart := hbounds i hi'
  have hn : ((hi - lo).toNat : ℤ) = hi - lo := Int.toNat_of_nonneg (by omega)
  rw [hn] at hfar
  rcases lt_or_gt_of_ne hd with hneg | hpos
  · have hle : (hi - lo) * d ≤ (hi - lo) * (-1) :=
      mul_le_mul_of_nonneg_left (by omega) (by omega)
    omega
  · have hle : (hi - lo) * 1 ≤ (hi - lo) * d :=
      mul_le_mul_of_nonneg_left (by omega) (by omega)
    omega

end Raster
