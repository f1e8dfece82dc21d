/-
Triangle strips with texture coordinates.

A triangle covers the mixtures of its corners; what it shows at one of them is the texture
at the same mixture of the texture coordinates.

* `Vertex`, `triangles` — a strip and the triangles it is made of;
* `Interpolates` — a strip shows a texture coordinate at a point;
* `upright` — a rectangle as a strip of four vertices;
* `interpolates_upright_iff` — it shows the texture stretched over the rectangle.
-/
import Mathlib.Algebra.Order.Field.Basic
import Mathlib.Tactic.LinearCombination
import Mathlib.Tactic.Linarith
import Mathlib.Tactic.Ring

namespace TriangleStrip

variable {K : Type*} [Field K] [LinearOrder K] [IsStrictOrderedRing K]

/-- A point with its texture coordinate. -/
structure Vertex (K : Type*) where
  x : K
  y : K
  u : K
  v : K
  deriving DecidableEq, Repr

/-- Each vertex and the two after it. -/
def triangles {α : Type*} : List α → List (α × α × α)
  | a :: b :: c :: vs => (a, b, c) :: triangles (b :: c :: vs)
  | _ => []

/-- A mixture of the corners of a triangle: their shares are not negative and sum up to
one. -/
structure Mixture (α β γ : K) : Prop where
  first : 0 ≤ α
  second : 0 ≤ β
  third : 0 ≤ γ
  total : α + β + γ = 1

/-- At the point `n` a triangle of the strip shows the texture coordinate `t`. -/
def Interpolates (strip : List (Vertex K)) (n t : K × K) : Prop :=
  ∃ a b c : Vertex K, (a, b, c) ∈ triangles strip ∧ ∃ α β γ : K, Mixture α β γ ∧
    n = (α * a.x + β * b.x + γ * c.x, α * a.y + β * b.y + γ * c.y) ∧
    t = (α * a.u + β * b.u + γ * c.u, α * a.v + β * b.v + γ * c.v)

/-- The rectangle between `x0` and `x1`, with the first row of the texture at `y0` and the
last one at `y1`. -/
def upright (x0 x1 y0 y1 : K) : List (Vertex K) :=
  [⟨x0, y1, 0, 1⟩, ⟨x1, y1, 1, 1⟩, ⟨x0, y0, 0, 0⟩, ⟨x1, y0, 1, 0⟩]

omit [LinearOrder K] [IsStrictOrderedRing K] in
/-- The two triangles of a rectangle. -/
theorem mem_triangles_upright {x0 x1 y0 y1 : K} {a b c : Vertex K} :
    (a, b, c) ∈ triangles (upright x0 x1 y0 y1) ↔
      (a = ⟨x0, y1, 0, 1⟩ ∧ b = ⟨x1, y1, 1, 1⟩ ∧ c = ⟨x0, y0, 0, 0⟩) ∨
      (a = ⟨x1, y1, 1, 1⟩ ∧ b = ⟨x0, y0, 0, 0⟩ ∧ c = ⟨x1, y0, 1, 0⟩) := by
  simp only [upright, triangles, List.mem_cons, List.not_mem_nil, or_false, Prod.mk.injEq]

/-- The texture is stretched over the rectangle. -/
theorem interpolates_upright_iff {x0 x1 y0 y1 : K} {n t : K × K} :
    Interpolates (upright x0 x1 y0 y1) n t ↔
      ((0 ≤ t.1 ∧ t.1 ≤ 1) ∧ (0 ≤ t.2 ∧ t.2 ≤ 1)) ∧
        n = (x0 + t.1 * (x1 - x0), y0 + t.2 * (y1 - y0)) := by
  constructor
  · rintro ⟨a, b, c, hmem, α, β, γ, hmix, rfl, rfl⟩
    have hfirst := hmix.first
    have hsecond := hmix.second
    have hthird := hmix.third
    have htotal := hmix.total
    rcases mem_triangles_upright.mp hmem with ⟨rfl, rfl, rfl⟩ | ⟨rfl, rfl, rfl⟩
    · refine ⟨⟨⟨by linarith, by linarith⟩, by linarith, by linarith⟩, Prod.ext ?_ ?_⟩
      · linear_combination x0 * htotal
      · linear_combination y0 * htotal
    · refine ⟨⟨⟨by linarith, by linarith⟩, by linarith, by linarith⟩, Prod.ext ?_ ?_⟩
      · linear_combination x0 * htotal
      · linear_combination y0 * htotal
  · rintro ⟨⟨⟨hu0, hu1⟩, hv0, hv1⟩, rfl⟩
    -- the diagonal parts the triangles: which one it is depends on the larger coordinate
    rcases le_total t.1 t.2 with hle | hle
    · refine ⟨_, _, _, mem_triangles_upright.mpr (Or.inl ⟨rfl, rfl, rfl⟩),
        t.2 - t.1, t.1, 1 - t.2, ⟨by linarith, hu0, by linarith, by ring⟩,
        Prod.ext ?_ ?_, Prod.ext ?_ ?_⟩
      · ring
      · ring
      · ring
      · ring
    · refine ⟨_, _, _, mem_triangles_upright.mpr (Or.inr ⟨rfl, rfl, rfl⟩),
        t.2, 1 - t.1, t.1 - t.2, ⟨hv0, by linarith, by linarith, by ring⟩,
        Prod.ext ?_ ?_, Prod.ext ?_ ?_⟩
      · ring
      · ring
      · ring
      · ring

end TriangleStrip
