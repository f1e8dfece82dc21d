/-
Arrays that a loop fills in, word by word.

* `fill_apply` — a loop over the index;
* `rows_apply` — a loop over rows and columns that writes through a running pointer.
-/
import Mathlib.Data.Nat.Notation
import Mathlib.Logic.Function.Basic

namespace Scan

variable {α : Type*}

/-- `for i < n: data[i] = f i` -/
def fill (f : ℕ → α) (n : ℕ) (data : ℕ → α) : ℕ → α :=
  (List.range n).foldl (fun data i => Function.update data i (f i)) data

/-- Exactly the first `n` words are written. -/
theorem fill_apply (f : ℕ → α) (n : ℕ) (data : ℕ → α) (k : ℕ) :
    fill f n data k = if k < n then f k else data k := by
  induction n with
  | zero => rfl
  | succ n ih =>
    rw [fill, List.range_succ, List.foldl_append, List.foldl_cons, List.foldl_nil]
    change Function.update (fill f n data) n (f n) k = _
    rw [Function.update_apply, ih]
    split
    · next heq => rw [heq, if_pos (Nat.lt_succ_self n)]
    · next hne =>
      have hiff : k < n ↔ k < n + 1 := by omega
      simp only [hiff]

/-- `*p++ = d`, for the words and the pointer into them. -/
def put (s : (ℕ → α) × ℕ) (d : α) : (ℕ → α) × ℕ := (Function.update s.1 s.2 d, s.2 + 1)

/-- A row of `width` words. -/
def row (f : ℕ → α) (width : ℕ) (s : (ℕ → α) × ℕ) : (ℕ → α) × ℕ :=
  (List.range width).foldl (fun s x => put s (f x)) s

/-- `height` rows, one after the other. -/
def rows (f : ℕ → ℕ → α) (height width : ℕ) (s : (ℕ → α) × ℕ) : (ℕ → α) × ℕ :=
  (List.range height).foldl (fun s y => row (f y) width s) s

theorem row_spec (f : ℕ → α) (width : ℕ) (data : ℕ → α) (p : ℕ) :
    (row f width (data, p)).2 = p + width ∧
      ∀ k, (row f width (data, p)).1 k =
        if p ≤ k ∧ k < p + width then f (k - p) else data k := by
  induction width with
  | zero => exact ⟨rfl, fun k => (if_neg (by omega)).symm⟩
  | succ width ih =>
    obtain ⟨hptr, hdata⟩ := ih
    have hsucc : row f (width + 1) (data, p) = put (row f width (data, p)) (f width) := by
      rw [row, List.range_succ, List.foldl_append]
      rfl
    rw [hsucc]
    refine ⟨by rw [put, hptr, Nat.add_assoc], fun k => ?_⟩
    rw [put, hptr]
    dsimp only
    rw [Function.update_apply, hdata]
    by_cases heq : k = p + width
    · rw [if_pos heq, if_pos (by omega), heq, Nat.add_sub_cancel_left]
    · have hiff : p ≤ k ∧ k < p + width ↔ p ≤ k ∧ k < p + (width + 1) := by omega
      rw [if_neg heq]
      simp only [hiff]

/-- The words are the rows, in order, and the others are left as they were. -/
theorem rows_apply (f : ℕ → ℕ → α) (height width : ℕ) (data : ℕ → α) (p : ℕ) :
    (rows f height width (data, p)).2 = p + height * width ∧
      ∀ k, (rows f height width (data, p)).1 k =
        if p ≤ k ∧ k < p + height * width then f ((k - p) / width) ((k - p) % width)
        else data k := by
  induction height with
  | zero =>
    rw [Nat.zero_mul]
    exact ⟨rfl, fun k => (if_neg (by omega)).symm⟩
  | succ height ih =>
    obtain ⟨hptr, hdata⟩ := ih
    have hsucc : rows f (height + 1) width (data, p) =
        row (f height) width ((rows f height width (data, p)).1, p + height * width) := by
      rw [← hptr, rows, List.range_succ, List.foldl_append]
      rfl
    obtain ⟨hrow, hwords⟩ :=
      row_spec (f height) width (rows f height width (data, p)).1 (p + height * width)
    rw [hsucc]
    refine ⟨by rw [hrow, Nat.add_assoc, Nat.succ_mul], fun k => ?_⟩
    rw [hwords, hdata, Nat.succ_mul]
    by_cases hlast : p + height * width ≤ k ∧ k < p + height * width + width
    · -- the word is in the row that was just written
      have hsplit : k - p = (k - (p + height * width)) + width * height := by
        rw [Nat.mul_comm width height]
        omega
      have hlt : k - (p + height * width) < width := by omega
      rw [if_pos hlast, if_pos (by omega), hsplit, Nat.add_mul_div_left _ _ (by omega),
        Nat.add_mul_mod_self_left, Nat.div_eq_of_lt hlt, Nat.mod_eq_of_lt hlt, Nat.zero_add]
    · rw [if_neg hlast]
      have hiff : p ≤ k ∧ k < p + height * width ↔ p ≤ k ∧ k < p + (height * width + width) := by
        omega
      simp only [hiff]

end Scan
