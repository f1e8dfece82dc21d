/-
Byte streams: little-endian numbers, blocks of one length and interleavings.

* `leBytes`, `leNat` — a number as a fixed count of bytes and back;
* `leNat_leBytes` — what is left of the number, its remainder;
* `getElem?_flatMap_of_length` — an element of a block among blocks of one length;
* `Interleave` — one list made of two, the order within each kept.
-/
import Mathlib.Algebra.Group.Basic
import Mathlib.Algebra.Group.Nat.Defs
import Mathlib.Tactic.Common

namespace ByteStream

/-! ### Little-endian numbers -/

/-- The low `k` bytes of a number, the lowest first. -/
def leBytes : ℕ → ℕ → List UInt8
  | 0, _ => []
  | k + 1, n => UInt8.ofNat n :: leBytes k (n / 256)

/-- The number that bytes, the lowest first, stand for. -/
def leNat : List UInt8 → ℕ
  | [] => 0
  | b :: bs => b.toNat + 256 * leNat bs

@[simp] theorem leBytes_length (k n : ℕ) : (leBytes k n).length = k := by
  induction k generalizing n with
  | zero => rfl
  | succ k ih => rw [leBytes, List.length_cons, ih]

theorem leNat_leBytes (k n : ℕ) : leNat (leBytes k n) = n % 256 ^ k := by
  induction k generalizing n with
  | zero => simp [leBytes, leNat, Nat.mod_one]
  | succ k ih =>
    have hbyte : (UInt8.ofNat n).toNat = n % 256 := by simp
    rw [leBytes, leNat, ih, hbyte, pow_succ', Nat.mod_mul]

theorem leBytes_leNat (bs : List UInt8) : leBytes bs.length (leNat bs) = bs := by
  induction bs with
  | nil => rfl
  | cons b bs ih =>
    have hb := b.toNat_lt
    have hlow : UInt8.ofNat (b.toNat + 256 * leNat bs) = b := by
      apply UInt8.toNat_inj.mp
      rw [UInt8.toNat_ofNat']
      omega
    rw [List.length_cons, leBytes, leNat, hlow, Nat.add_mul_div_left _ _ (by decide),
      Nat.div_eq_of_lt hb, Nat.zero_add, ih]

theorem leNat_lt (bs : List UInt8) : leNat bs < 256 ^ bs.length := by
  induction bs with
  | nil => exact Nat.one_pos
  | cons b bs ih =>
    have hb := b.toNat_lt
    rw [leNat, List.length_cons, pow_succ']
    omega

/-! ### Blocks of one length -/

variable {α β : Type*}

theorem length_flatMap_of_length {f : α → List β} {k : ℕ} {l : List α}
    (hf : ∀ a ∈ l, (f a).length = k) : (l.flatMap f).length = l.length * k := by
  rw [List.length_flatMap, List.map_congr_left hf, List.map_const', List.sum_replicate_nat]

/-- The element `j` of the block `i`. -/
theorem getElem?_flatMap_of_length {f : α → List β} {k : ℕ} {l : List α}
    (hf : ∀ a ∈ l, (f a).length = k) {i j : ℕ} (hj : j < k) {a : α} (ha : l[i]? = some a) :
    (l.flatMap f)[i * k + j]? = (f a)[j]? := by
  induction l generalizing i with
  | nil => simp at ha
  | cons b l ih =>
    have hb : (f b).length = k := hf b List.mem_cons_self
    rw [List.flatMap_cons]
    cases i with
    | zero =>
      obtain rfl : b = a := by simpa using ha
      rw [Nat.zero_mul, Nat.zero_add, List.getElem?_append_left (by omega)]
    | succ i =>
      rw [List.getElem?_append_right (by rw [hb, Nat.succ_mul]; omega), hb]
      have hindex : (i + 1) * k + j - k = i * k + j := by
        rw [Nat.succ_mul]
        omega
      rw [hindex]
      exact ih (fun c hc => hf c (List.mem_cons_of_mem b hc)) (by simpa using ha)

/-! ### Reads that may fail -/

/-- Reads that all succeed. -/
theorem mapM_eq_some {f : α → Option β} {g : α → β} {l : List α}
    (h : ∀ a ∈ l, f a = some (g a)) : l.mapM f = some (l.map g) := by
  induction l with
  | nil => rfl
  | cons a l ih =>
    rw [List.mapM_cons, h a List.mem_cons_self, ih fun b hb => h b (List.mem_cons_of_mem a hb)]
    rfl

/-- If one read fails, they all do. -/
theorem exists_of_mapM_eq_some {f : α → Option β} {l : List α} {bs : List β}
    (h : l.mapM f = some bs) : ∀ a ∈ l, ∃ b, f a = some b := by
  induction l generalizing bs with
  | nil => exact fun a ha => absurd ha List.not_mem_nil
  | cons a l ih =>
    rw [List.mapM_cons] at h
    obtain ⟨b, hb, h⟩ := Option.bind_eq_some_iff.mp h
    obtain ⟨bs', hbs', -⟩ := Option.bind_eq_some_iff.mp h
    intro a' ha'
    rcases List.mem_cons.mp ha' with rfl | ha'
    · exact ⟨b, hb⟩
    · exact ih hbs' a' ha'

/-! ### Interleavings -/

/-- `zs` is made of the elements of `xs` and `ys`, each in its own order. -/
inductive Interleave : List α → List α → List α → Prop
  | nil : Interleave [] [] []
  | left {x : α} {xs ys zs : List α} : Interleave xs ys zs → Interleave (x :: xs) ys (x :: zs)
  | right {y : α} {xs ys zs : List α} : Interleave xs ys zs → Interleave xs (y :: ys) (y :: zs)

theorem Interleave.append_left {xs ys zs : List α} (h : Interleave xs ys zs) (x : α) :
    Interleave (xs ++ [x]) ys (zs ++ [x]) := by
  induction h with
  | nil => exact .left .nil
  | left _ ih => exact .left ih
  | right _ ih => exact .right ih

theorem Interleave.append_right {xs ys zs : List α} (h : Interleave xs ys zs) (y : α) :
    Interleave xs (ys ++ [y]) (zs ++ [y]) := by
  induction h with
  | nil => exact .right .nil
  | left _ ih => exact .left ih
  | right _ ih => exact .right ih

end ByteStream
