/-
32-bit indices of a ring whose size divides `2 ^ 32`.

An index counts what went through the ring and wraps; here the count itself has no end, and
the index is `UInt32.ofNat` of it.

* `toNat_sub_ofNat`, `ofNat_eq_ofNat_iff` — the tests for a full and for an empty ring;
* `toNat_sub_succ_lt` — a ring is emptied in finitely many steps;
* `slot_ofNat`, `slot_ne` — the slot of a count, and when two counts have different ones.
-/
import Mathlib.Algebra.Group.Nat.Defs
import Mathlib.Data.Nat.Notation
import Mathlib.Tactic.Common

namespace RingIndex

/-- The slot of an index. -/
def slot (size index : UInt32) : ℕ := (index % size).toNat

variable {r w : ℕ}

/-- What is between two counts. -/
theorem toNat_sub_ofNat (h : r ≤ w) (hlt : w - r < 2 ^ 32) :
    (UInt32.ofNat w - UInt32.ofNat r).toNat = w - r := by
  rw [UInt32.toNat_sub, UInt32.toNat_ofNat', UInt32.toNat_ofNat']
  omega

theorem ofNat_eq_ofNat_iff (h : r ≤ w) (hlt : w - r < 2 ^ 32) :
    UInt32.ofNat r = UInt32.ofNat w ↔ r = w := by
  constructor
  · intro heq
    have hsub := toNat_sub_ofNat h hlt
    rw [heq, UInt32.sub_self] at hsub
    have hzero : (0 : UInt32).toNat = 0 := rfl
    omega
  · rintro rfl
    rfl

theorem ofNat_succ (n : ℕ) : UInt32.ofNat n + 1 = UInt32.ofNat (n + 1) := by
  rw [UInt32.ofNat_add]
  rfl

theorem slot_ofNat {size : UInt32} (hsize : size.toNat ∣ 2 ^ 32) (n : ℕ) :
    slot size (UInt32.ofNat n) = n % size.toNat := by
  rw [slot, UInt32.toNat_mod, UInt32.toNat_ofNat', Nat.mod_mod_of_dvd n hsize]

/-- One more taken out of a ring that is not empty, wherever its indices are. -/
theorem toNat_sub_succ_lt {read write : UInt32} (h : read ≠ write) :
    (write - (read + 1)).toNat < (write - read).toNat := by
  have hne : read.toNat ≠ write.toNat := fun heq => h (UInt32.toNat_inj.mp heq)
  have hread := read.toNat_lt
  have hwrite := write.toNat_lt
  have hone : (1 : UInt32).toNat = 1 := rfl
  rw [UInt32.toNat_sub, UInt32.toNat_sub, UInt32.toNat_add, hone]
  omega

/-- Two counts less than a round apart. -/
theorem slot_ne {i j size : ℕ} (hne : i ≠ j) (hi : i < j + size) (hj : j < i + size) :
    i % size ≠ j % size := by
  intro h
  rcases Nat.lt_or_gt_of_ne hne with hlt | hlt
  · have hzero := Nat.sub_mod_eq_zero_of_mod_eq h.symm
    rw [Nat.mod_eq_of_lt (by omega)] at hzero
    omega
  · have hzero := Nat.sub_mod_eq_zero_of_mod_eq h
    rw [Nat.mod_eq_of_lt (by omega)] at hzero
    omega

end RingIndex
