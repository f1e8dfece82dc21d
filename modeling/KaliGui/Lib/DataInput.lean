/-
Reading numbers and blocks from the front of a byte stream, the highest byte first.

A read takes the bytes that are there and leaves the rest; `none` is a read that waits for
more.

* `Reader` — reads, composed by `do`;
* `Reads` — a read of exactly these bytes, whatever follows them.
-/
import Mathlib.Algebra.Group.Nat.Defs
import Mathlib.Data.Int.Notation
import Mathlib.Data.Nat.Notation
import Mathlib.Tactic.Common

namespace DataInput

abbrev Reader := StateT (List UInt8) Option

def readUnsignedByte : Reader ℕ
  | b :: rest => some (b.toNat, rest)
  | [] => none

def readUnsignedShort : Reader ℕ
  | a :: b :: rest => some (a.toNat * 2 ^ 8 + b.toNat, rest)
  | _ => none

def readInt : Reader ℤ
  | a :: b :: c :: d :: rest =>
    some (((a.toNat * 2 ^ 24 + b.toNat * 2 ^ 16 + c.toNat * 2 ^ 8 + d.toNat : ℕ) : ℤ).bmod (2 ^ 32),
      rest)
  | _ => none

def skipBytes (n : ℕ) : Reader Unit := fun s =>
  if s.length < n then none else some ((), s.drop n)

def readFully (n : ℕ) : Reader (List UInt8) := fun s =>
  if s.length < n then none else some (s.take n, s.drop n)

/-! ### What a read takes -/

variable {α β : Type}

/-- The read takes exactly `l`. -/
def Reads (r : Reader α) (l : List UInt8) (a : α) : Prop :=
  ∀ rest, r (l ++ rest) = some (a, rest)

theorem Reads.pure (a : α) : Reads (Pure.pure a) [] a := fun _ => rfl

theorem Reads.bind {r : Reader α} {f : α → Reader β} {l m : List UInt8} {a : α} {b : β}
    (hr : Reads r l a) (hf : Reads (f a) m b) : Reads (r >>= f) (l ++ m) b := by
  intro rest
  rw [List.append_assoc]
  show (r (l ++ (m ++ rest))).bind (fun p => f p.1 p.2) = some (b, rest)
  rw [hr (m ++ rest)]
  exact hf rest

/-- A last read. -/
theorem Reads.map {r : Reader α} {l : List UInt8} {a : α} (hr : Reads r l a) (f : α → β) :
    Reads (r >>= fun x => Pure.pure (f x)) l (f a) := by
  have h := hr.bind (f := fun x => Pure.pure (f x)) (.pure (f a))
  rwa [List.append_nil] at h

theorem reads_readUnsignedByte (b : UInt8) : Reads readUnsignedByte [b] b.toNat := fun _ => rfl

theorem reads_readUnsignedShort (a b : UInt8) :
    Reads readUnsignedShort [a, b] (a.toNat * 2 ^ 8 + b.toNat) := fun _ => rfl

theorem reads_readInt (a b c d : UInt8) : Reads readInt [a, b, c, d]
    (((a.toNat * 2 ^ 24 + b.toNat * 2 ^ 16 + c.toNat * 2 ^ 8 + d.toNat : ℕ) : ℤ).bmod (2 ^ 32)) :=
  fun _ => rfl

theorem reads_skipBytes {l : List UInt8} {n : ℕ} (h : l.length = n) :
    Reads (skipBytes n) l () := by
  intro rest
  rw [skipBytes, if_neg (by rw [List.length_append]; omega), ← h, List.drop_left]

theorem reads_readFully {l : List UInt8} {n : ℕ} (h : l.length = n) :
    Reads (readFully n) l l := by
  intro rest
  rw [readFully, if_neg (by rw [List.length_append]; omega), ← h, List.take_left, List.drop_left]

theorem length_of_readFully {k : ℕ} {stream rest image : List UInt8}
    (h : readFully k stream = some (image, rest)) : image.length = k := by
  rw [readFully] at h
  split at h
  · cases h
  · obtain ⟨rfl, -⟩ := Prod.mk.inj (Option.some_inj.mp h)
    rw [List.length_take]
    omega

end DataInput
