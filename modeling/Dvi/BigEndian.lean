/-
# Dvi.BigEndian — numbers as base-256 digits, most significant first.

Every operand of a DVI command is stored as a fixed number of base-256 digits. This module holds
the two directions, both over `Nat`, and the two laws that tie them together: reading the `k` digits
of `n` gives `n` modulo the number of strings of `k` digits (`ofBigEndian_bigEndian`), and writing
as many digits as were read gives the same bytes back (`bigEndian_ofBigEndian`). Signs and machine
words are added by the modules that know which operand they store.
-/

namespace Dvi

/-- A string of octets, in stream order. -/
abbrev Bytes := List UInt8

/-- How many numbers `k` digits tell apart. -/
def capacity : Nat → Nat
  | 0 => 1
  | k + 1 => 256 * capacity k

/-- The `k` low base-256 digits of `n`, most significant first; higher digits are dropped. -/
def bigEndian : Nat → Nat → Bytes
  | 0, _ => []
  | k + 1, n => bigEndian k (n / 256) ++ [UInt8.ofNat n]

/-- The number whose base-256 digits are `bs`, most significant first. -/
def ofBigEndian (bs : Bytes) : Nat :=
  bs.foldl (fun n b => 256 * n + b.toNat) 0

@[simp]
theorem length_bigEndian (k n : Nat) : (bigEndian k n).length = k := by
  induction k generalizing n with
  | zero => rfl
  | succ k ih => simp [bigEndian, ih]

@[simp]
theorem ofBigEndian_nil : ofBigEndian [] = 0 := rfl

/-- One more digit counts below those already read. -/
@[simp]
theorem ofBigEndian_append_singleton (bs : Bytes) (b : UInt8) :
    ofBigEndian (bs ++ [b]) = 256 * ofBigEndian bs + b.toNat := by
  simp [ofBigEndian]

/-- Reading `k` digits of `n` gives `n` without its higher digits. -/
theorem ofBigEndian_bigEndian (k n : Nat) : ofBigEndian (bigEndian k n) = n % capacity k := by
  induction k generalizing n with
  | zero => simp [bigEndian, capacity, Nat.mod_one]
  | succ k ih =>
    rw [bigEndian, ofBigEndian_append_singleton, ih, capacity, Nat.mod_mul, UInt8.toNat_ofNat']
    exact Nat.add_comm ..

/-- The next law for reversed strings, where the last digit comes first. -/
theorem bigEndian_reverse_ofBigEndian (bs : Bytes) :
    bigEndian bs.length (ofBigEndian bs.reverse) = bs.reverse := by
  induction bs with
  | nil => rfl
  | cons b bs ih =>
    have digit : b.toNat < 256 := b.toNat_lt
    have above : (256 * ofBigEndian bs.reverse + b.toNat) / 256 = ofBigEndian bs.reverse := by omega
    have last : UInt8.ofNat (256 * ofBigEndian bs.reverse + b.toNat) = b := by
      apply UInt8.toNat_inj.mp
      rw [UInt8.toNat_ofNat']
      omega
    rw [List.reverse_cons, ofBigEndian_append_singleton, List.length_cons, bigEndian, above, last,
      ih]

/-- Writing as many digits as were read gives the same bytes. -/
theorem bigEndian_ofBigEndian (bs : Bytes) : bigEndian bs.length (ofBigEndian bs) = bs := by
  simpa using bigEndian_reverse_ofBigEndian bs.reverse

/-- Digits stay below what as many digits tell apart. -/
theorem ofBigEndian_lt_capacity (bs : Bytes) : ofBigEndian bs < capacity bs.length := by
  have value := ofBigEndian_bigEndian bs.length (ofBigEndian bs)
  rw [bigEndian_ofBigEndian] at value
  have positive : ∀ k, 0 < capacity k := by
    intro k
    induction k with
    | zero => exact Nat.one_pos
    | succ k ih => exact Nat.mul_pos (by decide) ih
  rw [value]
  exact Nat.mod_lt _ (positive _)

end Dvi
