/-
# Dvi.Proofs.Command.Operand — which number a stored operand stands for.

An operand is cut to its stored width, and what is read back is the number that has the same low
bytes: a signed operand repeats its sign above them (`Width.signExtend`), an unsigned one has zeros
there (`Width.zeroExtend`), and four bytes are read as they are in both cases. The main statements
are that the two readings of the bytes of a number give these two numbers, that storing what was read
gives the bytes again, and that a number is read back unchanged exactly if it fits its width.
-/
import Dvi.Command.Decoding

namespace Dvi

/-- Digits above the ones that are kept do not matter. -/
theorem bigEndian_mod (k n : Nat) : bigEndian k (n % capacity k) = bigEndian k n := by
  have value := bigEndian_ofBigEndian (bigEndian k n)
  rwa [length_bigEndian, ofBigEndian_bigEndian] at value

namespace Width

/-- What is left of a number when only its low bytes are kept and its sign is repeated above. -/
def signExtend (size : Width) (x : Int32) : Int32 :=
  Int32.ofInt (x.toInt.bmod size.patterns)

/-- What is left of a number when only its low bytes are kept and zeros stand above. With four bytes
nothing is missing, so the number may be negative. -/
def zeroExtend (size : Width) (x : Int32) : Int32 :=
  Int32.ofInt (x.toInt % size.patterns)

/-- A signed operand that its width can store. -/
def FitsSigned (size : Width) (x : Int32) : Prop :=
  -(size.patterns : Int) ≤ 2 * x.toInt ∧ 2 * x.toInt < size.patterns

/-- An unsigned operand that its width can store. Four bytes store every number. -/
def FitsUnsigned (size : Width) (x : Int32) : Prop :=
  size = .four ∨ 0 ≤ x.toInt ∧ x.toInt < size.patterns

instance (size : Width) (x : Int32) : Decidable (size.FitsSigned x) :=
  inferInstanceAs (Decidable (_ ∧ _))

instance (size : Width) (x : Int32) : Decidable (size.FitsUnsigned x) :=
  inferInstanceAs (Decidable (_ ∨ _))

/-! ## Low bytes -/

theorem patterns_pos (size : Width) : 0 < size.patterns := by
  cases size <;> decide

/-- Words tell apart as many numbers as a whole number of times the patterns of a width. -/
theorem patterns_dvd (size : Width) : (size.patterns : Int) ∣ (Int32.size : Int) := by
  cases size <;> decide

/-- Wrapping at 32 bits does not touch the low bytes. -/
theorem toInt_ofInt_emod (size : Width) (z : Int) :
    (Int32.ofInt z).toInt % size.patterns = z % size.patterns := by
  rw [Int32.toInt_ofInt, ← Int.emod_emod_of_dvd (z.bmod Int32.size) size.patterns_dvd,
    Int.bmod_emod, Int.emod_emod_of_dvd z size.patterns_dvd]

/-- The bytes of a stored number are those of its remainder. -/
theorem stored_eq (size : Width) (x : Int32) :
    Encoder.stored size x = bigEndian size.size (x.toInt % size.patterns).toNat := by
  have value : x.toInt = (x.toUInt32.toNat : Int).bmod Int32.size := BitVec.toInt_eq_toNat_bmod _
  -- A word and the number in it differ by a multiple of the patterns of every width.
  have low : x.toInt % size.patterns = ((x.toUInt32.toNat % size.patterns : Nat) : Int) := by
    rw [value, ← Int.emod_emod_of_dvd _ size.patterns_dvd, Int.bmod_emod,
      Int.emod_emod_of_dvd _ size.patterns_dvd, Int.natCast_emod]
  rw [low, Int.toNat_natCast, Encoder.stored, patterns, bigEndian_mod]

/-! ## Reading what was stored -/

/-- The digits of a stored number are its remainder. -/
theorem ofBigEndian_stored (size : Width) (x : Int32) :
    (ofBigEndian (Encoder.stored size x) : Int) = x.toInt % size.patterns := by
  have nonneg : 0 ≤ x.toInt % size.patterns :=
    Int.emod_nonneg _ (Int.natCast_ne_zero.mpr (Nat.ne_of_gt size.patterns_pos))
  have below : (x.toInt % size.patterns).toNat < size.patterns := by
    have := Int.emod_lt_of_pos x.toInt (Int.natCast_pos.mpr size.patterns_pos)
    omega
  rw [stored_eq, ofBigEndian_bigEndian, ← patterns, Nat.mod_eq_of_lt below, Int.toNat_of_nonneg nonneg]

/-- Read without a sign, the bytes of a number give it with zeros above them. -/
theorem ofNat_ofBigEndian_stored (size : Width) (x : Int32) :
    Int32.ofNat (ofBigEndian (Encoder.stored size x)) = size.zeroExtend x := by
  rw [← Int32.ofInt_eq_ofNat, ofBigEndian_stored, zeroExtend]

/-- Read with a sign, the bytes of a number give it with its sign above them. -/
theorem ofInt_bmod_ofBigEndian_stored (size : Width) (x : Int32) :
    Int32.ofInt (Int.bmod (ofBigEndian (Encoder.stored size x)) size.patterns)
      = size.signExtend x := by
  rw [ofBigEndian_stored, Int.emod_bmod, signExtend]

/-- A number with the digits `bs` as its low bytes is stored as `bs`. -/
theorem stored_of_emod {size : Width} {x : Int32} {bs : Bytes} (length : bs.length = size.size)
    (h : x.toInt % size.patterns = (ofBigEndian bs : Int) % size.patterns) :
    Encoder.stored size x = bs := by
  have below : ofBigEndian bs < size.patterns := by
    rw [patterns, ← length]
    exact ofBigEndian_lt_capacity bs
  rw [stored_eq, h, ← Int.natCast_emod, Int.toNat_natCast, Nat.mod_eq_of_lt below, ← length,
    bigEndian_ofBigEndian]

/-- Storing what was read without a sign gives the same bytes. -/
theorem stored_ofNat {size : Width} {bs : Bytes} (length : bs.length = size.size) :
    Encoder.stored size (Int32.ofNat (ofBigEndian bs)) = bs :=
  stored_of_emod length (by rw [← Int32.ofInt_eq_ofNat, toInt_ofInt_emod])

/-- Storing what was read with a sign gives the same bytes. -/
theorem stored_ofInt_bmod {size : Width} {bs : Bytes} (length : bs.length = size.size) :
    Encoder.stored size (Int32.ofInt (Int.bmod (ofBigEndian bs) size.patterns)) = bs :=
  stored_of_emod length (by rw [toInt_ofInt_emod, Int.bmod_emod])

/-! ## Numbers that fit -/

theorem patterns_le (size : Width) : size.patterns ≤ Int32.size := by
  cases size <;> decide

theorem two_dvd_patterns (size : Width) : 2 ∣ size.patterns := by
  cases size <;> decide

/-- Wrapping at 32 bits leaves a number alone that has a place in a word. -/
theorem toInt_ofInt_of_bounds {z : Int} (low : -(Int32.size : Int) ≤ 2 * z)
    (high : 2 * z < Int32.size) : (Int32.ofInt z).toInt = z := by
  rw [Int32.toInt_ofInt]
  have : Int32.size = 4294967296 := rfl
  exact Int.bmod_eq_of_le (by omega) (by omega)

/-- A signed number is read back unchanged exactly if its width can store it. -/
theorem signExtend_eq_self_iff (size : Width) (x : Int32) :
    size.signExtend x = x ↔ size.FitsSigned x := by
  obtain ⟨half, double⟩ := size.two_dvd_patterns
  have small := size.patterns_le
  have positive := size.patterns_pos
  have low := Int.le_bmod (x := x.toInt) size.patterns_pos
  have high := Int.bmod_lt (x := x.toInt) size.patterns_pos
  rw [FitsSigned]
  constructor
  · intro same
    have value := congrArg Int32.toInt same
    rw [signExtend, toInt_ofInt_of_bounds (by omega) (by omega)] at value
    omega
  · intro fits
    rw [signExtend, Int.bmod_eq_of_le (by omega) (by omega), Int32.ofInt_toInt]

/-- An unsigned number is read back unchanged exactly if its width can store it. -/
theorem zeroExtend_eq_self_iff (size : Width) (x : Int32) :
    size.zeroExtend x = x ↔ size.FitsUnsigned x := by
  -- Four bytes lose nothing, whatever the sign; only a narrower operand can be too large.
  by_cases whole : size = .four
  · have full : Width.four.patterns = Int32.size := rfl
    have same : size.zeroExtend x = x := by
      rw [whole, zeroExtend, full]
      apply Int32.toInt_inj.mp
      rw [Int32.toInt_ofInt, Int.emod_bmod, ← Int32.toInt_ofInt, Int32.ofInt_toInt]
    exact iff_of_true same (.inl whole)
  · have small : 2 * size.patterns ≤ Int32.size := by
      cases size with
      | four => exact absurd rfl whole
      | one | two | three => decide
    have positive := size.patterns_pos
    have low := Int.emod_nonneg x.toInt (b := size.patterns) (by omega)
    have high := Int.emod_lt_of_pos x.toInt (b := size.patterns) (by omega)
    rw [FitsUnsigned, or_iff_right whole]
    constructor
    · intro same
      have value := congrArg Int32.toInt same
      rw [zeroExtend, toInt_ofInt_of_bounds (by omega) (by omega)] at value
      omega
    · intro fits
      rw [zeroExtend, Int.emod_eq_of_lt fits.1 fits.2, Int32.ofInt_toInt]

/-- The width that is chosen for a signed number stores it. -/
theorem fitsSigned_ofSigned (x : Int32) : (ofSigned x).FitsSigned x := by
  have low := x.le_toInt
  have high := x.toInt_lt
  have one : one.patterns = 256 := rfl
  have two : two.patterns = 65536 := rfl
  have three : three.patterns = 16777216 := rfl
  have four : four.patterns = 4294967296 := rfl
  -- Each threshold bounds the magnitude by half of the patterns, which is stricter than fitting.
  unfold ofSigned
  dsimp only
  split
  · constructor <;> omega
  · split
    · constructor <;> omega
    · split
      · constructor <;> omega
      · constructor <;> omega

/-- The width that is chosen for an unsigned number stores it. -/
theorem fitsUnsigned_ofUnsigned (x : UInt32) : (ofUnsigned x).FitsUnsigned x.toInt32 := by
  have narrow (size : Width) (small : 2 * size.patterns ≤ Int32.size)
      (below : x.toNat < size.patterns) : size.FitsUnsigned x.toInt32 := by
    have value : x.toInt32.toInt = (x.toNat : Int).bmod Int32.size := BitVec.toInt_eq_toNat_bmod _
    rw [Int.bmod_eq_of_le (by omega) (by omega)] at value
    right
    omega
  unfold ofUnsigned
  split
  · exact narrow .one (by decide) ‹_›
  · split
    · exact narrow .two (by decide) ‹_›
    · split
      · exact narrow .three (by decide) ‹_›
      · exact .inl rfl

end Width

end Dvi
