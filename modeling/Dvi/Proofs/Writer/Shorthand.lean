/-
# Dvi.Proofs.Writer.Shorthand — operations that are short for one command.

Most operations of a writer choose the command themselves: the family from their name and the member
from their number. What they choose is said here from the side of the reader. A width is narrowest if
the reader recovers the number from it and from none below it (`Width.Narrowest`); movements take this
width as well, but for the three numbers that are exactly the lowest of one, two and three bytes, which
take one byte more (`Width.OfMovement`). The main statement is that whatever was written before, such an
operation emits the bytes of the one command that it is short for (`shorthand_reads_as_one_command`).
-/
import Dvi.Proofs.Acceptance

namespace Dvi

namespace Width

/-! ## The narrowest width of a number -/

/-- The narrowest width in which the reader recovers a number from a member of a family. -/
structure Narrowest (family : Width → Int32 → Command) (x : Int32) (size : Width) : Prop where
  recovers : (family size x).ReadFrom (family size x).bytes
  least : ∀ other, (family other x).ReadFrom (family other x).bytes → size.size ≤ other.size

/-- The width that is chosen for a movement: one in which the reader recovers the amount, and the
narrowest one unless the amount is the lowest number of one, two or three bytes. Then it is one byte
wider. -/
structure OfMovement (family : Width → Int32 → Command) (x : Int32) (size : Width) : Prop where
  recovers : (family size x).ReadFrom (family size x).bytes
  size_eq : ∃ least, Narrowest family x least
    ∧ size.size = least.size + if x = -128 ∨ x = -32768 ∨ x = -8388608 then 1 else 0

theorem eq_of_size {size other : Width} (h : size.size = other.size) : size = other := by
  cases size <;> cases other <;> first | rfl | contradiction

/-- There is one narrowest width, if any. -/
theorem Narrowest.unique {family : Width → Int32 → Command} {x : Int32} {size other : Width}
    (first : Narrowest family x size) (second : Narrowest family x other) : size = other :=
  eq_of_size (Nat.le_antisymm (first.least other second.recovers) (second.least size first.recovers))

/-- There is one width of a movement. -/
theorem OfMovement.unique {family : Width → Int32 → Command} {x : Int32} {size other : Width}
    (first : OfMovement family x size) (second : OfMovement family x other) : size = other := by
  obtain ⟨_, narrowest, size_eq⟩ := first.size_eq
  obtain ⟨_, same, other_eq⟩ := second.size_eq
  rw [← narrowest.unique same, ← size_eq] at other_eq
  exact (eq_of_size other_eq).symm

theorem size_le_four (size : Width) : size.size ≤ 4 := by
  cases size <;> decide

/-- The first width below which there is no room is at most any in which there is. -/
theorem size_first_le (room : Width → Prop) [DecidablePred room] {other : Width}
    (found : room other) :
    (if room one then one else if room two then two else if room three then three else four).size
      ≤ other.size := by
  cases other with
  | one => simp [found]
  | two =>
    split
    · decide
    · simp
  | three =>
    split
    · decide
    · split
      · decide
      · simp
  | four => exact size_le_four _

/-- An unsigned number fits no width below the one that is chosen for it. -/
theorem size_ofUnsigned_le {x : UInt32} {other : Width} (fits : other.FitsUnsigned x.toInt32) :
    (ofUnsigned x).size ≤ other.size := by
  rcases fits with rfl | ⟨nonneg, below⟩
  · exact size_le_four _
  · -- As a signed number it is not negative, and so the same number.
    have value : x.toInt32.toInt = (x.toNat : Int).bmod Int32.size := BitVec.toInt_eq_toNat_bmod _
    have word : Int32.size = 4294967296 := rfl
    have bound := x.toNat_lt
    have low : (x.toNat : Int) % Int32.size = x.toNat := Int.emod_eq_of_lt (by omega) (by omega)
    have same : x.toInt32.toInt = x.toNat := by
      rw [Int.bmod_def, low] at value
      split at value <;> omega
    have room : x.toNat < other.patterns := by omega
    exact size_first_le (fun size => x.toNat < size.patterns) room

/-- A signed number that is not exactly the lowest of a width fits no width below the one that is
chosen for it. -/
theorem size_ofSigned_le {x : Int32} {other : Width} (fits : other.FitsSigned x)
    (edge : ¬(x = -128 ∨ x = -32768 ∨ x = -8388608)) : (ofSigned x).size ≤ other.size := by
  have lowest {y : Int32} (ne : x ≠ y) : x.toInt ≠ y.toInt := fun same => ne (Int32.toInt_inj.mp same)
  have one_edge : x.toInt ≠ -128 := lowest fun same => edge (.inl same)
  have two_edge : x.toInt ≠ -32768 := lowest fun same => edge (.inr (.inl same))
  have three_edge : x.toInt ≠ -8388608 := lowest fun same => edge (.inr (.inr same))
  by_cases widest : other = .four
  · rw [widest]
    exact size_le_four _
  · have room : 2 * x.toInt.natAbs < other.patterns := by
      obtain ⟨low, high⟩ := fits
      have patterns : other.patterns = 256 ∨ other.patterns = 65536 ∨ other.patterns = 16777216 := by
        cases other with
        | one => exact .inl rfl
        | two => exact .inr (.inl rfl)
        | three => exact .inr (.inr rfl)
        | four => exact absurd rfl widest
      omega
    exact size_first_le (fun size => 2 * x.toInt.natAbs < size.patterns) room

/-- A number that is not negative can be stored without a sign in the width that is chosen for it as a
signed number. -/
theorem fitsUnsigned_ofSigned {x : Int32} (nonneg : 0 ≤ x.toInt) : (ofSigned x).FitsUnsigned x := by
  have high := (fitsSigned_ofSigned x).2
  right
  omega

end Width

namespace Command.Family

variable {base : UInt8} {family : Width → Int32 → Command}

/-- The reader recovers a number from a member of a family exactly if the width can store it. -/
theorem readFrom_iff (h : Family base family) (size : Width) (x : Int32) :
    (family size x).ReadFrom (family size x).bytes ↔ (family size x).Fits := by
  have encodes : (family size x).violation? = none := by
    cases h <;> rfl
  have going : (family size x).ends = false := by
    cases h <;> rfl
  have reads := readFrom_bytesAt_iff encodes 0
  rwa [bytesAt_of_not_ends going] at reads

/-- The width that is chosen for an unsigned number is narrowest, in a family whose operands have no
sign. -/
theorem narrowest (h : Family base family)
    (unsigned : ∀ size x, (family size x).Fits ↔ size.FitsUnsigned x) (x : UInt32) :
    Width.Narrowest family x.toInt32 (.ofUnsigned x) where
  recovers := by
    rw [h.readFrom_iff, unsigned]
    exact Width.fitsUnsigned_ofUnsigned x
  least other reads := by
    rw [h.readFrom_iff, unsigned] at reads
    exact Width.size_ofUnsigned_le reads

/-- In a family whose operands have a sign, a width is narrowest if the number fits it and none below
it. -/
theorem narrowest_of_fits (h : Family base family)
    (signed : ∀ size x, (family size x).Fits ↔ size.FitsSigned x) {x : Int32} {size : Width}
    (fits : size.FitsSigned x) (least : ∀ other : Width, other.FitsSigned x → size.size ≤ other.size) :
    Width.Narrowest family x size where
  recovers := by
    rw [h.readFrom_iff, signed]
    exact fits
  least other reads := by
    rw [h.readFrom_iff, signed] at reads
    exact least other reads

/-- The width that is chosen for a signed number is that of a movement, in a family whose operands have
a sign. -/
theorem ofMovement (h : Family base family)
    (signed : ∀ size x, (family size x).Fits ↔ size.FitsSigned x) (x : Int32) :
    Width.OfMovement family x (.ofSigned x) where
  recovers := by
    rw [h.readFrom_iff, signed]
    exact Width.fitsSigned_ofSigned x
  size_eq := by
    by_cases edge : x = -128 ∨ x = -32768 ∨ x = -8388608
    · -- The magnitude of the lowest number of a width is one more than the thresholds allow.
      rcases edge with rfl | rfl | rfl
      · refine ⟨.one, h.narrowest_of_fits signed (by decide) ?_, by decide⟩
        intro other _
        cases other <;> decide
      · refine ⟨.two, h.narrowest_of_fits signed (by decide) ?_, by decide⟩
        intro other
        cases other <;> decide
      · refine ⟨.three, h.narrowest_of_fits signed (by decide) ?_, by decide⟩
        intro other
        cases other <;> decide
    · rw [if_neg edge]
      exact ⟨_, h.narrowest_of_fits signed (Width.fitsSigned_ofSigned x)
        fun other fits => Width.size_ofSigned_le fits edge, rfl⟩

/-- Writing a number as a member of a family whose chosen width can store it is writing the member. -/
theorem perform_of_fits (h : Family base family) {x : Int32} (fits : (family (.ofSigned x) x).Fits) :
    (Operation.command (family (.ofSigned x) x)).Whole
      ∧ (Operation.member base x).perform = (Operation.command (family (.ofSigned x) x)).perform := by
  have plain := h.plain (.ofSigned x) x
  have perform := h.perform_eq x
  rw [(readBack_eq_self_iff _).mpr fits] at plain perform
  exact ⟨plain, perform⟩

end Command.Family

/-! ## What an operation is short for -/

namespace Operation

/-- An operation that chooses a command itself, with arguments for which there is one: no string is too
long, the font is not current already, and a number that is written as an unsigned operand is not
negative. -/
inductive Convenient (font : Option UInt32) : Operation → Prop
  | moveRight (d : Int32) : Convenient font (moveRight d)
  | moveDown (d : Int32) : Convenient font (moveDown d)
  | memberMove (axis : Axis) (d : Int32) : Convenient font (member (Opcode.moveBase axis) d)
  | memberSpace (spacing : Spacing) (d : Int32) :
    Convenient font (member (Opcode.spaceBase spacing) d)
  | memberSet {d : Int32} (nonneg : 0 ≤ d.toInt) : Convenient font (member Opcode.setBase d)
  | memberPut {d : Int32} (nonneg : 0 ≤ d.toInt) : Convenient font (member Opcode.putBase d)
  | memberFont {d : Int32} (nonneg : 0 ≤ d.toInt) : Convenient font (member Opcode.fontBase d)
  | setChar (code : UInt32) : Convenient font (setChar code)
  | selectFont {number : UInt32} (other : font ≠ some number) : Convenient font (selectFont number)
  | preamble (mag : UInt32) {comment : Bytes} (short : comment.length ≤ 255) :
    Convenient font (preamble mag comment)
  | fontDefinition (number : UInt8) (checksum : UInt32) (scale designSize : Int32)
    {area name : Bytes} (area_short : area.length ≤ 255) (name_short : name.length ≤ 255) :
    Convenient font (fontDefinition number checksum scale designSize area name)
  | beginPage (counters : Vector Int32 10) (prev : Int32) : Convenient font (beginPage counters prev)

/-- The command that a convenient operation is short for. The width of a movement is the one that is
said in `Width.OfMovement`, that of a character and of a font is the narrowest one. -/
inductive ShortFor : Operation → Command → Prop
  | moveRight {d : Int32} {size : Width} (width : size.OfMovement (.move .horizontal) d) :
    ShortFor (moveRight d) (.move .horizontal size d)
  | moveDown {d : Int32} {size : Width} (width : size.OfMovement (.move .vertical) d) :
    ShortFor (moveDown d) (.move .vertical size d)
  | memberMove {axis : Axis} {d : Int32} {size : Width} (width : size.OfMovement (.move axis) d) :
    ShortFor (member (Opcode.moveBase axis) d) (.move axis size d)
  | memberSpace {spacing : Spacing} {d : Int32} {size : Width}
    (width : size.OfMovement (.space spacing) d) :
    ShortFor (member (Opcode.spaceBase spacing) d) (.space spacing size d)
  | memberSet (d : Int32) : ShortFor (member Opcode.setBase d) (.set (.ofSigned d) d)
  | memberPut (d : Int32) : ShortFor (member Opcode.putBase d) (.put (.ofSigned d) d)
  | memberFont (d : Int32) : ShortFor (member Opcode.fontBase d) (.selectFont (.ofSigned d) d)
  | character {code : UInt32} (low : code < 128) : ShortFor (setChar code) (.setChar code.toUInt8)
  | wideCharacter {code : UInt32} {size : Width} (high : 128 ≤ code)
    (width : size.Narrowest .set code.toInt32) : ShortFor (setChar code) (.set size code.toInt32)
  | font {number : UInt32} (low : number < 64) :
    ShortFor (selectFont number) (.fontNum number.toUInt8)
  | wideFont {number : UInt32} {size : Width} (high : 64 ≤ number)
    (width : size.Narrowest .selectFont number.toInt32) :
    ShortFor (selectFont number) (.selectFont size number.toInt32)
  | preamble (mag : UInt32) (comment : Bytes) :
    ShortFor (preamble mag comment) (.pre 2 { num := 25400000, den := 473628672, mag } comment)
  | fontDefinition (number : UInt8) (checksum : UInt32) (scale designSize : Int32)
    (area name : Bytes) :
    ShortFor (fontDefinition number checksum scale designSize area name)
      (.fontDef .one { number := .ofNat number.toNat, checksum, scale, designSize, area, name })
  | beginPage (counters : Vector Int32 10) (prev : Int32) :
    ShortFor (beginPage counters prev) (.bop counters prev)

variable {op : Operation} {cache : Cache} {c : Command}

/-- An operation that is performed as one that writes a whole command, the one it is short for. -/
def Abbreviates (op : Operation) (cache : Cache) : Prop :=
  ∃ (whole : Operation) (c : Command), op.ShortFor c ∧ whole.Whole ∧ whole.command? cache = some c
    ∧ op.perform = whole.perform

theorem Whole.abbreviates (h : op.Whole) (chooses : op.command? cache = some c)
    (short : op.ShortFor c) : op.Abbreviates cache :=
  ⟨op, c, short, h, chooses, rfl⟩

/-- A member of a family is written as the command that it is. -/
theorem abbreviates_member {base : UInt8} {family : Width → Int32 → Command} {d : Int32}
    (h : Command.Family base family) (fits : (family (.ofSigned d) d).Fits)
    (short : (member base d).ShortFor (family (.ofSigned d) d)) :
    (member base d).Abbreviates cache := by
  obtain ⟨plain, perform⟩ := h.perform_of_fits fits
  exact ⟨command (family (.ofSigned d) d), _, short, plain, rfl, perform⟩

/-- Every convenient operation is performed as one that writes the command it is short for. -/
theorem Convenient.abbreviates (h : op.Convenient cache.font) : op.Abbreviates cache := by
  have movement (axis : Axis) (d : Int32) : Width.OfMovement (.move axis) d (.ofSigned d) :=
    (Command.Family.move axis).ofMovement (fun _ _ => Iff.rfl) d
  have spacing (spacing : Spacing) (d : Int32) : Width.OfMovement (.space spacing) d (.ofSigned d) :=
    (Command.Family.space spacing).ofMovement (fun _ _ => Iff.rfl) d
  cases h with
  | moveRight d => exact Whole.abbreviates trivial rfl (.moveRight (movement _ d))
  | moveDown d => exact Whole.abbreviates trivial rfl (.moveDown (movement _ d))
  | memberMove axis d =>
    exact abbreviates_member (.move axis) (Width.fitsSigned_ofSigned d)
      (.memberMove (movement axis d))
  | memberSpace register d =>
    exact abbreviates_member (.space register) (Width.fitsSigned_ofSigned d)
      (.memberSpace (spacing register d))
  | memberSet nonneg =>
    exact abbreviates_member .set (Width.fitsUnsigned_ofSigned nonneg) (.memberSet _)
  | memberPut nonneg =>
    exact abbreviates_member .put (Width.fitsUnsigned_ofSigned nonneg) (.memberPut _)
  | memberFont nonneg =>
    exact abbreviates_member .selectFont (Width.fitsUnsigned_ofSigned nonneg) (.memberFont _)
  | setChar code =>
    by_cases low : code < 128
    · exact Whole.abbreviates trivial (if_pos low) (.character low)
    · have width := Command.Family.set.narrowest (fun _ _ => Iff.rfl) code
      exact Whole.abbreviates trivial (if_neg low) (.wideCharacter (UInt32.not_lt.mp low) width)
  | @selectFont number other =>
    by_cases low : number < 64
    · refine Whole.abbreviates trivial ?_ (.font low)
      rw [command?, if_neg other, if_pos low]
    · have width := Command.Family.selectFont.narrowest (fun _ _ => Iff.rfl) number
      refine Whole.abbreviates trivial ?_ (.wideFont (UInt32.not_lt.mp low) width)
      rw [command?, if_neg other, if_neg low]
  | preamble mag short => exact Whole.abbreviates short rfl (.preamble mag _)
  | fontDefinition number checksum scale designSize area_short name_short =>
    exact Whole.abbreviates ⟨area_short, name_short⟩ rfl
      (.fontDefinition number checksum scale designSize _ _)
  | beginPage counters prev => exact Whole.abbreviates trivial rfl (.beginPage counters prev)

end Operation

namespace Writer

variable {writer : Writer} {size : BufferSize} {origin : Sink} {draft : Draft}

/-- A whole operation that is short for a command is performed, and the command is read from what was
emitted. -/
theorem Represents.whole_readFrom (h : writer.Represents size origin draft)
    (reliable : origin.Reliable) {op : Operation} (whole : op.Whole) {c : Command}
    (short : op.command? draft.cache = some c) :
    ∃ answer after emitted, op.perform writer = .ok answer after ∧ writer.Emits after emitted
      ∧ c.ReadFrom emitted := by
  have plain := whole.plain short
  obtain ⟨after, run, represents⟩ := (h.perform whole.adds whole.encodes).ok_of_reliable reliable
  refine ⟨_, after, _, run, h.emits represents reliable, ?_⟩
  rw [Operation.written_of_command? short]
  exact (Command.readFrom_bytesAt_iff plain.encodes _).mpr plain.fits

/-- On a reliable sink, and whatever was written before, a convenient operation emits the one command
that it is short for. -/
theorem shorthand_reads_as_one_command (size : BufferSize) (sink : Sink) (reliable : sink.Reliable)
    (earlier : List Operation) (op : Operation) :
    let writer := (attemptAll earlier (new sink size)).2
    op.Convenient writer.cache.font →
      ∃ c answer after emitted, op.ShortFor c ∧ op.perform writer = .ok answer after
        ∧ writer.Emits after emitted ∧ c.ReadFrom emitted := by
  intro writer convenient
  obtain ⟨-, h⟩ := (represents_new sink size).attemptAll reliable earlier
  obtain ⟨whole, c, short, is_whole, chooses, same⟩ := convenient.abbreviates
  have cache_eq : writer.cache = _ := h.cache_eq
  rw [cache_eq] at chooses
  obtain ⟨answer, after, emitted, run, emits, reads⟩ := h.whole_readFrom reliable is_whole chooses
  rw [← same] at run
  exact ⟨c, answer, after, emitted, short, run, emits, reads⟩

/-- The lowest movement of one signed byte, written across the edge of the first half of a buffer of
eight bytes, takes two. -/
theorem shorthand_reads_as_one_command_at_the_edge :
    Sink.unbounded.Reliable
      ∧ (Operation.moveRight (-128)).Convenient none
      ∧ ∃ answer after emitted, (Operation.moveRight (-128)).perform
            (attemptAll [.word 1, .byte 2, .byte 3] (new .unbounded ⟨4, Nat.le_refl 4⟩)).2
          = .ok answer after
        ∧ Emits (attemptAll [.word 1, .byte 2, .byte 3] (new .unbounded ⟨4, Nat.le_refl 4⟩)).2 after
            emitted
        ∧ (Command.move .horizontal .two (-128)).ReadFrom emitted := by
  obtain ⟨c, answer, after, emitted, short, run, emits, reads⟩ :=
    shorthand_reads_as_one_command ⟨4, Nat.le_refl 4⟩ .unbounded Sink.reliable_unbounded
      [.word 1, .byte 2, .byte 3] (.moveRight (-128)) (.moveRight _)
  refine ⟨Sink.reliable_unbounded, .moveRight _, answer, after, emitted, run, emits, ?_⟩
  cases short with
  | moveRight chosen =>
    rw [chosen.unique ((Command.Family.move .horizontal).ofMovement (fun _ _ => Iff.rfl) _)] at reads
    exact reads

end Writer

end Dvi
