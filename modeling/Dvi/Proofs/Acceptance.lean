/-
# Dvi.Proofs.Acceptance — which commands come back as they were written.

A command is written with all that it says exactly if each of its fields has room in its encoding
(`Command.Representable`). Of the fields that have none, a writer refuses characters and fonts without
an opcode and strings without a length; an operand that is too wide for its stored width is not refused
but cut, so what is read is another command (`command_kept_iff_representable`). What an operation emits
is said by what ending the session just before it and just after it leaves with the sink
(`Writer.Emits`), and what is read of that by a reader that starts at its first byte
(`Command.ReadFrom`).
-/
import Dvi.Proofs.Reader
import Dvi.Proofs.Writer.Refusal

namespace Dvi

namespace Command

/-! ## One command in a string of bytes -/

/-- A command that a reader takes off bytes, without any other and without an error. -/
def ReadFrom (c : Command) (octets : Bytes) : Prop :=
  (Reader.readAll (.ofBytes octets)).entries = [⟨0, c.bytes.length, c⟩]
    ∧ (Reader.readAll (.ofBytes octets)).error? = none

/-- What is read of a command that has an encoding is what is left of it, wherever it was written. -/
theorem readFrom_bytesAt {c : Command} (encodes : c.violation? = none) (start : Nat) :
    c.readBack.ReadFrom (c.bytesAt start) := by
  have first := Reader.next_encoded encodes 0 (c.filling (start + c.bytes.length)) none
  -- Filler follows only a command after which the reader does not look at it.
  have last : ∃ after, Reader.next ⟨⟨0 + c.bytes.length, c.filling (start + c.bytes.length)⟩, none,
      c.ends⟩ = (none, after) := by
    cases ends : c.ends with
    | true => exact ⟨_, Reader.next_of_done rfl⟩
    | false =>
      rw [filling_of_not_ends ends]
      exact ⟨_, rfl⟩
  obtain ⟨after, last⟩ := last
  have reads := Reader.readAll_of_entry first
  rw [Reader.readAll_of_end last] at reads
  have length : c.readBack.bytes.length = 0 + c.bytes.length := by
    rw [(readBack_spec encodes).2.1, Nat.zero_add]
  rw [ReadFrom, length]
  exact ⟨congrArg Reader.Reading.entries reads, congrArg Reader.Reading.error? reads⟩

/-- Only one command is read from bytes. -/
theorem ReadFrom.unique {c d : Command} {octets : Bytes} (first : c.ReadFrom octets)
    (second : d.ReadFrom octets) : c = d := by
  have same := first.1.symm.trans second.1
  exact congrArg Entry.command (List.cons.inj same).1

/-- A command that has an encoding is read from its bytes exactly if its operands fit. -/
theorem readFrom_bytesAt_iff {c : Command} (encodes : c.violation? = none) (start : Nat) :
    c.ReadFrom (c.bytesAt start) ↔ c.Fits := by
  have reads := readFrom_bytesAt encodes start
  rw [← c.readBack_eq_self_iff]
  constructor
  · intro unchanged
    exact reads.unique unchanged
  · intro same
    rwa [same] at reads

/-! ## Fields that fit -/

/-- A command all of whose fields have room in its encoding. -/
def Representable : Command → Prop
  | setChar code => code.toNat ≤ 127
  | fontNum number => number.toNat ≤ 63
  | set size code | put size code => size.FitsUnsigned code
  | selectFont size number => size.FitsUnsigned number
  | move _ size amount | space _ size amount => size.FitsSigned amount
  | special size payload => payload.length ≤ min (size.patterns - 1) 2147483647
  | fontDef size font =>
    size.FitsUnsigned font.number ∧ font.area.length ≤ 255 ∧ font.name.length ≤ 255
  | pre _ _ comment => comment.length ≤ 255
  | _ => True

/-- All fields of a command have room if what a writer checks has and the operands have. -/
theorem representable_iff (c : Command) :
    c.Representable ↔ (∀ v, ¬c.Unencodable v) ∧ c.Fits := by
  constructor
  · intro representable
    refine ⟨?_, ?_⟩
    · intro v unencodable
      cases unencodable with
      | setChar high | fontNum high => exact Nat.not_lt.mpr representable high
      | special long | comment long => exact Nat.not_lt.mpr representable long
      | area long => exact Nat.not_lt.mpr representable.2.1 long
      | name fits long => exact Nat.not_lt.mpr representable.2.2 long
    · cases c with
      | fontDef size font => exact representable.1
      | set | put | selectFont | move | space => exact representable
      | _ => trivial
  · rintro ⟨encodable, fits⟩
    cases c with
    | setChar code => exact Nat.le_of_not_lt fun high => encodable _ (.setChar high)
    | fontNum number => exact Nat.le_of_not_lt fun high => encodable _ (.fontNum high)
    | special size payload => exact Nat.le_of_not_lt fun long => encodable _ (.special long)
    | fontDef size font =>
      have area : font.area.length ≤ 255 := Nat.le_of_not_lt fun long => encodable _ (.area long)
      exact ⟨fits, area, Nat.le_of_not_lt fun long => encodable _ (.name area long)⟩
    | pre id units comment => exact Nat.le_of_not_lt fun long => encodable _ (.comment long)
    | set | put | selectFont | move | space => exact fits
    | _ => trivial

theorem violation?_eq_none_iff (c : Command) : c.violation? = none ↔ ∀ v, ¬c.Unencodable v := by
  rw [Option.eq_none_iff_forall_ne_some]
  exact forall_congr' fun v => not_congr (c.violation?_eq_some_iff v)

instance (c : Command) : Decidable c.Representable :=
  decidable_of_decidable_of_iff
    ((and_congr_left' c.violation?_eq_none_iff).trans c.representable_iff.symm)

end Command

/-! ## What an operation emits -/

/-- Bytes that were emitted between two states of a session: the later one is so much further, and to
end the session there leaves the sink with so much more. -/
def Writer.Emits (before after : Writer) (octets : Bytes) : Prop :=
  after.pos = before.pos + octets.length
    ∧ ∃ first last, finish before = .ok () first ∧ finish after = .ok () last
      ∧ last.sink.record.octets.toList = first.sink.record.octets.toList ++ octets

namespace Writer

variable {before after : Writer} {size : BufferSize} {origin : Sink} {draft : Draft}

theorem Represents.emits {octets : Bytes} {cache : Cache}
    (h : before.Represents size origin draft)
    (later : after.Represents size origin ⟨draft.octets ++ octets, cache⟩)
    (reliable : origin.Reliable) : before.Emits after octets := by
  obtain ⟨first, firstEnds, firstTaken⟩ := h.finish reliable
  obtain ⟨last, lastEnds, lastTaken⟩ := later.finish reliable
  refine ⟨?_, first, last, firstEnds, lastEnds, ?_⟩
  · rw [later.pos_eq, h.pos_eq, Draft.length, Draft.length, List.length_append]
  · rw [lastTaken, firstTaken, List.append_assoc]

/-- A command that is not refused is written, and what is left of it is read from what was emitted. -/
theorem Represents.command_readFrom (h : before.Represents size origin draft)
    (reliable : origin.Reliable) {c : Command} (encodes : c.violation? = none) :
    ∃ after emitted, Writer.command c before = .ok () after ∧ before.Emits after emitted
      ∧ c.readBack.ReadFrom emitted := by
  obtain ⟨after, run, later⟩ := (h.command encodes).ok_of_reliable reliable
  exact ⟨after, _, run, h.emits later reliable, Command.readFrom_bytesAt encodes _⟩

/-- On a reliable sink, a writer refuses a command exactly for what the format cannot represent of its
opcode and its strings, and emits nothing then. Any other command is written, and what is left of it is
read from what was emitted: the command itself if its operands fit as well, that is if all of its
fields are representable, and another command if they do not. -/
theorem command_kept_iff_representable (size : BufferSize) (sink : Sink) (reliable : sink.Reliable)
    (earlier : List Operation) (c : Command) :
    let writer := (attemptAll earlier (new sink size)).2
    (∀ v, (∃ after, command c writer = .error (.violation v) after) ↔ c.Unencodable v)
      ∧ (∀ v after, command c writer = .error (.violation v) after → after = writer)
      ∧ ((∀ v, ¬c.Unencodable v) →
        (∃ after emitted, command c writer = .ok () after ∧ writer.Emits after emitted
            ∧ c.readBack.ReadFrom emitted)
          ∧ (c.readBack = c ↔ c.Representable)) := by
  intro writer
  obtain ⟨-, h⟩ := (represents_new sink size).attemptAll reliable earlier
  -- A command is refused or written, so an answer tells which of the two it is.
  have names {v : Violation} {after : Writer}
      (answers : command c writer = .error (.violation v) after) :
      c.Unencodable v ∧ after = writer := by
    cases violates : c.violation? with
    | none =>
      obtain ⟨_, _, run, -⟩ := h.command_readFrom reliable violates
      rw [answers] at run
      cases run
    | some other =>
      rw [command_refused violates writer] at answers
      cases answers
      exact ⟨(c.violation?_eq_some_iff v).mp violates, rfl⟩
  refine ⟨fun v => ⟨?_, ?_⟩, ?_, ?_⟩
  · rintro ⟨after, answers⟩
    exact (names answers).1
  · intro unencodable
    exact ⟨writer, command_refused ((c.violation?_eq_some_iff v).mpr unencodable) writer⟩
  · intro v after answers
    exact (names answers).2
  · intro encodable
    refine ⟨h.command_readFrom reliable (c.violation?_eq_none_iff.mpr encodable), ?_⟩
    rw [c.readBack_eq_self_iff, c.representable_iff]
    exact ⟨fun fits => ⟨encodable, fits⟩, And.right⟩

/-- The lowest number that two bytes hold, written from the second half of a buffer of eight bytes. -/
theorem command_kept_iff_representable_at_the_lowest :
    Sink.unbounded.Reliable
      ∧ ∃ after emitted, command (.space .w .two (-32768))
            (attemptAll [.word 1, .word 2, .byte 3] (new .unbounded ⟨4, Nat.le_refl 4⟩)).2
          = .ok () after
        ∧ Emits (attemptAll [.word 1, .word 2, .byte 3] (new .unbounded ⟨4, Nat.le_refl 4⟩)).2 after
            emitted
        ∧ (Command.space .w .two (-32768)).ReadFrom emitted := by
  obtain ⟨-, -, accepted⟩ := command_kept_iff_representable ⟨4, Nat.le_refl 4⟩ .unbounded
    Sink.reliable_unbounded [.word 1, .word 2, .byte 3] (.space .w .two (-32768))
  obtain ⟨⟨after, emitted, run, emits, reads⟩, same⟩ := accepted nofun
  have representable : (Command.space .w .two (-32768)).Representable := by decide
  rw [same.mpr representable] at reads
  exact ⟨Sink.reliable_unbounded, after, emitted, run, emits, reads⟩

/-- One byte cannot hold 200 with a sign, and yet a movement to the right by 200 is written with one;
what is read is a movement to the left by 56. -/
theorem command_writes_another_movement :
    ¬(Command.move .horizontal .one 200).Representable
      ∧ ∃ after emitted, command (.move .horizontal .one 200) (new .unbounded ⟨4, Nat.le_refl 4⟩)
          = .ok () after
        ∧ (new .unbounded ⟨4, Nat.le_refl 4⟩).Emits after emitted
        ∧ (Command.move .horizontal .one (-56)).ReadFrom emitted := by
  refine ⟨by decide, ?_⟩
  exact (represents_new .unbounded ⟨4, Nat.le_refl 4⟩).command_readFrom Sink.reliable_unbounded rfl

end Writer

end Dvi
