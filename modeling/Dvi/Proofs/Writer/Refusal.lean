/-
# Dvi.Proofs.Writer.Refusal — what a writer refuses, and what a refusal leaves behind.

An operation is refused for what the format cannot represent, or because closing a group would take
back a byte that opens none. Which these are is said here without the checks of the writer: of a
command alone (`Command.Unencodable`), and of an operation by the stream that was written before it
(`Operation.Violates`). Whatever the sink answers, a writer that has not failed refuses exactly these
(`Represents.violates_iff`), and it is then what it was before. So the refused operations of a session
can be left out of it: every other one still answers what it answered, and leaves the same writer
(`refusals_leave_no_trace`).
-/
import Dvi.Proofs.Writer.Failure
import Dvi.Proofs.Writer.Groups

namespace Dvi

/-! ## What cannot be represented -/

/-- A command that the format cannot represent, and the violation that names the reason. Of a font
definition with two strings that are too long, the area is named. -/
inductive Command.Unencodable : Command → Violation → Prop
  | setChar {code : UInt8} (high : 127 < code.toNat) :
    Unencodable (.setChar code) (.charOutOfRange code)
  | fontNum {number : UInt8} (high : 63 < number.toNat) :
    Unencodable (.fontNum number) (.fontNumberOutOfRange number)
  | special {size : Width} {payload : Bytes}
    (long : min (size.patterns - 1) 2147483647 < payload.length) :
    Unencodable (.special size payload) (.specialTooLong payload.length size)
  | area {size : Width} {font : Font} (long : 255 < font.area.length) :
    Unencodable (.fontDef size font) (.areaTooLong font.area.length)
  | name {size : Width} {font : Font} (fits : font.area.length ≤ 255)
    (long : 255 < font.name.length) :
    Unencodable (.fontDef size font) (.nameTooLong font.name.length)
  | comment {id : UInt8} {units : Units} {comment : Bytes} (long : 255 < comment.length) :
    Unencodable (.pre id units comment) (.commentTooLong comment.length)

/-- What an operation is refused for, once the stream is `stream`. -/
inductive Operation.Violates (size : BufferSize) (stream : Bytes) : Operation → Violation → Prop
  | command {c : Command} {v : Violation} (unencodable : c.Unencodable v) :
    Violates size stream (.command c) v
  | area {number : UInt8} {checksum : UInt32} {scale designSize : Int32} {area name : Bytes}
    (long : 255 < area.length) :
    Violates size stream (.fontDefinition number checksum scale designSize area name)
      (.areaTooLong area.length)
  | name {number : UInt8} {checksum : UInt32} {scale designSize : Int32} {area name : Bytes}
    (fits : area.length ≤ 255) (long : 255 < name.length) :
    Violates size stream (.fontDefinition number checksum scale designSize area name)
      (.nameTooLong name.length)
  | comment {mag : UInt32} {comment : Bytes} (long : 255 < comment.length) :
    Violates size stream (.preamble mag comment) (.commentTooLong comment.length)
  /-- The last byte could be taken back, but it opens no group. -/
  | unmatchedPop {location : Nat} {found : UInt8} (here : location = stream.length)
    (inside : ¬size.bytes ∣ stream.length) (last : stream.getLast? = some found)
    (other : found ≠ Opcode.push.toByte) :
    Violates size stream (.bracketPop location) (.unmatchedPop found)

/-- A length field announces at most what its bytes tell apart, and at most what a signed number
holds. -/
theorem Width.maxLength_eq (size : Width) :
    size.maxLength = min (size.patterns - 1) 2147483647 := by
  cases size <;> rfl

namespace Command

/-- The strings of a font definition are checked in the order in which they stand. -/
theorem violation?_fontDef_eq_some_iff (size : Width) (font : Font) (v : Violation) :
    (fontDef size font).violation? = some v ↔
      255 < font.area.length ∧ v = .areaTooLong font.area.length
        ∨ font.area.length ≤ 255 ∧ 255 < font.name.length ∧ v = .nameTooLong font.name.length := by
  rw [violation?]
  by_cases area : 255 < font.area.length
  · have beyond : ¬font.area.length ≤ 255 := Nat.not_le.mpr area
    simp [area, beyond, eq_comm]
  · have fits : font.area.length ≤ 255 := Nat.le_of_not_lt area
    by_cases name : 255 < font.name.length <;> simp [area, fits, name, eq_comm]

/-- A command is refused for exactly what the format cannot represent of it. -/
theorem violation?_eq_some_iff (c : Command) (v : Violation) :
    c.violation? = some v ↔ c.Unencodable v := by
  constructor
  · intro refused
    cases c with
    | setChar code =>
      rw [violation?] at refused
      split at refused
      · cases refused
      · next high =>
        cases refused
        exact .setChar (Nat.lt_of_not_le fun low =>
          high (UInt8.lt_iff_toNat_lt.mpr (Nat.lt_succ_of_le low)))
    | fontNum number =>
      rw [violation?] at refused
      split at refused
      · cases refused
      · next high =>
        cases refused
        exact .fontNum (Nat.lt_of_not_le fun low =>
          high (UInt8.lt_iff_toNat_lt.mpr (Nat.lt_succ_of_le low)))
    | special size payload =>
      rw [violation?] at refused
      split at refused
      · cases refused
      · next long =>
        cases refused
        rw [Width.maxLength_eq] at long
        exact .special (Nat.lt_of_not_le long)
    | fontDef size font =>
      rcases (violation?_fontDef_eq_some_iff size font v).mp refused with ⟨long, rfl⟩
        | ⟨fits, long, rfl⟩
      · exact .area long
      · exact .name fits long
    | pre id units comment =>
      rw [violation?] at refused
      split at refused
      · cases refused
      · next long =>
        cases refused
        exact .comment (Nat.lt_of_not_le long)
    | _ => cases refused
  · intro unencodable
    cases unencodable with
    | setChar high =>
      exact if_neg fun low => Nat.not_lt.mpr (Nat.le_of_lt_succ (UInt8.lt_iff_toNat_lt.mp low)) high
    | fontNum high =>
      exact if_neg fun low => Nat.not_lt.mpr (Nat.le_of_lt_succ (UInt8.lt_iff_toNat_lt.mp low)) high
    | special long =>
      rw [← Width.maxLength_eq] at long
      exact if_neg (Nat.not_le.mpr long)
    | area long => exact (violation?_fontDef_eq_some_iff _ _ _).mpr (.inl ⟨long, rfl⟩)
    | name fits long => exact (violation?_fontDef_eq_some_iff _ _ _).mpr (.inr ⟨fits, long, rfl⟩)
    | comment long => exact if_neg (Nat.not_le.mpr long)

end Command

deriving instance DecidableEq for Operation

namespace Operation

/-- An operation that adds to the stream is refused exactly if what it is short for cannot be
represented, whatever the stream and whatever is remembered. -/
theorem refusal_eq_some_iff (size : BufferSize) (stream : Bytes) (cache : Cache) {op : Operation}
    (adds : ∀ location, op ≠ .bracketPop location) (v : Violation) :
    (op.command? cache).bind Command.violation? = some v ↔ op.Violates size stream v := by
  -- Every other operation chooses a command that has an encoding.
  have accepted (whole : op.Whole) (none : ¬op.Violates size stream v) :
      (op.command? cache).bind Command.violation? = some v ↔ op.Violates size stream v := by
    refine iff_of_false (fun refused => ?_) none
    obtain ⟨c, short, violates⟩ := Option.bind_eq_some_iff.mp refused
    rw [(whole.plain short).encodes] at violates
    cases violates
  cases op with
  | command c =>
    refine (c.violation?_eq_some_iff v).trans ⟨.command, ?_⟩
    rintro ⟨unencodable⟩
    exact unencodable
  | fontDefinition number checksum scale designSize area name =>
    refine (Command.violation?_fontDef_eq_some_iff .one _ v).trans ⟨?_, ?_⟩
    · rintro (⟨long, rfl⟩ | ⟨fits, long, rfl⟩)
      · exact .area long
      · exact .name fits long
    · intro violates
      cases violates with
      | area long => exact .inl ⟨long, rfl⟩
      | name fits long => exact .inr ⟨fits, long, rfl⟩
  | preamble mag comment =>
    refine (Command.violation?_eq_some_iff (.pre Writer.formatId (Writer.texUnits mag) comment)
      v).trans ⟨?_, ?_⟩
    · intro unencodable
      cases unencodable with
      | comment long => exact .comment long
    · intro violates
      cases violates with
      | comment long => exact .comment long
  | bracketPop location => exact absurd rfl (adds location)
  | beginPage | moveRight | moveDown | selectFont | setChar => exact accepted trivial nofun
  | addPage | setFont | setH | setV => exact accepted trivial nofun
  | byte | word | signedWord | member | push => exact iff_of_false nofun nofun

end Operation

namespace Draft

/-- Closing a group is refused exactly if the stream ends at its location, away from the edges of the
buffer, in a byte that opens none. -/
theorem bracketPop_refused_iff (size : BufferSize) (location : Nat) (draft : Draft) (v : Violation) :
    (draft.bracketPop size location).1 = .error (.violation v)
      ↔ (Operation.bracketPop location).Violates size draft.octets v := by
  have dvd_iff : size.bytes ∣ draft.octets.length ↔ draft.length % size.bytes = 0 :=
    Nat.dvd_iff_mod_eq_zero
  rw [bracketPop, erasable?]
  constructor
  · intro refused
    split at refused
    · next found erasable =>
      split at erasable
      · next place =>
        split at refused
        · cases refused
        · next other =>
          cases refused
          exact .unmatchedPop place.1 (fun edge => place.2 (dvd_iff.mp edge)) erasable other
      · cases erasable
    · cases refused
  · intro violates
    cases violates with
    | unmatchedPop here inside last other =>
      have place : location = draft.length ∧ draft.length % size.bytes ≠ 0 :=
        ⟨here, fun edge => inside (dvd_iff.mpr edge)⟩
      rw [if_pos place, last]
      exact congrArg Prod.fst (if_neg other)

/-- An operation on a draft is refused exactly for its violations. -/
theorem attempt_refused_iff (size : BufferSize) (op : Operation) (draft : Draft) (v : Violation) :
    (draft.attempt size op).1 = .error (.violation v) ↔ op.Violates size draft.octets v := by
  rcases op.closes_or_adds with ⟨location, rfl⟩ | adds
  · exact draft.bracketPop_refused_iff size location v
  · rw [attempt_of_adds adds, ← Operation.refusal_eq_some_iff size draft.octets draft.cache adds]
    cases (op.command? draft.cache).bind Command.violation? <;> simp

end Draft

namespace Writer

variable {writer : Writer} {size : BufferSize} {origin : Sink} {draft : Draft}

/-! ## What a writer refuses -/

/-- A writer that has not failed refuses every violation, and is left as it was. All checks come before
the first byte, so it does not matter how the sink would have answered. -/
theorem Represents.perform_of_violates (h : writer.Represents size origin draft) {op : Operation}
    {v : Violation} (violates : op.Violates size draft.octets v) :
    op.perform writer = .error (.violation v) writer := by
  rcases op.closes_or_adds with ⟨location, rfl⟩ | adds
  · cases violates with
    | @unmatchedPop _ found here inside last other =>
      have place : location = draft.length ∧ draft.length % size.bytes ≠ 0 :=
        ⟨here, fun edge => inside (Nat.dvd_of_mod_eq_zero edge)⟩
      have erasable : draft.erasable? size location = some found := (if_pos place).trans last
      have run : Writer.bracketPop location writer =
          .error (.violation (.unmatchedPop found)) writer := by
        rw [bracketPop_of_some ((h.erasable?_eq location).trans erasable), if_neg other]
        rfl
      exact bind_of_error run _
  · have refused := (Operation.refusal_eq_some_iff size draft.octets draft.cache adds v).mpr violates
    obtain ⟨c, short, unencodable⟩ := Option.bind_eq_some_iff.mp refused
    rw [Operation.refusable short unencodable]
    exact bind_of_error (command_refused unencodable writer) _

/-- What a writer that has not failed refuses is a violation, and it is left as it was. -/
theorem Represents.of_refused (h : writer.Represents size origin draft) {op : Operation}
    {v : Violation} {after : Writer} (refused : op.perform writer = .error (.violation v) after) :
    op.Violates size draft.octets v ∧ after = writer := by
  rcases h.perform_cases op with ⟨answer, middle, last, run, -⟩ | ⟨other, run, attempts⟩
    | ⟨e, middle, run, -⟩
  · rw [run] at refused
    cases refused
  · rw [run] at refused
    cases refused
    exact ⟨(draft.attempt_refused_iff size op _).mp (congrArg Prod.fst attempts), rfl⟩
  · rw [run] at refused
    cases refused

/-- A writer that has not failed refuses exactly the violations, whatever its sink answers. -/
theorem Represents.violates_iff (h : writer.Represents size origin draft) (op : Operation)
    (v : Violation) :
    (∃ after, op.perform writer = .error (.violation v) after)
      ↔ op.Violates size draft.octets v := by
  constructor
  · rintro ⟨after, refused⟩
    exact (h.of_refused refused).1
  · intro violates
    exact ⟨writer, h.perform_of_violates violates⟩

/-- A session that has not failed yet represents what the same operations leave on a plain list. -/
theorem represents_of_performAll {sink : Sink} {before : List Operation}
    (reached : performAll before (new sink size) = .ok () writer) :
    writer.Represents size sink (Draft.attemptAll size before {}).2 := by
  rcases (represents_new sink size).performAll before with ⟨after, run, represents⟩
    | ⟨_, _, _, _, e, after, _, _, _, _, stops, _⟩
  · rw [reached] at run
    cases run
    exact represents
  · rw [reached] at stops
    cases stops

/-! ## Leaving refusals out -/

/-- An answer after which a session goes on. -/
def goesOn : Except WriteError (Option Nat) → Bool
  | .error e => !e.isFatal
  | .ok _ => true

/-- An answer that names a violation. -/
def isRefusal : Except WriteError (Option Nat) → Bool
  | .error (.violation _) => true
  | _ => false

/-- What comes of operations that are performed in order, up to the first at which the sink fails: each
answer, with the writer after it. -/
def answers : List Operation → Writer → List (Except WriteError (Option Nat) × Writer)
  | [], _ => []
  | op :: ops, writer =>
    let (answer, after) := writer.attempt op
    (answer, after) :: if goesOn answer then answers ops after else []

/-- The same operations without those that are refused. -/
def unrefused : List Operation → Writer → List Operation
  | [], _ => []
  | op :: ops, writer =>
    let (answer, after) := writer.attempt op
    let rest := if goesOn answer then unrefused ops after else ops
    if isRefusal answer then rest else op :: rest

theorem unrefused_sublist (ops : List Operation) (writer : Writer) :
    (unrefused ops writer).Sublist ops := by
  induction ops generalizing writer with
  | nil => exact .slnil
  | cons op ops ih =>
    have rest : (if goesOn (writer.attempt op).1 then unrefused ops (writer.attempt op).2
        else ops).Sublist ops := by
      split
      · exact ih _
      · exact List.Sublist.refl ops
    rw [unrefused]
    dsimp only
    split
    · exact .cons op rest
    · exact .cons_cons op rest

/-- Without its refused operations a session answers all the others as before, each from the same
writer, and comes to the same end. -/
theorem Represents.unrefused (h : writer.Represents size origin draft) (ops : List Operation) :
    answers (Writer.unrefused ops writer) writer = (answers ops writer).filter (!isRefusal ·.1)
      ∧ Writer.performAll (Writer.unrefused ops writer) writer = Writer.performAll ops writer := by
  induction ops generalizing writer draft with
  | nil => exact ⟨rfl, rfl⟩
  | cons op ops ih =>
    rcases h.perform_cases op with ⟨answer, after, last, run, -, represents⟩ | ⟨v, run, -⟩
      | ⟨e, after, run, -⟩
    · -- The operation answers, so it stays and the rest goes on from the writer that it leaves.
      have attempts : writer.attempt op = (.ok answer, after) := by
        rw [Writer.attempt, run]
      have stays : Writer.unrefused (op :: ops) writer = op :: Writer.unrefused ops after := by
        rw [Writer.unrefused, attempts]
        rfl
      have goes (later : List Operation) :
          answers (op :: later) writer = (.ok answer, after) :: answers later after := by
        rw [answers, attempts]
        rfl
      have performs (later : List Operation) :
          Writer.performAll (op :: later) writer = Writer.performAll later after := by
        rw [Writer.performAll, run]
      obtain ⟨same, ends⟩ := ih represents
      rw [stays, goes, goes, performs, performs, same, ends]
      exact ⟨rfl, rfl⟩
    · -- A refused operation leaves the writer to the rest as it was.
      have attempts : writer.attempt op = (.error (.violation v), writer) := by
        rw [Writer.attempt, run]
      have falls : Writer.unrefused (op :: ops) writer = Writer.unrefused ops writer := by
        rw [Writer.unrefused, attempts]
        rfl
      have goes : answers (op :: ops) writer
          = (.error (.violation v), writer) :: answers ops writer := by
        rw [answers, attempts]
        rfl
      have performs : Writer.performAll (op :: ops) writer = Writer.performAll ops writer := by
        rw [Writer.performAll, run]
        rfl
      rw [falls, goes, performs]
      exact ih h
    · -- Nothing is performed after the sink has failed.
      have attempts : writer.attempt op = (.error (.sink e), after) := by
        rw [Writer.attempt, run]
      have stays : Writer.unrefused (op :: ops) writer = op :: ops := by
        rw [Writer.unrefused, attempts]
        rfl
      have goes : answers (op :: ops) writer = [(.error (.sink e), after)] := by
        rw [answers, attempts]
        rfl
      rw [stays, goes]
      exact ⟨rfl, rfl⟩

/-- Ending a session is never refused. -/
theorem Represents.finish_not_refused (h : writer.Represents size origin draft) (v : Violation)
    (after : Writer) : Writer.finish writer ≠ .error (.violation v) after := by
  intro refused
  rcases h.finish_cases with ⟨_, _, _, _, run⟩ | ⟨e, _, run, _, _⟩
  · rw [refused] at run
    cases run
  · rw [refused] at run
    cases run

/-- Whatever the sink answers, a writer that has not failed refuses an operation exactly for the
violations of what the sink and the buffer hold, ending a session is never refused, and a refusal
leaves all as it was: cells, cursors, cache and sink. So if the refused operations of a session are
left out, the others answer as before from the same writers, and the session comes to the same end. -/
theorem refusals_leave_no_trace (size : BufferSize) (sink : Sink) (before : List Operation)
    (writer : Writer) (reached : performAll before (new sink size) = .ok () writer) :
    ∃ stream : Bytes, writer.pos = stream.length
      ∧ writer.sink.record.octets.toList ++ writer.buffer.pending
          = sink.record.octets.toList ++ stream
      ∧ (∀ (op : Operation) (v : Violation), (∃ after, op.perform writer = .error (.violation v) after)
          ↔ op.Violates size stream v)
      ∧ (∀ (op : Operation) (v : Violation) (after : Writer),
          op.perform writer = .error (.violation v) after → after = writer)
      ∧ (∀ v after, finish writer ≠ .error (.violation v) after)
      ∧ ∀ ops, (unrefused ops writer).Sublist ops
        ∧ answers (unrefused ops writer) writer = (answers ops writer).filter (!isRefusal ·.1)
        ∧ performAll (unrefused ops writer) writer = performAll ops writer := by
  have h := represents_of_performAll reached
  refine ⟨(Draft.attemptAll size before {}).2.octets, h.pos_eq, ?_, h.violates_iff, ?_,
    h.finish_not_refused, ?_⟩
  · rw [h.taken, h.holds.pending_eq, List.append_assoc, List.take_append_drop]
  · intro op v after refused
    exact (h.of_refused refused).2
  · intro ops
    exact ⟨unrefused_sublist ops writer, h.unrefused ops⟩

/-- A disk with room for three bytes. Closing a group that was closed already is refused, and so is a
character without an opcode; without the two the session ends at the same byte. -/
theorem refusals_leave_no_trace_on_a_small_disk :
    ∃ writer, performAll [.push, .bracketPop 1, .byte 65] (new (.bounded 3) ⟨4, Nat.le_refl 4⟩)
        = .ok () writer
      ∧ (∃ after, (Operation.bracketPop 1).perform writer
          = .error (.violation (.unmatchedPop 65)) after)
      ∧ performAll [.word 7, .word 8, .byte 9] writer
        = performAll [.bracketPop 1, .word 7, .command (.setChar 200), .word 8, .byte 9] writer := by
  let writer : Writer :=
    ⟨⟨⟨4, Nat.le_refl 4⟩, #[65, 0, 0, 0, 0, 0, 0, 0, 0], 8, 1, 0, 0⟩, {}, .bounded 3⟩
  obtain ⟨stream, -, held, refuses, -, -, without⟩ := refusals_leave_no_trace ⟨4, Nat.le_refl 4⟩
    (.bounded 3) [.push, .bracketPop 1, .byte 65] writer rfl
  obtain ⟨-, -, ends⟩ :=
    without [.bracketPop 1, .word 7, .command (.setChar 200), .word 8, .byte 9]
  have stream_eq : stream = [65] := held.symm
  have kept : unrefused [.bracketPop 1, .word 7, .command (.setChar 200), .word 8, .byte 9] writer
      = [.word 7, .word 8, .byte 9] := by
    decide +kernel
  rw [kept] at ends
  rw [stream_eq] at refuses
  exact ⟨writer, rfl, (refuses _ _).mpr (.unmatchedPop rfl (by decide) rfl (by decide)), ends⟩

end Writer

end Dvi
