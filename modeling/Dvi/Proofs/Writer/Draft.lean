/-
# Dvi.Proofs.Writer.Draft — a stream that is written without a buffer.

A draft is the plain list of the bytes of a stream, together with what its writer remembers. What an
operation does to a draft is said here from scratch: most operations are short for one command
(`Operation.command?`), some add bytes of their own, and all of them add at the end (`written`),
except that closing a group may take the last byte back (`Draft.bracketPop`). There are no halves, no
cursors and no sink, and the size of a buffer matters in one place only: a byte is not taken back
where a stream ends at a multiple of it.

That a writer does the same as a draft is the subject of `Dvi.Proofs.Writer.Refinement`.
-/
import Dvi.Proofs.Command.Placement
import Dvi.Writer.Session

namespace Dvi

/-- What a writer remembers after a command: a `bop` counts a page. -/
def Command.remembered (cache : Cache) : Command → Cache
  | .bop _ _ => { cache with pages := cache.pages + 1 }
  | _ => cache

/-- A stream as a plain list of bytes, and what its writer remembers. -/
structure Draft where
  octets : Bytes := []
  cache : Cache := {}
deriving DecidableEq

namespace Operation

/-- The command that an operation is short for, if it is short for one. A font that is current is
not selected again. -/
def command? (cache : Cache) : Operation → Option Command
  | fontDefinition number checksum scale designSize area name =>
    some (.fontDef .one
      { number := Int32.ofNat number.toNat, checksum, scale, designSize, area, name })
  | push => some .push
  | beginPage counters prev => some (.bop counters prev)
  | moveRight d => some (.move .horizontal (.ofSigned d) d)
  | moveDown d => some (.move .vertical (.ofSigned d) d)
  | selectFont number =>
    if cache.font = some number then none
    else if number < 64 then some (.fontNum number.toUInt8)
    else some (.selectFont (.ofUnsigned number) number.toInt32)
  | setChar code =>
    if code < 128 then some (.setChar code.toUInt8)
    else some (.set (.ofUnsigned code) code.toInt32)
  | preamble mag comment => some (.pre Writer.formatId (Writer.texUnits mag) comment)
  | command c => some c
  | byte _ | word _ | signedWord _ | member _ _ | bracketPop _ | addPage | setFont _ | setH _
  | setV _ => none

/-- The bytes that an operation adds to a stream, from what its writer remembers and from the
position at which it starts. -/
def written (cache : Cache) (start : Nat) : Operation → Bytes
  | byte b => [b]
  | word x => Encoder.word x
  | signedWord x => Encoder.signedWord x
  | member base x => Opcode.member base (.ofSigned x) :: Encoder.stored (.ofSigned x) x
  | bracketPop _ => [Opcode.pop.toByte]
  | op =>
    match op.command? cache with
    | some c => c.bytesAt start
    | none => []

/-- What a writer remembers after an operation. -/
def remembered (cache : Cache) : Operation → Cache
  | command c => c.remembered cache
  | beginPage _ _ => { pages := cache.pages + 1, font := none, h := 0, v := 0 }
  | moveRight d => { cache with h := cache.h + d }
  | moveDown d => { cache with v := cache.v + d }
  | selectFont number => { cache with font := some number }
  | addPage => { cache with pages := cache.pages + 1 }
  | setFont font => { cache with font }
  | setH h => { cache with h }
  | setV v => { cache with v }
  | _ => cache

/-- The position that an operation answers: a group begins after its `push`, a page at its `bop`. -/
def answer (start : Nat) : Operation → Option Nat
  | push => some (start + 1)
  | beginPage _ _ => some start
  | _ => none

/-- An operation that is short for a command adds what the command adds. -/
theorem written_of_command? {cache : Cache} {op : Operation} {c : Command}
    (h : op.command? cache = some c) (start : Nat) : op.written cache start = c.bytesAt start := by
  cases op with
  | byte | word | signedWord | member | bracketPop | addPage | setFont | setH | setV => cases h
  | _ => rw [written, h] <;> simp

/-- Closing a group is the only operation that may take something away. -/
theorem closes_or_adds (op : Operation) :
    (∃ location, op = .bracketPop location) ∨ ∀ location, op ≠ .bracketPop location := by
  cases op with
  | bracketPop location => exact .inl ⟨location, rfl⟩
  | _ => exact .inr nofun

/-- A number that fits the short form of a command also does so as a byte. -/
theorem toUInt8_lt {x : UInt32} {bound : UInt8} (h : x.toNat < bound.toNat) : x.toUInt8 < bound := by
  rw [UInt8.lt_iff_toNat_lt, UInt32.toNat_toUInt8]
  exact Nat.lt_of_le_of_lt (Nat.mod_le _ _) h

/-- Only three operations are short for commands that may lack an encoding; the other ones choose a
command that has one. -/
theorem refusable {cache : Cache} {op : Operation} {c : Command} {v : Violation}
    (short : op.command? cache = some c) (h : c.violation? = some v) :
    op.perform = (Writer.command c >>= fun _ => pure none) := by
  cases op with
  | fontDefinition | preamble | command =>
    cases short
    rfl
  | push | beginPage | moveRight | moveDown =>
    cases short
    cases h
  | selectFont number =>
    rw [command?] at short
    split at short
    · cases short
    · split at short
      · next small =>
        cases short
        rw [Command.violation?, if_pos (toUInt8_lt (UInt32.lt_iff_toNat_lt.mp small))] at h
        cases h
      · cases short
        cases h
  | setChar code =>
    rw [command?] at short
    split at short
    · next small =>
      cases short
      rw [Command.violation?, if_pos (toUInt8_lt (UInt32.lt_iff_toNat_lt.mp small))] at h
      cases h
    · cases short
      cases h
  | byte | word | signedWord | member | bracketPop | addPage | setFont | setH | setV => cases short

end Operation

namespace Draft

/-- The length of the stream so far. -/
def length (draft : Draft) : Nat :=
  draft.octets.length

/-- More bytes at the end. -/
def append (octets : Bytes) (draft : Draft) : Draft :=
  { draft with octets := draft.octets ++ octets }

/-- The byte that closing the group opened just before `location` may take back: the last one, if
nothing follows the place and the stream does not end at a multiple of the size of the buffer. -/
def erasable? (size : BufferSize) (location : Nat) (draft : Draft) : Option UInt8 :=
  if location = draft.length ∧ draft.length % size.bytes ≠ 0 then draft.octets.getLast? else none

/-- Closes the group that was opened just before `location`. A `push` that may be taken back is taken
back, and any other byte in its place is reported; where there is none, a `pop` is added. -/
def bracketPop (size : BufferSize) (location : Nat) (draft : Draft) :
    Except WriteError (Option Nat) × Draft :=
  match draft.erasable? size location with
  | some found =>
    if found = Opcode.push.toByte then
      (.ok none, { draft with octets := draft.octets.dropLast })
    else (.error (.violation (.unmatchedPop found)), draft)
  | none => (.ok none, draft.append [Opcode.pop.toByte])

/-- A `push` at the end, away from the edges of the buffer, is taken back. -/
theorem bracketPop_takes {size : BufferSize} {location : Nat} {octets : Bytes} {cache : Cache}
    (here : location = (octets ++ [Opcode.push.toByte]).length)
    (inside : (octets ++ [Opcode.push.toByte]).length % size.bytes ≠ 0) :
    bracketPop size location ⟨octets ++ [Opcode.push.toByte], cache⟩ =
      (.ok none, ⟨octets, cache⟩) := by
  have found : erasable? size location ⟨octets ++ [Opcode.push.toByte], cache⟩ =
      some Opcode.push.toByte :=
    (if_pos ⟨here, inside⟩).trans List.getLast?_concat
  rw [bracketPop, found]
  simp only [if_true, List.dropLast_concat]

/-- Anywhere else a `pop` is added. -/
theorem bracketPop_adds {size : BufferSize} {location : Nat} {draft : Draft}
    (h : ¬(location = draft.length ∧ draft.length % size.bytes ≠ 0)) :
    draft.bracketPop size location = (.ok none, draft.append [Opcode.pop.toByte]) := by
  have found : draft.erasable? size location = none := if_neg h
  rw [bracketPop, found]

/-- Performs an operation. One that is short for a command without an encoding is refused. -/
def attempt (size : BufferSize) (op : Operation) (draft : Draft) :
    Except WriteError (Option Nat) × Draft :=
  match op with
  | .bracketPop location => draft.bracketPop size location
  | op =>
    match (op.command? draft.cache).bind Command.violation? with
    | some v => (.error (.violation v), draft)
    | none =>
      (.ok (op.answer draft.length),
        { octets := draft.octets ++ op.written draft.cache draft.length
          cache := op.remembered draft.cache })

/-- Every operation but closing a group is refused if the command that it is short for has no
encoding, and otherwise adds what it says. -/
theorem attempt_of_adds {size : BufferSize} {op : Operation} {draft : Draft}
    (adds : ∀ location, op ≠ .bracketPop location) :
    draft.attempt size op =
      match (op.command? draft.cache).bind Command.violation? with
      | some v => (.error (.violation v), draft)
      | none =>
        (.ok (op.answer draft.length),
          { octets := draft.octets ++ op.written draft.cache draft.length
            cache := op.remembered draft.cache }) := by
  cases op with
  | bracketPop location => exact absurd rfl (adds location)
  | _ => rfl

/-- Performs operations in order, going on after those that are refused. Each answer comes with the
length of the stream after it. -/
def attemptAll (size : BufferSize) :
    List Operation → Draft → List (Except WriteError (Option Nat) × Nat) × Draft
  | [], draft => ([], draft)
  | op :: ops, draft =>
    let (answer, after) := draft.attempt size op
    let (answers, last) := attemptAll size ops after
    ((answer, after.length) :: answers, last)

end Draft

namespace Writer

/-- Performs an operation and goes on, whatever comes of it. -/
def attempt (op : Operation) (writer : Writer) : Except WriteError (Option Nat) × Writer :=
  match op.perform writer with
  | .ok answer after => (.ok answer, after)
  | .error e after => (.error e, after)

/-- Performs operations in order, going on after those that fail. Each answer comes with the
position after it. -/
def attemptAll :
    List Operation → Writer → List (Except WriteError (Option Nat) × Nat) × Writer
  | [], writer => ([], writer)
  | op :: ops, writer =>
    let (answer, after) := writer.attempt op
    let (answers, last) := attemptAll ops after
    ((answer, after.pos) :: answers, last)

end Writer

end Dvi
