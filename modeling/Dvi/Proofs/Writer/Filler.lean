/-
# Dvi.Proofs.Writer.Filler — the end of a postamble brings a stream to a multiple of four bytes.

How much filler follows the end of the postamble is computed from the position of the writer, in the
middle of a command, while halves may be handed on and after groups may have been taken back. It comes out
right because the position is the length of the stream in every state in which the sink has not failed
(`Represents.hasWritten`), and then no other number from four to seven would do (`fillerCount_eq_iff`).
Filler consists of bytes that are opcodes. A reader passes none of them: behind commands it comes to the
end of the postamble and stays there, whatever follows (`Reader.readAll_through_end`). The main statement is
`postamble_is_padded`.
-/
import Dvi.Proofs.Passage
import Dvi.Proofs.Writer.Refusal

namespace Dvi

open Command (bytesOf)

/-- Of four successive numbers of fillers exactly one brings a position to a multiple of four. -/
theorem Writer.fillerCount_eq_iff (stop k : Nat) :
    k = fillerCount stop ↔ 4 ≤ k ∧ k ≤ 7 ∧ 4 ∣ stop + k := by
  unfold fillerCount
  omega

/-! ## Reading to the end of the postamble -/

namespace Reader

/-- Bytes of commands that do not end the stream lead to what stands behind them. -/
theorem leads_bytesOf {cs : List Command} (inside : ∀ c ∈ cs, c.violation? = none ∧ c.ends = false)
    (start : Nat) (rest : Bytes) :
    ∃ entries, Leads { cursor := ⟨start, bytesOf cs ++ rest⟩ } entries
      { cursor := ⟨start + (bytesOf cs).length, rest⟩ } := by
  induction cs generalizing start with
  | nil => exact ⟨[], .here _⟩
  | cons c cs ih =>
    obtain ⟨encodes, going⟩ := inside c List.mem_cons_self
    have first := next_encoded encodes start (bytesOf cs ++ rest) none
    rw [going] at first
    obtain ⟨entries, later⟩ := ih (fun other member => inside other (List.mem_cons_of_mem _ member))
      (start + c.bytes.length)
    rw [Nat.add_assoc, ← List.length_append] at later
    rw [Command.bytesOf_cons, List.append_assoc]
    exact ⟨_, .take first later⟩

/-- Behind commands that do not end the stream, one that does is the last that is read. -/
theorem readAll_through_end {cs : List Command} (inside : ∀ c ∈ cs, c.violation? = none ∧ c.ends = false)
    {c : Command} (encodes : c.violation? = none) (ends : c.ends = true) (rest : Bytes) :
    let reading := readAll (.ofBytes (bytesOf cs ++ (c.bytes ++ rest)))
    reading.error? = none
      ∧ reading.entries.getLast? = some (.ofPlaced ((bytesOf cs).length, c))
      ∧ reading.reader.offset = (bytesOf cs).length + c.bytes.length
      ∧ reading.reader.next = (none, reading.reader) := by
  intro reading
  obtain ⟨entries, leads⟩ := leads_bytesOf inside 0 (c.bytes ++ rest)
  rw [Nat.zero_add] at leads
  have last := next_encoded encodes (bytesOf cs).length rest none
  rw [ends] at last
  have all : reading = ⟨entries ++ [.ofPlaced ((bytesOf cs).length, c)], none,
      { cursor := ⟨(bytesOf cs).length + c.bytes.length, rest⟩, done := true }⟩ := by
    show readAll { cursor := ⟨0, bytesOf cs ++ (c.bytes ++ rest)⟩ } = _
    rw [leads.readAll_eq, readAll_of_entry last, readAll_of_end (next_of_done rfl)]
  rw [all]
  exact ⟨rfl, List.getLast?_concat, rfl, next_of_done rfl⟩

end Reader

namespace Operation

/-- An operation that writes a command as it is described, other than the end of the postamble, or that
writes nothing and only changes what is remembered. -/
def Describes : Operation → Prop
  | command c => c.ends = false
  | addPage | setFont _ | setH _ | setV _ => True
  | _ => False

end Operation

namespace Draft

/-- What such an operation adds are the bytes of a command, or nothing. -/
theorem octets_attempt_of_describes (size : BufferSize) {op : Operation} (describes : op.Describes)
    (draft : Draft) :
    ∃ cs : List Command, (∀ c ∈ cs, c.violation? = none ∧ c.ends = false)
      ∧ (draft.attempt size op).2.octets = draft.octets ++ bytesOf cs := by
  cases op with
  | command c =>
    have going : c.ends = false := describes
    cases violates : c.violation? with
    | none =>
      refine ⟨[c], by simp [violates, going], ?_⟩
      simp [attempt, Operation.command?, Operation.written, violates,
        Command.bytesAt_of_not_ends going]
    | some v => exact ⟨[], by simp, by simp [attempt, Operation.command?, violates]⟩
  | addPage | setFont | setH | setV =>
    exact ⟨[], by simp, by simp [attempt, Operation.command?, Operation.written]⟩
  | _ => exact describes.elim

/-- A session of such operations leaves the bytes of commands. -/
theorem octets_attemptAll_of_describes (size : BufferSize) {ops : List Operation}
    (describes : ∀ op ∈ ops, op.Describes) (draft : Draft) :
    ∃ cs : List Command, (∀ c ∈ cs, c.violation? = none ∧ c.ends = false)
      ∧ (draft.attemptAll size ops).2.octets = draft.octets ++ bytesOf cs := by
  induction ops generalizing draft with
  | nil => exact ⟨[], by simp, by simp [attemptAll]⟩
  | cons op ops ih =>
    obtain ⟨first, inside, adds⟩ :=
      octets_attempt_of_describes size (describes op List.mem_cons_self) draft
    obtain ⟨later, alsoInside, rest⟩ := ih
      (fun other member => describes other (List.mem_cons_of_mem _ member)) (draft.attempt size op).2
    refine ⟨first ++ later, ?_, ?_⟩
    · intro c member
      exact (List.mem_append.mp member).elim (inside c) (alsoInside c)
    · show (attemptAll size ops (draft.attempt size op).2).2.octets = _
      rw [rest, adds, Command.bytesOf_append, List.append_assoc]

end Draft

namespace Writer

variable {writer after : Writer} {size : BufferSize} {origin : Sink} {draft : Draft}

/-! ## The stream of a writer -/

/-- What was written in a session that began on the sink `origin`: all that the sink has taken since and
what is still in the buffer, up to the position of the writer. -/
structure HasWritten (writer : Writer) (origin : Sink) (stream : Bytes) : Prop where
  pos_eq : writer.pos = stream.length
  held : writer.sink.record.octets.toList ++ writer.buffer.pending
    = origin.record.octets.toList ++ stream

/-- Nothing else was written. -/
theorem HasWritten.unique {one two : Bytes} (first : writer.HasWritten origin one)
    (second : writer.HasWritten origin two) : one = two :=
  List.append_cancel_left (first.held.symm.trans second.held)

theorem Represents.hasWritten (h : writer.Represents size origin draft) :
    writer.HasWritten origin draft.octets where
  pos_eq := h.pos_eq
  held := by rw [h.taken, h.holds.pending_eq, List.append_assoc, List.take_append_drop]

/-- A session that has come to its end has given the sink the whole stream. -/
theorem Represents.hasTaken_of_finish (h : writer.Represents size origin draft)
    (ends : Writer.finish writer = .ok () after) : after.sink.HasTaken origin draft.octets := by
  rcases h.finish_cases with ⟨given, other, taken, flushed, run⟩ | ⟨e, broken, fails, -, -⟩
  · rw [ends] at run
    cases run
    have same := given.octets_flush
    rw [flushed] at same
    rw [Sink.HasTaken, same, taken]
  · rw [ends] at fails
    cases fails

/-- A session whose accepted operations describe commands has written these commands. -/
theorem bytesOf_of_describes {sink : Sink} {before : List Operation} {stream : Bytes}
    (reached : performAll before (new sink size) = .ok () writer)
    (written : writer.HasWritten sink stream)
    (describes : ∀ op ∈ unrefused before (new sink size), op.Describes) :
    ∃ cs : List Command, (∀ c ∈ cs, c.violation? = none ∧ c.ends = false) ∧ stream = bytesOf cs := by
  -- The operations that were refused have left no trace, so the session may be taken without them.
  have without := ((represents_new sink size).unrefused before).2.trans reached
  obtain ⟨cs, inside, octets⟩ := Draft.octets_attemptAll_of_describes size describes {}
  exact ⟨cs, inside, (written.unique (represents_of_performAll without).hasWritten).trans octets⟩

/-- An end of a postamble that was written has added its bytes, and the filler for the position behind
them. -/
theorem Represents.of_postPost (h : writer.Represents size origin draft) {pointer : Int32}
    {id : UInt8} (written : Writer.command (.postPost pointer id) writer = .ok () after) :
    ∃ cache, after.Represents size origin ⟨draft.octets ++ ((Command.postPost pointer id).bytes
      ++ List.replicate (fillerCount (writer.pos + 6)) 223), cache⟩ := by
  rcases h.command (c := .postPost pointer id) rfl with ⟨other, run, represents⟩ | ⟨e, other, run, -⟩
  · rw [written] at run
    cases run
    rw [h.pos_eq]
    exact ⟨_, represents⟩
  · rw [written] at run
    cases run

/-- A stream of commands as they were described is read up to the end of the postamble that follows it. -/
theorem reads_to_postPost {sink : Sink} {before : List Operation} {stream : Bytes} (pointer : Int32)
    (id : UInt8) (fillers : Nat) (reached : performAll before (new sink size) = .ok () writer)
    (written : writer.HasWritten sink stream)
    (describes : ∀ op ∈ unrefused before (new sink size), op.Describes) :
    let octets := (Command.postPost pointer id).bytes
    let reading := Reader.readAll (.ofBytes (stream ++ (octets ++ List.replicate fillers 223)))
    reading.error? = none
      ∧ reading.entries.getLast? = some ⟨writer.pos, writer.pos + 6, .postPost pointer id⟩
      ∧ reading.reader.offset = writer.pos + 6
      ∧ reading.reader.next = (none, reading.reader) := by
  obtain ⟨cs, inside, rfl⟩ := bytesOf_of_describes reached written describes
  rw [written.pos_eq]
  exact Reader.readAll_through_end inside rfl rfl (List.replicate fillers 223)

/-- Whatever was written, refused, taken back or handed on before, and however the sink has answered as
long as it has not failed: the end of a postamble adds its six bytes and from four to seven fillers, of
which no other number would bring the position to a multiple of four. If the session ends there, the sink
has taken a stream whose length is a multiple of four. If all that was written before are commands as they
were described, none of them the end of a postamble, then the stream is read without an error up to this
command, and the offset of the reader is the length of the stream without the filler. -/
theorem postamble_is_padded (size : BufferSize) (sink : Sink) (before : List Operation)
    (pointer : Int32) (id : UInt8) (writer after : Writer)
    (reached : performAll before (new sink size) = .ok () writer)
    (written : command (.postPost pointer id) writer = .ok () after) :
    let octets := (Command.postPost pointer id).bytes
    ∃ (stream : Bytes) (fillers : Nat), octets.length = 6
      ∧ writer.HasWritten sink stream
      ∧ after.HasWritten sink (stream ++ (octets ++ List.replicate fillers 223))
      ∧ 4 ∣ after.pos
      ∧ (∀ k, k = fillers ↔ 4 ≤ k ∧ k ≤ 7 ∧ 4 ∣ writer.pos + 6 + k)
      ∧ (sink.Reliable → ∃ finished, finish after = .ok () finished)
      ∧ ∀ finished, finish after = .ok () finished → ∃ output, finished.sink.HasTaken sink output
        ∧ output.length = after.pos ∧ 4 ∣ output.length
        ∧ ((∀ op ∈ unrefused before (new sink size), op.Describes) →
          let reading := Reader.readAll (.ofBytes output)
          reading.error? = none
            ∧ reading.entries.getLast? = some ⟨writer.pos, writer.pos + 6, .postPost pointer id⟩
            ∧ reading.reader.offset = output.length - fillers
            ∧ reading.reader.next = (none, reading.reader)) := by
  intro octets
  have h := represents_of_performAll reached
  obtain ⟨cache, last⟩ := h.of_postPost written
  have only := fillerCount_eq_iff (writer.pos + 6)
  obtain ⟨-, -, aligned⟩ := (only _).mp rfl
  have pos : after.pos = writer.pos + 6 + fillerCount (writer.pos + 6) := by
    rw [last.hasWritten.pos_eq, List.length_append, List.length_append, List.length_replicate,
      h.hasWritten.pos_eq, Nat.add_assoc]
    rfl
  rw [← pos] at aligned
  refine ⟨_, fillerCount (writer.pos + 6), rfl, h.hasWritten, last.hasWritten, aligned, only, ?_, ?_⟩
  · intro reliable
    obtain ⟨finished, ends, -⟩ := last.finish reliable
    exact ⟨finished, ends⟩
  · intro finished ends
    refine ⟨_, last.hasTaken_of_finish ends, last.hasWritten.pos_eq.symm, ?_, ?_⟩
    · rwa [← last.hasWritten.pos_eq]
    · intro describes
      obtain ⟨healthy, final, offset, stops⟩ := reads_to_postPost pointer id
        (fillerCount (writer.pos + 6)) reached h.hasWritten describes
      refine ⟨healthy, final, offset.trans ?_, stops⟩
      rw [← last.hasWritten.pos_eq, pos, Nat.add_sub_cancel]

/-- With a buffer of eight bytes: the end of the postamble begins at the second byte, because a character
and the closing of a group were refused before, and five fillers follow it over the edge of the buffer. -/
theorem postamble_is_padded_over_the_edge :
    ∃ writer after finished output,
      performAll [.command (.setChar 65), .setH 4, .command (.setChar 200), .bracketPop 1]
          (new .unbounded ⟨4, Nat.le_refl 4⟩) = .ok () writer
        ∧ command (.postPost 3 2) writer = .ok () after
        ∧ finish after = .ok () finished
        ∧ finished.sink.HasTaken .unbounded output ∧ output.length = 12
        ∧ (Reader.readAll (.ofBytes output)).entries.getLast? = some ⟨1, 7, .postPost 3 2⟩
        ∧ (Reader.readAll (.ofBytes output)).reader.offset = 7 := by
  let before : List Operation :=
    [.command (.setChar 65), .setH 4, .command (.setChar 200), .bracketPop 1]
  let start := new .unbounded ⟨4, Nat.le_refl 4⟩
  obtain ⟨writer, reached⟩ : ∃ writer, performAll before start = .ok () writer := ⟨_, rfl⟩
  have place : writer.pos = 1 := (represents_of_performAll reached).pos_eq
  obtain ⟨after, written, -⟩ := ((represents_of_performAll reached).command (c := .postPost 3 2)
    rfl).ok_of_reliable Sink.reliable_unbounded
  obtain ⟨stream, fillers, -, before_eq, after_eq, -, only, healthy, whole⟩ :=
    postamble_is_padded _ _ before 3 2 writer after reached written
  obtain ⟨finished, ends⟩ := healthy Sink.reliable_unbounded
  obtain ⟨output, taken, length, -, reads⟩ := whole finished ends
  obtain rfl : 5 = fillers := (only 5).mpr (by rw [place]; decide)
  have twelve : output.length = 12 := by
    rw [length, after_eq.pos_eq, List.length_append, ← before_eq.pos_eq, place]
    rfl
  have kept : unrefused before start = [.command (.setChar 65), .setH 4] := by decide +kernel
  have describes : ∀ op ∈ unrefused before start, op.Describes := by
    rw [kept]
    simp [Operation.Describes, Command.ends, Command.opcode]
  obtain ⟨-, final, offset, -⟩ := reads describes
  rw [twelve] at offset
  rw [place] at final
  exact ⟨writer, after, finished, output, reached, written, ends, taken, twelve, final, offset⟩

end Writer

end Dvi
