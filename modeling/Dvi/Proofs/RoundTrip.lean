/-
# Dvi.Proofs.RoundTrip — whole streams, from commands to bytes and back.

What is written through a buffer is read again: all commands up to the end of the postamble, each at
the place where the writer stood, and nothing that follows (`commandsAt_then_readAll`). And what is
read is written again: whatever the bytes, the commands that a reader finds in them are accepted by a
writer and give the bytes that were read (`readAll_then_commandsAt`).
-/
import Dvi.Proofs.Command.Cancellation
import Dvi.Proofs.Reader
import Dvi.Proofs.Writer.Stream

namespace Dvi

open Reader Writer
open Command (bytesOf)

/-! ## Commands that are written are read -/

/-- The bytes of commands are read as these commands, up to the first that ends the stream. -/
theorem readAll_streamFrom {cs : List Command} (encodes : ∀ c ∈ cs, c.violation? = none)
    (start : Nat) :
    ∃ last, readAll { cursor := ⟨start, streamFrom start cs⟩ } =
      ⟨(throughEnd (placed start cs)).map Entry.ofPlaced, none, last⟩ := by
  induction cs generalizing start with
  | nil => exact ⟨_, readAll_of_end rfl⟩
  | cons c cs ih =>
    -- Filler and later commands are part of the rest, which a reader that is done does not look at.
    have first := next_encoded (encodes c List.mem_cons_self) start
      (c.filling (start + c.bytes.length) ++ streamFrom (start + (c.bytesAt start).length) cs) none
    rw [← List.append_assoc] at first
    rw [placed, throughEnd, streamFrom]
    cases ends : c.ends with
    | true =>
      rw [ends] at first
      exact ⟨_, (readAll_of_entry first).trans (by rw [readAll_of_end (next_of_done rfl)]; rfl)⟩
    | false =>
      obtain ⟨last, rest⟩ := ih (fun c later => encodes c (List.mem_cons_of_mem _ later))
        (start + (c.bytesAt start).length)
      rw [ends, Command.filling_of_not_ends ends, List.append_nil] at first
      rw [Command.bytesAt_of_not_ends ends] at first rest ⊢
      refine ⟨last, (readAll_of_entry first).trans ?_⟩
      rw [List.nil_append, rest]
      rfl

/-- A file that consists of the bytes of commands has these commands, up to the first that ends the stream. -/
theorem entries_of_eq_streamFrom {cs : List Command} (encodes : ∀ c ∈ cs, c.violation? = none) {octets : Bytes}
    (bytes : octets = streamFrom 0 cs) :
    (readAll (.ofBytes octets)).entries = (throughEnd (placed 0 cs)).map Entry.ofPlaced := by
  obtain ⟨last, reads⟩ := readAll_streamFrom encodes 0
  rw [bytes, Reader.ofBytes, reads]

/-- Commands that a writer accepts are read from what it wrote: those up to and including the first
that ends the stream, each at the position that the writer had before it and with its operands cut to
their widths. A command whose operands fit comes back unchanged. -/
theorem commandsAt_then_readAll (size : BufferSize) (sink : Sink) (reliable : sink.Reliable)
    {cs : List Command} {notes : List (Nat × Command)} {writer : Writer}
    (accepted : commandsAt cs (new sink size) = .ok notes writer) :
    notes.map Prod.snd = cs
      ∧ (∃ finished output, finish writer = .ok () finished
          ∧ finished.sink.record.octets.toList = sink.record.octets.toList ++ output
          ∧ (readAll (.ofBytes output)).error? = none
          ∧ (readAll (.ofBytes output)).entries = (throughEnd notes).map Entry.ofPlaced)
      ∧ ∀ c ∈ cs, c.Fits → c.readBack = c := by
  have encodes := encodes_of_commandsAt accepted
  obtain ⟨after, cache, run, represents⟩ :=
    (represents_new sink size).commandsAt reliable encodes
  rw [accepted] at run
  cases run
  obtain ⟨finished, ends, taken⟩ := represents.finish reliable
  obtain ⟨last, reads⟩ := readAll_streamFrom encodes 0
  refine ⟨map_snd_placed _ cs, ⟨finished, streamFrom 0 cs, ends, taken, ?_, ?_⟩, ?_⟩
  · rw [Reader.ofBytes, reads]
  · rw [Reader.ofBytes, reads]
    rfl
  · intro c _ fits
    exact (Command.readBack_eq_self_iff c).mpr fits

/-- Operands of one byte lose what does not fit, and neither the filler nor what was written after
the end is read. -/
theorem commandsAt_then_readAll_past_the_end :
    Sink.unbounded.Reliable
      ∧ ∃ writer, commandsAt [.set .one 300, .move .horizontal .one 200, .postPost 7 2, .nop]
            (new .unbounded ⟨4, Nat.le_refl 4⟩)
          = .ok [(0, .set .one 300), (2, .move .horizontal .one 200), (4, .postPost 7 2), (16, .nop)]
              writer
        ∧ ∃ finished output, finish writer = .ok () finished
          ∧ finished.sink.record.octets.toList = output
          ∧ (readAll (.ofBytes output)).error? = none
          ∧ (readAll (.ofBytes output)).entries
              = [⟨0, 2, .set .one 44⟩, ⟨2, 4, .move .horizontal .one (-56)⟩, ⟨4, 10, .postPost 7 2⟩] := by
  refine ⟨Sink.reliable_unbounded, ?_⟩
  have encodes : ∀ c ∈ [.set .one 300, .move .horizontal .one 200, .postPost 7 2, .nop],
      Command.violation? c = none := by decide
  obtain ⟨writer, cache, run, -⟩ := (represents_new .unbounded ⟨4, Nat.le_refl 4⟩).commandsAt
    Sink.reliable_unbounded encodes
  obtain ⟨-, ⟨finished, output, ends, taken, sound, entries⟩, -⟩ :=
    commandsAt_then_readAll _ _ Sink.reliable_unbounded run
  refine ⟨writer, run, finished, output, ends, taken, sound, entries.trans ?_⟩
  decide

/-! ## Commands that are read are written -/

namespace Reader

/-- Commands that stand one after the other, the first one at `start`. -/
def Contiguous : Nat → List Entry → Prop
  | _, [] => True
  | start, entry :: entries => entry.start = start ∧ Contiguous entry.stop entries

/-- The offset after the last of the commands that begin at `start`. -/
def stopAfter : Nat → List Entry → Nat
  | start, [] => start
  | _, entry :: entries => stopAfter entry.stop entries

/-- Whether the last command ends the stream. -/
def AtEnd (entries : List Entry) : Prop :=
  ∃ last, entries.getLast? = some last ∧ last.command.ends = true

/-- Commands that were read off the front of `octets`, and what they come to when they are written
again from where they began: the bytes that were read, and filler after an end. -/
structure Copies (start : Nat) (octets : Bytes) (entries : List Entry) (front : Bytes)
    (fillers : Nat) : Prop where
  encodes : ∀ c ∈ entries.map Entry.command, c.violation? = none
  contiguous : Contiguous start entries
  placed_eq : placed start (entries.map Entry.command) = entries.map fun e => (e.start, e.command)
  front_eq : front = bytesOf (entries.map Entry.command)
  front_prefix : front <+: octets
  stop_eq : stopAfter start entries = start + front.length
  stream_eq : streamFrom start (entries.map Entry.command) =
    front ++ List.replicate fillers Writer.filler
  filled : AtEnd entries → 4 ≤ fillers ∧ fillers ≤ 7
  unfilled : ¬AtEnd entries → fillers = 0

variable {reader after : Reader} {entry : Entry} {entries : List Entry}

theorem not_atEnd_nil : ¬AtEnd [] := by
  rintro ⟨last, none, -⟩
  cases none

/-- A command that does not end the stream decides only if no other one follows. -/
theorem atEnd_cons_iff (going : entry.command.ends = false) :
    AtEnd (entry :: entries) ↔ AtEnd entries := by
  cases entries with
  | nil =>
    refine iff_of_false ?_ not_atEnd_nil
    rintro ⟨last, found, ends⟩
    cases found
    change entry.command.ends = true at ends
    rw [going] at ends
    cases ends
  | cons next rest => rw [AtEnd, AtEnd, List.getLast?_cons_cons]

theorem copies_nil (start : Nat) (octets : Bytes) : Copies start octets [] [] 0 where
  encodes := by
    intro c none
    cases none
  contiguous := trivial
  placed_eq := rfl
  front_eq := rfl
  front_prefix := List.nil_prefix
  stop_eq := rfl
  stream_eq := rfl
  filled atEnd := absurd atEnd not_atEnd_nil
  unfilled _ := rfl

/-- A command that ends the stream is followed by filler. -/
theorem Takes.copies_end (h : reader.Takes entry after) (ends : entry.command.ends = true) :
    Copies reader.offset reader.cursor.rest [entry] entry.command.bytes
      (fillerCount entry.stop) where
  encodes := by
    intro c member
    rw [List.mem_singleton.mp member]
    exact h.encodes
  contiguous := ⟨h.start_eq, trivial⟩
  placed_eq := by
    show [(reader.offset, entry.command)] = [(entry.start, entry.command)]
    rw [h.start_eq]
  front_eq := (List.append_nil _).symm
  front_prefix := ⟨after.cursor.rest, h.rest_eq.symm⟩
  stop_eq := h.stop_eq
  stream_eq := by
    show entry.command.bytesAt reader.offset ++ [] = _
    rw [List.append_nil, Command.bytesAt, Command.filling_of_ends ends, h.stop_eq]
  filled _ := fillerCount_bounds _
  unfilled going := absurd ⟨entry, rfl, ends⟩ going

/-- Any other command is followed by what comes of the rest of the stream. -/
theorem Takes.copies (h : reader.Takes entry after) (going : entry.command.ends = false)
    {front : Bytes} {fillers : Nat}
    (rest : Copies after.offset after.cursor.rest entries front fillers) :
    Copies reader.offset reader.cursor.rest (entry :: entries) (entry.command.bytes ++ front)
      fillers := by
  have stop : after.offset = reader.offset + entry.command.bytes.length :=
    h.offset_eq.trans h.stop_eq
  have next : reader.offset + (entry.command.bytesAt reader.offset).length = after.offset := by
    rw [Command.bytesAt_of_not_ends going, stop]
  exact {
    encodes := by
      intro c member
      rcases List.mem_cons.mp member with rfl | later
      · exact h.encodes
      · exact rest.encodes c later
    contiguous := ⟨h.start_eq, h.offset_eq ▸ rest.contiguous⟩
    placed_eq := by
      rw [List.map_cons, List.map_cons, placed, next, rest.placed_eq, h.start_eq]
    front_eq := by
      rw [rest.front_eq]
      rfl
    front_prefix := by
      rw [h.rest_eq]
      exact (List.prefix_append_right_inj _).mpr rest.front_prefix
    stop_eq := by
      rw [stopAfter, ← h.offset_eq, rest.stop_eq, stop, List.length_append, Nat.add_assoc]
    stream_eq := by
      rw [List.map_cons, streamFrom, next, rest.stream_eq, Command.bytesAt_of_not_ends going,
        List.append_assoc]
    filled := fun atEnd => rest.filled ((atEnd_cons_iff going).mp atEnd)
    unfilled := fun unended => rest.unfilled fun atEnd => unended ((atEnd_cons_iff going).mpr atEnd) }

/-- Whatever is read of a stream can be written again. -/
theorem copies_readAll (reader : Reader) (going : reader.done = false) :
    ∃ front fillers,
      Copies reader.offset reader.cursor.rest reader.readAll.entries front fillers := by
  refine readAll_induction
    (motive := fun reader reading => reader.done = false → ∃ front fillers,
      Copies reader.offset reader.cursor.rest reading.entries front fillers)
    ?entry ?error ?finished reader going
  case entry =>
    intro reader entry after next ih _
    have takes := takes_of_next next
    cases ends : entry.command.ends with
    | true =>
      -- The reader is done, whatever bytes are left.
      have nothing : after.readAll.entries = [] := by
        rw [readAll_of_end (next_of_done (takes.done_eq.trans ends))]
      dsimp only
      rw [nothing]
      exact ⟨_, _, takes.copies_end ends⟩
    | false =>
      obtain ⟨front, fillers, rest⟩ := ih (takes.done_eq.trans ends)
      exact ⟨_, _, takes.copies ends rest⟩
  case error =>
    intro reader e after _ _
    exact ⟨_, _, copies_nil _ _⟩
  case finished =>
    intro reader after _ _
    exact ⟨_, _, copies_nil _ _⟩

end Reader

/-- Whatever the bytes, the commands that are read from them are accepted by a writer, each at the
offset at which it was read, which is where the one before it ended; and what is written are the
bytes that were read, followed by four to seven fillers after an end of the postamble and by nothing
otherwise. -/
theorem readAll_then_commandsAt (size : BufferSize) (sink : Sink) (reliable : sink.Reliable)
    (octets : Bytes) (failure : Option IoError) :
    let entries := (readAll (.ofBytes octets failure)).entries
    ∃ writer finished fillers,
      commandsAt (entries.map Entry.command) (new sink size)
          = .ok (entries.map fun entry => (entry.start, entry.command)) writer
        ∧ Contiguous 0 entries
        ∧ stopAfter 0 entries ≤ octets.length
        ∧ finish writer = .ok () finished
        ∧ finished.sink.record.octets.toList = sink.record.octets.toList
            ++ (octets.take (stopAfter 0 entries) ++ List.replicate fillers 223)
        ∧ (AtEnd entries → 4 ≤ fillers ∧ fillers ≤ 7)
        ∧ (¬AtEnd entries → fillers = 0) := by
  obtain ⟨front, fillers, copies⟩ := copies_readAll (.ofBytes octets failure) rfl
  obtain ⟨writer, cache, run, represents⟩ :=
    (represents_new sink size).commandsAt reliable copies.encodes
  obtain ⟨finished, ends, taken⟩ := represents.finish reliable
  have stop : stopAfter 0 (readAll (.ofBytes octets failure)).entries = front.length :=
    copies.stop_eq.trans (Nat.zero_add _)
  have front_eq : front = octets.take front.length := List.prefix_iff_eq_take.mp copies.front_prefix
  refine ⟨writer, finished, fillers, ?_, copies.contiguous, ?_, ends, ?_, copies.filled,
    copies.unfilled⟩
  · exact run.trans (congrArg (EStateM.Result.ok · writer) copies.placed_eq)
  · rw [stop]
    exact copies.front_prefix.length_le
  · rw [taken, stop, ← front_eq]
    exact congrArg (sink.record.octets.toList ++ ·) copies.stream_eq

/-- Operands that are wider than they need to be come out as wide as they went in. -/
theorem readAll_then_commandsAt_wide_operands :
    Sink.unbounded.Reliable
      ∧ (readAll (.ofBytes [146, 0, 0, 0, 1, 131, 255, 255, 255, 255, 242, 0, 0, 0, 1, 65, 249, 0, 0, 0,
            5, 2, 223, 223, 223, 223, 223, 223])).entries
          = [⟨0, 5, .move .horizontal .four 1⟩, ⟨5, 10, .set .four (-1)⟩, ⟨10, 16, .special .four [65]⟩,
            ⟨16, 22, .postPost 5 2⟩]
      ∧ ∃ writer finished fillers,
        commandsAt [.move .horizontal .four 1, .set .four (-1), .special .four [65], .postPost 5 2]
            (new .unbounded ⟨4, Nat.le_refl 4⟩)
          = .ok [(0, .move .horizontal .four 1), (5, .set .four (-1)), (10, .special .four [65]),
              (16, .postPost 5 2)] writer
        ∧ finish writer = .ok () finished
        ∧ finished.sink.record.octets.toList
            = [146, 0, 0, 0, 1, 131, 255, 255, 255, 255, 242, 0, 0, 0, 1, 65, 249, 0, 0, 0, 5, 2]
              ++ List.replicate fillers 223
        ∧ 4 ≤ fillers ∧ fillers ≤ 7 := by
  have encodes : ∀ c ∈ [.move .horizontal .four 1, .set .four (-1), .special .four [65],
      .postPost 5 2], Command.violation? c = none := by decide
  obtain ⟨last, reads⟩ := readAll_streamFrom encodes 0
  have entries : (readAll (.ofBytes [146, 0, 0, 0, 1, 131, 255, 255, 255, 255, 242, 0, 0, 0, 1, 65,
      249, 0, 0, 0, 5, 2, 223, 223, 223, 223, 223, 223])).entries
      = [⟨0, 5, .move .horizontal .four 1⟩, ⟨5, 10, .set .four (-1)⟩, ⟨10, 16, .special .four [65]⟩,
        ⟨16, 22, .postPost 5 2⟩] := (congrArg Reading.entries reads).trans rfl
  obtain ⟨writer, finished, fillers, run, -, -, ends, taken, filled, -⟩ :=
    readAll_then_commandsAt ⟨4, Nat.le_refl 4⟩ .unbounded Sink.reliable_unbounded
      [146, 0, 0, 0, 1, 131, 255, 255, 255, 255, 242, 0, 0, 0, 1, 65, 249, 0, 0, 0, 5, 2, 223, 223,
        223, 223, 223, 223] none
  rw [entries] at run taken filled
  exact ⟨Sink.reliable_unbounded, entries, writer, finished, fillers, run, ends, taken,
    filled ⟨_, rfl, rfl⟩⟩

end Dvi
