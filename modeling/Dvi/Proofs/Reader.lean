/-
# Dvi.Proofs.Reader — what a reader takes off a stream.

A reader that meets the bytes of a command takes what is left of the command (`next_encoded`); and
whatever it takes stood in the stream with its own bytes (`takes_of_next`), so a command that was
read has an encoding, and it is the one that was read. Reading a whole stream is reading its first
command and then the rest; `readAll_induction` is the induction that goes with this.
-/
import Dvi.Proofs.Command.Placement
import Dvi.Proofs.Command.RoundTrip
import Dvi.Reader

namespace Dvi

/-- The table holds nothing but opcodes of the standard. -/
theorem Opcode.standard_of_ofByte? {b : UInt8} {op : Opcode} (h : ofByte? b = some op) :
    op.Standard := by
  have standard : ∀ op ∈ table.toList, op.Standard := by decide +kernel
  exact standard op (Array.mem_toList_iff.mpr (Array.mem_of_getElem? h))

/-- What is read of a command that stands at a place. -/
def Entry.ofPlaced : Nat × Command → Entry
  | (start, c) => { start, stop := start + c.bytes.length, command := c.readBack }

namespace Reader

variable {reader after : Reader} {entry : Entry}

/-- A reader takes a command off the front of its stream. -/
structure Takes (reader : Reader) (entry : Entry) (after : Reader) : Prop where
  going : reader.done = false
  encodes : entry.command.violation? = none
  start_eq : entry.start = reader.offset
  stop_eq : entry.stop = reader.offset + entry.command.bytes.length
  rest_eq : reader.cursor.rest = entry.command.bytes ++ after.cursor.rest
  offset_eq : after.offset = entry.stop
  failure_eq : after.failure = reader.failure
  done_eq : after.done = entry.command.ends

/-! ## One command -/

theorem next_of_done (h : reader.done = true) : reader.next = (none, reader) := by
  rw [next, if_pos h]

theorem next_of_decode {b : UInt8} {rest : Bytes} {op : Opcode} {c : Command} {cursor : Cursor}
    (going : reader.done = false) (bytes : reader.cursor.rest = b :: rest)
    (known : Opcode.ofByte? b = some op)
    (decodes : Command.decode op ⟨reader.offset + 1, rest⟩ = .ok (c, cursor)) :
    reader.next = (some (.ok { start := reader.offset, stop := cursor.offset, command := c }),
      { reader with cursor, done := op == .postPost }) := by
  unfold next
  rw [if_neg (Bool.eq_false_iff.mp going), bytes]
  dsimp only
  rw [known]
  dsimp only
  rw [decodes]

/-- Where no byte is left, a stream ends or its source fails. -/
theorem next_of_rest_nil (going : reader.done = false) (bytes : reader.cursor.rest = []) :
    reader.next = (reader.failure.map fun e => .error (.source e), reader.stopAt reader.cursor) := by
  unfold next
  rw [if_neg (Bool.eq_false_iff.mp going), bytes]
  dsimp only
  cases reader.failure <;> rfl

/-- A byte that is no opcode is reported, and passed. -/
theorem next_of_undefined {b : UInt8} {rest : Bytes} (going : reader.done = false)
    (bytes : reader.cursor.rest = b :: rest) (unknown : Opcode.ofByte? b = none) :
    reader.next = (some (.error (.undefinedOpcode b reader.offset)),
      reader.stopAt ⟨reader.offset + 1, rest⟩) := by
  unfold next
  rw [if_neg (Bool.eq_false_iff.mp going), bytes]
  dsimp only
  rw [unknown]

/-- Operands that are not there are reported as the source has it. -/
theorem next_of_shortage {b : UInt8} {rest : Bytes} {op : Opcode} {shortage : Shortage}
    (going : reader.done = false) (bytes : reader.cursor.rest = b :: rest)
    (known : Opcode.ofByte? b = some op)
    (fails : Command.decode op ⟨reader.offset + 1, rest⟩ = .error shortage) :
    reader.next = (some (.error (reader.onShortage b reader.offset shortage).1),
      reader.stopAt (reader.onShortage b reader.offset shortage).2) := by
  unfold next
  rw [if_neg (Bool.eq_false_iff.mp going), bytes]
  dsimp only
  rw [known]
  dsimp only
  rw [fails]

/-- A reader that meets the bytes of a command takes what is left of the command. -/
theorem next_encoded {c : Command} (encodes : c.violation? = none) (start : Nat) (rest : Bytes)
    (failure : Option IoError) :
    next { cursor := ⟨start, c.bytes ++ rest⟩, failure } =
      (some (.ok (.ofPlaced (start, c))),
        { cursor := ⟨start + c.bytes.length, rest⟩, failure, done := c.ends }) := by
  have known := Opcode.ofByte?_toByte (Command.standard_of_violation? encodes)
  have decodes := Command.reads_decode encodes (start + 1) rest
  have length : start + 1 + c.operands.length = start + c.bytes.length := by
    rw [Command.bytes, List.length_cons]
    omega
  rw [length] at decodes
  let reader : Reader := { cursor := ⟨start, c.bytes ++ rest⟩, failure }
  have going : reader.done = false := rfl
  exact next_of_decode going rfl known decodes

/-- Whatever a reader takes stood in the stream with its own bytes. -/
theorem takes_of_next (h : reader.next = (some (.ok entry), after)) : reader.Takes entry after := by
  have going : reader.done = false := by
    cases done : reader.done with
    | false => rfl
    | true =>
      rw [next_of_done done] at h
      cases h
  -- Only one case gives an entry: the opcode is known and its operands are there.
  cases bytes : reader.cursor.rest with
  | nil =>
    rw [next_of_rest_nil going bytes] at h
    cases failure : reader.failure <;> simp [failure] at h
  | cons b rest =>
    cases known : Opcode.ofByte? b with
    | none =>
      rw [next_of_undefined going bytes known] at h
      cases h
    | some op =>
      cases decoded : Command.decode op ⟨reader.offset + 1, rest⟩ with
      | error shortage =>
        rw [next_of_shortage going bytes known decoded] at h
        cases h
      | ok result =>
        obtain ⟨c, cursor⟩ := result
        rw [next_of_decode going bytes known decoded] at h
        cases h
        obtain ⟨operands, ⟨opcode, encodes, rfl⟩, front, passed⟩ :=
          Command.readsOnly_decode (Opcode.standard_of_ofByte? known) _ _ _ decoded
        dsimp only at front passed
        have length : cursor.offset = reader.offset + c.bytes.length := by
          rw [passed, Command.bytes, List.length_cons]
          omega
        exact {
          going
          encodes
          start_eq := rfl
          stop_eq := length
          rest_eq := by
            rw [bytes, front, Command.bytes, opcode, Opcode.toByte_of_ofByte? known]
            rfl
          offset_eq := rfl
          failure_eq := rfl
          done_eq := by rw [Command.ends, opcode] }

/-! ## Whole streams -/

theorem readAfter_of_entry (h : reader.next = (some (.ok entry), after)) (seen : List Entry) :
    readAfter seen reader = readAfter (entry :: seen) after := by
  rw [readAfter]
  split <;> rename_i found <;> rw [h] at found <;> cases found
  rfl

theorem readAfter_of_error {e : ReadError} (h : reader.next = (some (.error e), after))
    (seen : List Entry) : readAfter seen reader = ⟨seen.reverse, some e, after⟩ := by
  rw [readAfter]
  split <;> rename_i found <;> rw [h] at found <;> cases found
  rfl

theorem readAfter_of_end (h : reader.next = (none, after)) (seen : List Entry) :
    readAfter seen reader = ⟨seen.reverse, none, after⟩ := by
  rw [readAfter]
  split <;> rename_i found <;> rw [h] at found <;> cases found
  rfl

/-- Commands that were seen before stand before those that are still to come. -/
theorem readAfter_append (seen earlier : List Entry) (reader : Reader) :
    readAfter (seen ++ earlier) reader =
      { readAfter seen reader with
        entries := earlier.reverse ++ (readAfter seen reader).entries } := by
  -- The newest command stands first, so what was seen before stays behind it all the way.
  fun_induction readAfter seen reader with
  | case1 seen reader entry after h _ ih =>
    rw [readAfter_of_entry h]
    exact ih
  | case2 seen reader e after h => rw [readAfter_of_error h, List.reverse_append]
  | case3 seen reader after h => rw [readAfter_of_end h, List.reverse_append]

/-- Reading a stream is reading its first command and then the rest. -/
theorem readAll_of_entry (h : reader.next = (some (.ok entry), after)) :
    reader.readAll = { after.readAll with entries := entry :: after.readAll.entries } := by
  rw [readAll, readAfter_of_entry h]
  exact readAfter_append [] [entry] after

theorem readAll_of_error {e : ReadError} (h : reader.next = (some (.error e), after)) :
    reader.readAll = ⟨[], some e, after⟩ :=
  readAfter_of_error h []

theorem readAll_of_end (h : reader.next = (none, after)) : reader.readAll = ⟨[], none, after⟩ :=
  readAfter_of_end h []

/-- Induction along a stream: a property of what is read holds where reading stops, and is carried
back over every command that is taken. -/
theorem readAll_induction {motive : Reader → Reading → Prop}
    (entry : ∀ reader entry after, reader.next = (some (.ok entry), after) →
      motive after after.readAll →
      motive reader { after.readAll with entries := entry :: after.readAll.entries })
    (error : ∀ reader e after, reader.next = (some (.error e), after) →
      motive reader ⟨[], some e, after⟩)
    (finished : ∀ reader after, reader.next = (none, after) → motive reader ⟨[], none, after⟩)
    (reader : Reader) : motive reader reader.readAll := by
  match h : reader.next with
  | (some (.ok e), after) =>
    rw [readAll_of_entry h]
    exact entry reader e after h (readAll_induction entry error finished after)
  | (some (.error e), after) =>
    rw [readAll_of_error h]
    exact error reader e after h
  | (none, after) =>
    rw [readAll_of_end h]
    exact finished reader after h
termination_by reader.cursor.rest.length
decreasing_by exact length_rest_next_lt h

end Reader

end Dvi
