/-
# Dvi.Proofs.Ending — how reading comes to an end.

A reader of bytes stops after the end of the postamble, where the bytes end between two commands, and
at a place where no command stands. In the last case it reports which place this is and the byte that
stands there, and the report says whether that byte is an opcode. The main statement is that these are
exactly the ways in which reading ends (`readAll_ends_exactly`): a command is missed nowhere, because a
reader that stands before the bytes of a command takes one (`next_of_bytes`).
-/
import Dvi.Proofs.Command.Cancellation
import Dvi.Proofs.RoundTrip

namespace Dvi

open Command (bytesOf)

/-- No command has its encoding at the front of these bytes. -/
def NoCommandAt (octets : Bytes) : Prop :=
  ∀ c : Command, c.violation? = none → ¬c.bytes <+: octets

/-- The error of a place where `b` begins no command: `b` is no opcode, or its operands are missing. -/
def ReadError.ofByte (b : UInt8) (offset : Nat) : ReadError :=
  if 250 ≤ b then .undefinedOpcode b offset else .unexpectedEnd b offset

theorem ReadError.ofByte_eq_undefinedOpcode_iff (b : UInt8) (offset : Nat) :
    ReadError.ofByte b offset = .undefinedOpcode b offset ↔ 250 ≤ b := by
  unfold ofByte
  split <;> simp_all

theorem ReadError.ofByte_eq_unexpectedEnd_iff (b : UInt8) (offset : Nat) :
    ReadError.ofByte b offset = .unexpectedEnd b offset ↔ b < 250 := by
  unfold ofByte
  split <;> simp_all

/-- Commands are not empty, so there are at most as many of them as bytes. -/
theorem Command.length_le_length_bytesOf (cs : List Command) : cs.length ≤ (bytesOf cs).length := by
  induction cs with
  | nil => exact Nat.le_refl 0
  | cons c cs ih =>
    have := List.length_pos_iff.mpr c.bytes_ne_nil
    rw [Command.bytesOf_cons, List.length_cons, List.length_append]
    omega

/-- A four-byte length is signed, so no special has a length whose first byte is 128 or more. -/
theorem noCommandAt_negative_length {b : UInt8} (negative : 128 ≤ b) (tail : Bytes) :
    NoCommandAt ((Opcode.special .four).toByte :: b :: tail) := by
  intro c encodes front
  obtain ⟨after, front⟩ := front
  obtain ⟨opcode, operands⟩ := List.cons.inj front
  -- The opcode decides the shape of the command, and the command says what its length was.
  have special : c.opcode = .special .four := by
    have found := Opcode.ofByte?_toByte (Command.standard_of_violation? encodes)
    rw [opcode, Opcode.ofByte?_toByte (by trivial)] at found
    exact (Option.some.inj found).symm
  cases c with
  | special size payload =>
    cases special
    have short : payload.length ≤ 2147483647 := Command.length_le_of_special encodes
    have first : UInt8.ofNat (payload.length / 256 / 256 / 256) = b := (List.cons.inj operands).1
    rw [← first, UInt8.le_iff_toNat_le, UInt8.toNat_ofNat'] at negative
    have : (128 : UInt8).toNat = 128 := rfl
    omega
  | _ => cases special

namespace Reader

variable {reader after : Reader} {entry : Entry}

/-! ## One command -/

/-- A reader that stands before the bytes of a command takes what is left of the command. -/
theorem next_of_bytes (going : reader.done = false) {c : Command} (encodes : c.violation? = none)
    {rest : Bytes} (bytes : reader.cursor.rest = c.bytes ++ rest) :
    reader.next = (some (.ok (.ofPlaced (reader.offset, c))),
      { reader with cursor := ⟨reader.offset + c.bytes.length, rest⟩, done := c.ends }) := by
  obtain ⟨⟨offset, octets⟩, failure, done⟩ := reader
  cases going
  cases bytes
  exact next_encoded encodes offset rest failure

/-- Where a reader reports an error there is no command. -/
theorem noCommandAt_of_next (going : reader.done = false) {e : ReadError}
    (h : reader.next = (some (.error e), after)) : NoCommandAt reader.cursor.rest := by
  intro c encodes front
  obtain ⟨rest, front⟩ := front
  rw [next_of_bytes going encodes front.symm] at h
  cases h

theorem next_of_nil (going : reader.done = false) (healthy : reader.failure = none)
    (bytes : reader.cursor.rest = []) : reader.next = (none, reader.stopAt reader.cursor) := by
  rw [next_of_rest_nil going bytes, healthy]
  rfl

/-- Bytes that end too early and a length that no bytes can satisfy are reported alike. -/
theorem onShortage_fst (healthy : reader.failure = none) (b : UInt8) (start : Nat)
    (shortage : Shortage) : (reader.onShortage b start shortage).1 = .unexpectedEnd b start := by
  unfold onShortage
  cases shortage with
  | endless after => rfl
  | field place | counted place => rw [healthy]

/-- A reader with bytes before it takes a command, or it reports the first of these bytes. -/
theorem next_of_cons (going : reader.done = false) (healthy : reader.failure = none) {b : UInt8}
    {rest : Bytes} (bytes : reader.cursor.rest = b :: rest) :
    (∃ entry after, reader.next = (some (.ok entry), after))
      ∨ ∃ cursor, reader.next = (some (.error (.ofByte b reader.offset)), reader.stopAt cursor) := by
  cases known : Opcode.ofByte? b with
  | none =>
    refine .inr ⟨⟨reader.offset + 1, rest⟩, ?_⟩
    rw [next_of_undefined going bytes known, ReadError.ofByte,
      if_pos ((Opcode.ofByte?_eq_none_iff b).mp known)]
  | some op =>
    have defined : ¬250 ≤ b := by
      intro large
      rw [(Opcode.ofByte?_eq_none_iff b).mpr large] at known
      cases known
    cases decoded : Command.decode op ⟨reader.offset + 1, rest⟩ with
    | ok result => exact .inl ⟨_, _, next_of_decode going bytes known decoded⟩
    | error shortage =>
      refine .inr ⟨(reader.onShortage b reader.offset shortage).2, ?_⟩
      rw [next_of_shortage going bytes known decoded, onShortage_fst healthy, ReadError.ofByte,
        if_neg defined]

/-- A reader that goes on takes a command, stops where the bytes end, or reports the byte that it stands
before. -/
theorem next_cases (going : reader.done = false) (healthy : reader.failure = none) :
    (∃ entry after, reader.next = (some (.ok entry), after))
      ∨ (reader.cursor.rest = [] ∧ reader.next = (none, reader.stopAt reader.cursor))
      ∨ ∃ b rest cursor, reader.cursor.rest = b :: rest
        ∧ reader.next = (some (.error (.ofByte b reader.offset)), reader.stopAt cursor) := by
  cases bytes : reader.cursor.rest with
  | nil => exact .inr (.inl ⟨rfl, next_of_nil going healthy bytes⟩)
  | cons b rest =>
    rcases next_of_cons going healthy bytes with takes | ⟨cursor, fails⟩
    · exact .inl takes
    · exact .inr (.inr ⟨b, rest, cursor, rfl, fails⟩)

/-! ## Whole streams -/

/-- How reading ended: `left` are the bytes behind the last command, and `stop` is their offset. -/
inductive Ends (entries : List Entry) (left : Bytes) (stop : Nat) : Option ReadError → Prop
  | postamble (last : AtEnd entries) : Ends entries left stop none
  | consumed (none_left : left = []) : Ends entries left stop none
  | broken {b : UInt8} {rest : Bytes} (going : ¬AtEnd entries) (left_eq : left = b :: rest)
    (none_here : NoCommandAt left) : Ends entries left stop (some (.ofByte b stop))

/-- Commands that were read before decide only whether the last one of all ends the stream. -/
theorem Ends.cons {entries : List Entry} {left : Bytes} {stop : Nat} {e : Option ReadError}
    (going : entry.command.ends = false) (h : Ends entries left stop e) :
    Ends (entry :: entries) left stop e := by
  cases h with
  | postamble last => exact .postamble ((atEnd_cons_iff going).mpr last)
  | consumed none_left => exact .consumed none_left
  | broken unended left_eq none_here =>
    exact .broken (fun last => unended ((atEnd_cons_iff going).mp last)) left_eq none_here

/-- There is no error exactly after the end of the postamble and where no byte is left. -/
theorem Ends.eq_none_iff {entries : List Entry} {left : Bytes} {stop : Nat} {e : Option ReadError}
    (h : Ends entries left stop e) : e = none ↔ AtEnd entries ∨ left = [] := by
  cases h with
  | postamble last => exact iff_of_true rfl (.inl last)
  | consumed none_left => exact iff_of_true rfl (.inr none_left)
  | broken going left_eq none_here =>
    refine iff_of_false (Option.some_ne_none _) ?_
    rintro (last | none_left)
    · exact going last
    · rw [left_eq] at none_left
      cases none_left

/-- An error is reported only where a byte stands that begins no command. -/
theorem Ends.broken_of_some {entries : List Entry} {left : Bytes} {stop : Nat} {e : ReadError}
    (h : Ends entries left stop (some e)) :
    ∃ b rest, left = b :: rest ∧ NoCommandAt left ∧ e = .ofByte b stop := by
  cases h with
  | broken going left_eq none_here => exact ⟨_, _, left_eq, none_here, rfl⟩

/-- Reading a stream ends behind the bytes of the commands that were read, and nothing is read
afterwards. -/
theorem ends_readAll (reader : Reader) (going : reader.done = false)
    (healthy : reader.failure = none) :
    ∃ left, reader.cursor.rest = bytesOf (reader.readAll.entries.map Entry.command) ++ left
      ∧ reader.readAll.reader.done = true
      ∧ Ends reader.readAll.entries left
          (reader.offset + (bytesOf (reader.readAll.entries.map Entry.command)).length)
          reader.readAll.error? := by
  refine readAll_induction
    (motive := fun reader reading => reader.done = false → reader.failure = none →
      ∃ left, reader.cursor.rest = bytesOf (reading.entries.map Entry.command) ++ left
        ∧ reading.reader.done = true
        ∧ Ends reading.entries left
            (reader.offset + (bytesOf (reading.entries.map Entry.command)).length) reading.error?)
    ?entry ?error ?finished reader going healthy
  case entry =>
    intro reader entry after next ih going healthy
    have takes := takes_of_next next
    dsimp only
    rw [List.map_cons, Command.bytesOf_cons, takes.rest_eq]
    cases ends : entry.command.ends with
    | true =>
      -- The reader is done and looks at nothing that is left.
      rw [readAll_of_end (next_of_done (takes.done_eq.trans ends))]
      refine ⟨after.cursor.rest, ?_, takes.done_eq.trans ends, .postamble ⟨entry, rfl, ends⟩⟩
      rw [List.map_nil, Command.bytesOf_nil, List.append_nil]
    | false =>
      obtain ⟨left, split, done, last⟩ :=
        ih (takes.done_eq.trans ends) (takes.failure_eq.trans healthy)
      refine ⟨left, ?_, done, ?_⟩
      · rw [split, List.append_assoc]
      · rw [takes.offset_eq, takes.stop_eq, Nat.add_assoc] at last
        rw [List.length_append]
        exact last.cons ends
  case error =>
    intro reader e after next going healthy
    have none_here := noCommandAt_of_next going next
    rcases next_cases going healthy with ⟨entry, later, takes⟩ | ⟨-, stops⟩
      | ⟨b, rest, cursor, bytes, fails⟩
    · rw [takes] at next
      cases next
    · rw [stops] at next
      cases next
    · rw [fails] at next
      cases next
      exact ⟨reader.cursor.rest, rfl, rfl, .broken not_atEnd_nil bytes none_here⟩
  case finished =>
    intro reader after next going healthy
    rcases next_cases going healthy with ⟨entry, later, takes⟩ | ⟨none_left, stops⟩
      | ⟨b, rest, cursor, bytes, fails⟩
    · rw [takes] at next
      cases next
    · rw [stops] at next
      cases next
      exact ⟨[], none_left, rfl, .consumed rfl⟩
    · rw [fails] at next
      cases next

/-- Reading bytes to their end: the commands begin at offset zero and stand one after the other, and
behind the last one reading ended. -/
theorem ends_ofBytes (octets : Bytes) :
    let reading := readAll (.ofBytes octets)
    let stop := stopAfter 0 reading.entries
    Contiguous 0 reading.entries
      ∧ stop ≤ octets.length
      ∧ bytesOf (reading.entries.map Entry.command) = octets.take stop
      ∧ reading.reader.done = true
      ∧ Ends reading.entries (octets.drop stop) stop reading.error? := by
  intro reading stop
  obtain ⟨front, fillers, copies⟩ := copies_readAll (.ofBytes octets) rfl
  obtain ⟨left, split, done, ends⟩ := ends_readAll (.ofBytes octets) rfl rfl
  have stop_eq : stop = (bytesOf (reading.entries.map Entry.command)).length := by
    rw [← copies.front_eq]
    exact copies.stop_eq.trans (Nat.zero_add _)
  have front_eq : octets.take stop = bytesOf (reading.entries.map Entry.command) := by
    rw [stop_eq]
    exact (congrArg (List.take _) split).trans List.take_left
  have left_eq : octets.drop stop = left := by
    rw [stop_eq]
    exact (congrArg (List.drop _) split).trans List.drop_left
  have inside : stop ≤ octets.length := by
    rw [stop_eq, ← front_eq]
    exact List.length_take_le' ..
  refine ⟨copies.contiguous, inside, front_eq.symm, done, ?_⟩
  have offset : (Reader.ofBytes octets).offset + (bytesOf (reading.entries.map Entry.command)).length
      = stop := (Nat.zero_add _).trans stop_eq.symm
  rw [left_eq, ← offset]
  exact ends

/-- Whatever the bytes, reading ends exactly as it must. The commands stand one after the other from
the first byte on. There is no error if and only if the last command ends the stream or no byte is
left; otherwise there is one, it names the offset behind the last command and the byte that stands
there, and no command stands there. Nothing is read afterwards. A special of four bytes whose length is
negative is such a place, wherever it stands. -/
theorem readAll_ends_exactly (octets : Bytes) :
    let reading := readAll (.ofBytes octets)
    let entries := reading.entries
    let stop := stopAfter 0 entries
    entries.length ≤ octets.length
      ∧ Contiguous 0 entries
      ∧ stop ≤ octets.length
      ∧ bytesOf (entries.map Entry.command) = octets.take stop
      ∧ (reading.error? = none ↔ AtEnd entries ∨ stop = octets.length)
      ∧ (∀ e ∈ reading.error?, ∃ b, octets[stop]? = some b
          ∧ (e = .undefinedOpcode b stop ↔ 250 ≤ b)
          ∧ (e = .unexpectedEnd b stop ↔ b < 250)
          ∧ NoCommandAt (octets.drop stop))
      ∧ reading.reader.next = (none, reading.reader)
      ∧ ∀ start b tail, octets.drop start = (Opcode.special .four).toByte :: b :: tail → 128 ≤ b →
          NoCommandAt (octets.drop start)
            ∧ (start = stop → ¬AtEnd entries →
                reading.error? = some (.unexpectedEnd (Opcode.special .four).toByte start)) := by
  intro reading entries stop
  obtain ⟨contiguous, inside, front_eq, done, ends⟩ := ends_ofBytes octets
  have none_left : octets.drop stop = [] ↔ stop = octets.length := by
    rw [List.drop_eq_nil_iff]
    exact ⟨Nat.le_antisymm inside, fun all => Nat.le_of_eq all.symm⟩
  have many : entries.length ≤ octets.length := by
    have bytes := Command.length_le_length_bytesOf (entries.map Entry.command)
    rw [List.length_map, front_eq] at bytes
    exact Nat.le_trans bytes (List.length_take_le' ..)
  refine ⟨many, contiguous, inside, front_eq, ends.eq_none_iff.trans (or_congr_right none_left), ?_,
    next_of_done done, ?_⟩
  · intro e found
    rw [Option.mem_def.mp found] at ends
    obtain ⟨b, rest, stands, none_here, rfl⟩ := ends.broken_of_some
    refine ⟨b, ?_, ReadError.ofByte_eq_undefinedOpcode_iff b stop,
      ReadError.ofByte_eq_unexpectedEnd_iff b stop, none_here⟩
    rw [← List.head?_drop, stands]
    rfl
  · intro start b tail stands negative
    have none_here : NoCommandAt (octets.drop start) := by
      rw [stands]
      exact noCommandAt_negative_length negative tail
    refine ⟨none_here, ?_⟩
    rintro rfl going
    cases found : reading.error? with
    | none =>
      rcases ends.eq_none_iff.mp found with last | nothing
      · exact absurd last going
      · rw [stands] at nothing
        cases nothing
    | some e =>
      rw [found] at ends
      obtain ⟨opcode, rest, first, -, rfl⟩ := ends.broken_of_some
      rw [stands] at first
      cases first
      exact congrArg some ((ReadError.ofByte_eq_unexpectedEnd_iff _ _).mpr (by decide))

end Reader

end Dvi
