/-
# Dvi.Proofs.Concatenation — reading one stream after another.

A reader that has come to the clean end of one stream is a reader at the start of the next one, except
that it counts its offsets from further back. Two facts make this so. Offsets are counted and never
looked at, so a reader whose stream begins `n` bytes further on gives the same commands and stops in the
same way, with `n` more in every offset (`readAll_shift`). And a reader that takes commands takes the same
ones if more bytes follow (`Leads.extend`). The main statement puts them together (`readAll_append`): of
two streams in sequence, the second is read as it is read alone, whatever the first one held.
-/
import Dvi.Proofs.Passage

namespace Dvi

/-! ## The same bytes further on -/

/-- The same bytes, `n` bytes further on in their stream. -/
def Cursor.shift (n : Nat) (cursor : Cursor) : Cursor :=
  ⟨n + cursor.offset, cursor.rest⟩

def Shortage.shift (n : Nat) : Shortage → Shortage
  | field start => field (start.shift n)
  | counted start => counted (start.shift n)
  | endless after => endless (after.shift n)

theorem Cursor.shift_advance (n m : Nat) (cursor : Cursor) :
    (cursor.shift n).advance m = (cursor.advance m).shift n := by
  simp [shift, advance, Nat.add_assoc]

namespace Decoder

variable {α β : Type}

/-- What comes of a decoder whose stream begins `n` bytes further on. -/
def shifted (n : Nat) : Except Shortage (α × Cursor) → Except Shortage (α × Cursor)
  | .ok (a, after) => .ok (a, after.shift n)
  | .error shortage => .error (shortage.shift n)

/-- A decoder that counts the offset on and does not look at it. -/
def Shifts (decoder : Decoder α) : Prop :=
  ∀ n cursor, decoder (cursor.shift n) = shifted n (decoder cursor)

theorem Shifts.bind {decoder : Decoder α} {next : α → Decoder β} (h : decoder.Shifts)
    (hnext : ∀ a, (next a).Shifts) : Shifts (decoder >>= next) := by
  intro n cursor
  show (decoder (cursor.shift n) >>= fun (a, middle) => next a middle)
    = shifted n (decoder cursor >>= fun (a, middle) => next a middle)
  rw [h]
  cases decoder cursor with
  | error shortage => rfl
  | ok result => exact hnext result.1 n result.2

theorem shifts_field (n : Nat) : (field n).Shifts := by
  intro m cursor
  simp only [field, Cursor.shift_advance]
  show (if (cursor.rest.take n).length = n then _ else _) = _
  split <;> rfl

theorem shifts_counted (n : Nat) : (counted n).Shifts := by
  intro m cursor
  simp only [counted, Cursor.shift_advance]
  show (if (cursor.rest.take n).length = n then _ else _) = _
  split <;> rfl

theorem compositional_shifts : Compositional fun _ decoder => decoder.Shifts where
  pure _ := fun _ _ => rfl
  bind := .bind
  field := shifts_field
  counted := shifts_counted

/-- No command looks at the offset at which it stands. -/
theorem shifts_decode (op : Opcode) : (Command.decode op).Shifts := by
  refine compositional_shifts.decode fun size _ => compositional_shifts.special ?_ size
  intro n cursor
  rfl

end Decoder

/-- The same entry of a stream that begins `n` bytes further back. -/
def Entry.shift (n : Nat) (entry : Entry) : Entry :=
  { entry with start := n + entry.start, stop := n + entry.stop }

/-- The same error with the offset that it names moved on. A failure of the source names none. -/
def ReadError.shift (n : Nat) : ReadError → ReadError
  | source e => source e
  | unexpectedEnd opcode offset => unexpectedEnd opcode (n + offset)
  | undefinedOpcode opcode offset => undefinedOpcode opcode (n + offset)

namespace Reader

variable {reader last : Reader} {entries : List Entry}

/-- The same reader with all that it has to read `n` bytes further on. -/
def shift (n : Nat) (reader : Reader) : Reader :=
  { reader with cursor := reader.cursor.shift n }

/-- What a reader gives next, `n` bytes further on. -/
def shiftResult (n : Nat) : Except ReadError Entry → Except ReadError Entry
  | .ok entry => .ok (entry.shift n)
  | .error e => .error (e.shift n)

def Reading.shift (n : Nat) (reading : Reading) : Reading where
  entries := reading.entries.map (Entry.shift n)
  error? := reading.error?.map (ReadError.shift n)
  reader := reading.reader.shift n

theorem onShortage_shift (n : Nat) (reader : Reader) (b : UInt8) (start : Nat) (shortage : Shortage) :
    (reader.shift n).onShortage b (n + start) (shortage.shift n) =
      ((reader.onShortage b start shortage).1.shift n,
        (reader.onShortage b start shortage).2.shift n) := by
  have failure : (reader.shift n).failure = reader.failure := rfl
  unfold onShortage
  cases shortage with
  | endless after => rfl
  | field place =>
    simp only [Shortage.shift, failure]
    split <;> rfl
  | counted place =>
    simp only [Shortage.shift, failure, Cursor.shift_advance]
    split <;> rfl

/-- A reader further on takes the same command or stops in the same way. -/
theorem next_shift (n : Nat) (reader : Reader) :
    (reader.shift n).next = (reader.next.1.map (shiftResult n), reader.next.2.shift n) := by
  cases done : reader.done with
  | true =>
    have stays : (reader.shift n).done = true := done
    rw [next_of_done done, next_of_done stays]
    rfl
  | false =>
    have going : (reader.shift n).done = false := done
    cases bytes : reader.cursor.rest with
    | nil =>
      rw [next_of_rest_nil done bytes, next_of_rest_nil going bytes]
      show (reader.failure.map _, _) = _
      cases reader.failure <;> rfl
    | cons b rest =>
      cases known : Opcode.ofByte? b with
      | none =>
        rw [next_of_undefined done bytes known, next_of_undefined going bytes known]
        rfl
      | some op =>
        have decodes := Decoder.shifts_decode op n ⟨reader.offset + 1, rest⟩
        cases decoded : Command.decode op ⟨reader.offset + 1, rest⟩ with
        | ok result =>
          rw [decoded] at decodes
          rw [next_of_decode done bytes known decoded, next_of_decode going bytes known decodes]
          rfl
        | error shortage =>
          rw [decoded] at decodes
          rw [next_of_shortage done bytes known decoded, next_of_shortage going bytes known decodes]
          have same := onShortage_shift n reader b reader.offset shortage
          change (reader.shift n).onShortage b (reader.shift n).offset _ = _ at same
          rw [same]
          rfl

/-- A stream further on is read as the same commands and ends in the same way. -/
theorem readAll_shift (n : Nat) (reader : Reader) :
    (reader.shift n).readAll = reader.readAll.shift n := by
  refine readAll_induction
    (motive := fun reader reading => (reader.shift n).readAll = reading.shift n)
    ?entry ?error ?finished reader
  case entry =>
    intro reader entry after next ih
    have takes := next_shift n reader
    rw [next] at takes
    rw [readAll_of_entry takes, ih]
    rfl
  case error =>
    intro reader e after next
    have fails := next_shift n reader
    rw [next] at fails
    rw [readAll_of_error fails]
    rfl
  case finished =>
    intro reader after next
    have ends := next_shift n reader
    rw [next] at ends
    rw [readAll_of_end ends]
    rfl

/-! ## Two streams -/

/-- Reading that ends without an error and without the end of the postamble has come to the end of the
bytes. -/
theorem Leads.exhausted (h : reader.Leads entries last) (stuck : last.Stuck)
    (going : reader.done = false) (healthy : reader.failure = none)
    (clean : reader.readAll.error? = none) (unended : ¬AtEnd entries) :
    last = { cursor := ⟨reader.offset + reader.cursor.rest.length, []⟩ } := by
  obtain ⟨bytes, offset, -, failure⟩ := h.place
  have last_going : last.done = false :=
    Bool.eq_false_iff.mpr fun done => unended ((h.done_iff going).mp done)
  have last_healthy : last.failure = none := failure.trans healthy
  rw [h.readAll_eq] at clean
  change last.readAll.error? = none at clean
  rcases next_cases last_going last_healthy with ⟨entry, after, takes⟩ | ⟨none_left, -⟩
    | ⟨b, rest, cursor, -, fails⟩
  · exact absurd takes (stuck entry after)
  · rw [none_left, List.append_nil] at bytes
    have place : last.cursor.offset = reader.offset + reader.cursor.rest.length := by
      rw [bytes]
      exact offset
    obtain ⟨⟨last_offset, last_rest⟩, last_failure, last_done⟩ := last
    cases last_going
    cases last_healthy
    cases none_left
    cases place
    rfl
  · rw [readAll_of_error fails] at clean
    cases clean

/-- If the first of two streams is read to its end without an error and without the end of a postamble,
both in sequence are read as the commands of the first at their own offsets, then the commands of the
second with the length of the first added to every offset; and reading ends as reading the second does,
with the same added to the offset in an error and to the offset at which the reader stands. -/
theorem readAll_append (a b : Bytes) (failure : Option IoError)
    (clean : (readAll (.ofBytes a)).error? = none)
    (unended : ∀ pointer id, .postPost pointer id ∉ (readAll (.ofBytes a)).entries.map Entry.command) :
    let first := readAll (.ofBytes a)
    let second := readAll (.ofBytes b failure)
    let both := readAll (.ofBytes (a ++ b) failure)
    both.entries = first.entries ++ second.entries.map (Entry.shift a.length)
      ∧ both.error? = second.error?.map (ReadError.shift a.length)
      ∧ both.reader.offset = a.length + second.reader.offset
      ∧ both.reader = second.reader.shift a.length := by
  intro first second both
  obtain ⟨last, leads, stuck⟩ := leads_readAll (.ofBytes a)
  have open_ended : ¬AtEnd first.entries := by
    rintro ⟨entry, found, ends⟩
    have member : entry.command ∈ first.entries.map Entry.command :=
      List.mem_map_of_mem (List.mem_of_getLast? found)
    cases same : entry.command with
    | postPost pointer id => exact unended pointer id (same ▸ member)
    | _ =>
      rw [same] at ends
      cases ends
  have behind := leads.exhausted stuck rfl rfl clean open_ended
  -- With the second stream behind it, the place where the first one ended is the start of the second.
  have whole := leads.extend b failure
  have start : last.extend b failure = shift a.length (.ofBytes b failure) := by
    rw [behind]
    simp [extend, shift, Cursor.shift, ofBytes, offset]
  rw [start] at whole
  have reads : both = { second.shift a.length with
      entries := first.entries ++ (second.shift a.length).entries } := by
    show (extend b failure (.ofBytes a)).readAll = _
    rw [whole.readAll_eq, readAll_shift]
  rw [reads]
  exact ⟨rfl, rfl, rfl, rfl⟩

/-- The second stream ends inside its second command, after a first one that ends with an empty special. -/
theorem readAll_append_then_a_torn_command :
    let first : Bytes := [141, 239, 0]
    let second : Bytes := [142, 139, 0, 0]
    (readAll (.ofBytes first)).error? = none
      ∧ (∀ pointer id, .postPost pointer id ∉ (readAll (.ofBytes first)).entries.map Entry.command)
      ∧ (readAll (.ofBytes (first ++ second))).entries
          = [⟨0, 1, .push⟩, ⟨1, 3, .special .one []⟩, ⟨3, 4, .pop⟩]
      ∧ (readAll (.ofBytes (first ++ second))).error? = some (.unexpectedEnd 139 4)
      ∧ (readAll (.ofBytes (first ++ second))).reader.offset = 5 := by
  intro first second
  have entries : (readAll (.ofBytes first)).entries = [⟨0, 1, .push⟩, ⟨1, 3, .special .one []⟩] := by
    decide +kernel
  have clean : (readAll (.ofBytes first)).error? = none := by decide +kernel
  have unended : ∀ pointer id,
      .postPost pointer id ∉ (readAll (.ofBytes first)).entries.map Entry.command := by
    intro pointer id
    simp [entries]
  obtain ⟨both, error, place, -⟩ := readAll_append first second none clean unended
  refine ⟨clean, unended, ?_, ?_, ?_⟩
  · rw [both, entries]
    decide +kernel
  · rw [error]
    decide +kernel
  · rw [place]
    decide +kernel

end Reader

end Dvi
