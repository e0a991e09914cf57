/-
# Dvi.Proofs.Passage — from one place of a stream to another.

A reader takes command after command until it stands where none is taken: after the end of the postamble,
at the end of the bytes, or before bytes that are no command. What is read of a whole stream is what led to
this place (`Leads`), followed by how the reader stops there, so a law about whole streams is a law about
one command and a law about the last place. The bytes behind a place have no part in what led to it: a
reader that takes a command takes it as well if more bytes follow or if its source fails afterwards
(`next_extend`, `Leads.extend`).
-/
import Dvi.Proofs.Ending

namespace Dvi

open Command (bytesOf)

namespace Reader

variable {reader after last : Reader} {entry : Entry} {entries : List Entry}

/-! ## What leads to a place -/

/-- Induction along the commands that are read, whatever becomes of the reader in the end. -/
theorem entries_induction {motive : Reader → List Entry → Prop}
    (nil : ∀ reader, (∀ entry after, reader.next ≠ (some (.ok entry), after)) → motive reader [])
    (cons : ∀ reader entry after, reader.next = (some (.ok entry), after) →
      motive after after.readAll.entries → motive reader (entry :: after.readAll.entries))
    (reader : Reader) : motive reader reader.readAll.entries := by
  refine readAll_induction (motive := fun reader reading => motive reader reading.entries)
    cons ?error ?finished reader
  case error =>
    intro reader e after next
    refine nil reader fun entry later same => ?_
    rw [next] at same
    cases same
  case finished =>
    intro reader after next
    refine nil reader fun entry later same => ?_
    rw [next] at same
    cases same

/-- Reading takes commands one after the other, and then the reader stands at another place. -/
inductive Leads : Reader → List Entry → Reader → Prop
  | here (reader : Reader) : Leads reader [] reader
  | take {reader middle last : Reader} {entry : Entry} {entries : List Entry}
      (next : reader.next = (some (.ok entry), middle)) (rest : Leads middle entries last) :
      Leads reader (entry :: entries) last

/-- No command is taken here. -/
def Stuck (reader : Reader) : Prop :=
  ∀ entry after, reader.next ≠ (some (.ok entry), after)

/-- Reading a stream leads through all its commands to a place where none is taken. -/
theorem leads_readAll (reader : Reader) :
    ∃ last, reader.Leads reader.readAll.entries last ∧ last.Stuck := by
  refine entries_induction
    (motive := fun reader entries => ∃ last, reader.Leads entries last ∧ last.Stuck)
    ?nil ?cons reader
  case nil =>
    intro reader stuck
    exact ⟨reader, .here reader, stuck⟩
  case cons =>
    intro reader entry after next ih
    obtain ⟨last, leads, stuck⟩ := ih
    exact ⟨last, .take next leads, stuck⟩

/-- What is read from a place is read after what led there. -/
theorem Leads.readAll_eq (h : reader.Leads entries last) :
    reader.readAll = { last.readAll with entries := entries ++ last.readAll.entries } := by
  induction h with
  | here => rfl
  | take next _ ih =>
    rw [readAll_of_entry next, ih]
    rfl

/-- What led to a place are the bytes before it, and they belong to the commands. -/
theorem Leads.place (h : reader.Leads entries last) :
    reader.cursor.rest = bytesOf (entries.map Entry.command) ++ last.cursor.rest
      ∧ last.offset = reader.offset + (bytesOf (entries.map Entry.command)).length
      ∧ last.offset = stopAfter reader.offset entries
      ∧ last.failure = reader.failure := by
  induction h with
  | here => exact ⟨rfl, rfl, rfl, rfl⟩
  | @take reader middle last entry entries next _ ih =>
    have takes := takes_of_next next
    obtain ⟨bytes, offset, stop, failure⟩ := ih
    rw [List.map_cons, Command.bytesOf_cons]
    refine ⟨?_, ?_, ?_, failure.trans takes.failure_eq⟩
    · rw [takes.rest_eq, bytes, List.append_assoc]
    · rw [offset, takes.offset_eq, takes.stop_eq, List.length_append, Nat.add_assoc]
    · rw [stop, takes.offset_eq]
      rfl

/-- At an offset stand the bytes that are left there. -/
theorem Leads.rest_eq {octets : Bytes} {failure : Option IoError}
    (h : (ofBytes octets failure).Leads entries last) : last.cursor.rest = octets.drop last.offset := by
  obtain ⟨bytes, offset, -, -⟩ := h.place
  have split : octets = bytesOf (entries.map Entry.command) ++ last.cursor.rest := bytes
  have place : last.offset = (bytesOf (entries.map Entry.command)).length :=
    offset.trans (Nat.zero_add _)
  calc last.cursor.rest
    _ = (bytesOf (entries.map Entry.command) ++ last.cursor.rest).drop last.offset := by
      rw [place, List.drop_left]
    _ = octets.drop last.offset := by rw [← split]

/-- Reading goes on until the end of the postamble was taken. -/
theorem Leads.done_iff (h : reader.Leads entries last) (going : reader.done = false) :
    last.done = true ↔ AtEnd entries := by
  induction h with
  | here => simp [going, not_atEnd_nil]
  | @take reader middle last entry entries next rest ih =>
    have takes := takes_of_next next
    cases ends : entry.command.ends with
    | false => rw [ih (takes.done_eq.trans ends), atEnd_cons_iff ends]
    | true =>
      -- A reader that is done takes nothing, so this command was the last one.
      have done : middle.done = true := takes.done_eq.trans ends
      cases rest with
      | here => exact iff_of_true done ⟨entry, rfl, ends⟩
      | take more _ =>
        rw [next_of_done done] at more
        cases more

/-! ## More bytes -/

/-- The same reader with more bytes behind those that are left, and whatever happens after them. -/
def extend (octets : Bytes) (failure : Option IoError) (reader : Reader) : Reader :=
  { reader with cursor := ⟨reader.offset, reader.cursor.rest ++ octets⟩, failure }

/-- A command is taken as soon as its bytes are there, and what follows them does not matter. -/
theorem next_extend (h : reader.next = (some (.ok entry), after)) (octets : Bytes)
    (failure : Option IoError) :
    (reader.extend octets failure).next = (some (.ok entry), after.extend octets failure) := by
  have takes := takes_of_next h
  have bytes : (reader.extend octets failure).cursor.rest = entry.command.bytes
      ++ (after.cursor.rest ++ octets) := by
    show reader.cursor.rest ++ octets = _
    rw [takes.rest_eq, List.append_assoc]
  have going : (reader.extend octets failure).done = false := takes.going
  have whole := next_of_bytes takes.going takes.encodes takes.rest_eq
  rw [h] at whole
  refine (next_of_bytes going takes.encodes bytes).trans ?_
  refine Prod.ext (congrArg Prod.fst whole).symm ?_
  exact (congrArg (extend octets failure) (congrArg Prod.snd whole)).symm

theorem Leads.extend (h : reader.Leads entries last) (octets : Bytes) (failure : Option IoError) :
    (reader.extend octets failure).Leads entries (last.extend octets failure) := by
  induction h with
  | here => exact .here _
  | take next _ ih => exact .take (next_extend next octets failure) ih

end Reader

end Dvi
