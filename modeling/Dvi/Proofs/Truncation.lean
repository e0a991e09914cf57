/-
# Dvi.Proofs.Truncation — reading a stream that was cut short.

A reader takes a command as soon as the bytes of this command are there, whatever follows them, and it
takes no command whose bytes are not all there. So a stream that was cut short is read as the commands
of the whole stream that end before the cut (`entries_cut`), and how the reading then ends follows from
the place where the last of them ends (`readAll_take`).
-/
import Dvi.Proofs.Passage

namespace Dvi

namespace Reader

variable {reader after : Reader} {entry : Entry}

/-- The same reader, except that only the next `n` bytes are left to it. -/
def cut (n : Nat) (reader : Reader) : Reader :=
  { reader with cursor := ⟨reader.offset, reader.cursor.rest.take n⟩ }

/-! ## One command -/

/-- A stream that was cut is the whole one with what was cut off behind it. -/
theorem extend_cut (n : Nat) (reader : Reader) :
    (reader.cut n).extend (reader.cursor.rest.drop n) reader.failure = reader := by
  show { reader with cursor := ⟨reader.offset, reader.cursor.rest.take n ++ reader.cursor.rest.drop n⟩ } = _
  rw [List.take_append_drop]
  rfl

/-- A command that ends before the cut is read of the cut stream as well. -/
theorem next_cut (h : reader.next = (some (.ok entry), after)) {n : Nat}
    (inside : entry.stop ≤ reader.offset + n) :
    (reader.cut n).next =
      (some (.ok entry), after.cut (n - entry.command.bytes.length)) := by
  have takes := takes_of_next h
  have long : entry.command.bytes.length ≤ n := by
    have := takes.stop_eq
    omega
  have bytes : (reader.cut n).cursor.rest = entry.command.bytes
      ++ after.cursor.rest.take (n - entry.command.bytes.length) := by
    show reader.cursor.rest.take n = _
    rw [takes.rest_eq, List.take_append, List.take_of_length_le long]
  have going : (reader.cut n).done = false := takes.going
  have whole := next_of_bytes takes.going takes.encodes takes.rest_eq
  rw [h] at whole
  refine (next_of_bytes going takes.encodes bytes).trans ?_
  refine Prod.ext (congrArg Prod.fst whole).symm ?_
  exact (congrArg (cut (n - entry.command.bytes.length)) (congrArg Prod.snd whole)).symm

/-- A command that is read of the cut stream is read of the whole one, and it ends before the cut. -/
theorem next_of_next_cut {n : Nat} (h : (reader.cut n).next = (some (.ok entry), after)) :
    entry.stop ≤ reader.offset + n ∧ ∃ later, reader.next = (some (.ok entry), later) := by
  constructor
  · have takes := takes_of_next h
    have bytes : reader.cursor.rest.take n = entry.command.bytes ++ after.cursor.rest := takes.rest_eq
    have stop : entry.stop = reader.offset + entry.command.bytes.length := takes.stop_eq
    have enough := congrArg List.length bytes
    rw [List.length_take, List.length_append] at enough
    omega
  · have whole := next_extend h (reader.cursor.rest.drop n) reader.failure
    rw [extend_cut] at whole
    exact ⟨_, whole⟩

/-! ## Where commands end -/

/-- Every command ends behind the place where reading began. -/
theorem offset_lt_stop (reader : Reader) :
    ∀ entry ∈ reader.readAll.entries, reader.offset < entry.stop := by
  refine entries_induction
    (motive := fun reader entries => ∀ entry ∈ entries, reader.offset < entry.stop)
    ?nil ?cons reader
  case nil =>
    intro reader _ entry none
    cases none
  case cons =>
    intro reader first after next ih entry member
    have takes := takes_of_next next
    have behind : reader.offset < first.stop := by
      have := List.length_pos_iff.mpr first.command.bytes_ne_nil
      have := takes.stop_eq
      omega
    rcases List.mem_cons.mp member with rfl | later
    · exact behind
    · have := ih entry later
      rw [takes.offset_eq] at this
      exact Nat.lt_trans behind this

/-- The last command ends where all of them do. -/
theorem stopAfter_of_getLast? {entries : List Entry} {last : Entry}
    (h : entries.getLast? = some last) (start : Nat) : stopAfter start entries = last.stop := by
  induction entries generalizing start with
  | nil => cases h
  | cons first rest ih =>
    rw [stopAfter]
    cases rest with
    | nil =>
      cases h
      rfl
    | cons second later => exact ih (by rwa [List.getLast?_cons_cons] at h) first.stop

/-- No command ends behind the last one. -/
theorem stop_le_stopAfter (reader : Reader) :
    ∀ entry ∈ reader.readAll.entries,
      entry.stop ≤ stopAfter reader.offset reader.readAll.entries := by
  refine entries_induction
    (motive := fun reader entries => ∀ entry ∈ entries, entry.stop ≤ stopAfter reader.offset entries)
    ?nil ?cons reader
  case nil =>
    intro reader _ entry none
    cases none
  case cons =>
    intro reader first after next ih entry member
    rw [stopAfter, ← (takes_of_next next).offset_eq]
    rcases List.mem_cons.mp member with rfl | later
    · rw [← (takes_of_next next).offset_eq]
      cases last : after.readAll.entries.getLast? with
      | none =>
        rw [List.getLast?_eq_none_iff.mp last]
        exact Nat.le_refl _
      | some last_entry =>
        rw [stopAfter_of_getLast? last]
        exact Nat.le_of_lt (after.offset_lt_stop _ (List.mem_of_getLast? last))
    · exact ih entry later

/-- No command stands behind one that ends the stream. -/
theorem getLast?_of_ends (reader : Reader) :
    ∀ entry ∈ reader.readAll.entries, entry.command.ends = true →
      reader.readAll.entries.getLast? = some entry := by
  refine entries_induction
    (motive := fun reader entries => ∀ entry ∈ entries, entry.command.ends = true →
      entries.getLast? = some entry)
    ?nil ?cons reader
  case nil =>
    intro reader _ entry none
    cases none
  case cons =>
    intro reader first after next ih entry member ends
    rcases List.mem_cons.mp member with rfl | later
    · have done := (takes_of_next next).done_eq.trans ends
      rw [readAll_of_end (next_of_done done)]
      rfl
    · rw [List.getLast?_cons, ih entry later ends]
      rfl

/-! ## Whole streams -/

/-- Nothing is read of the cut stream if the next command of the whole one does not end before the
cut. -/
theorem entries_cut_eq_nil {n : Nat}
    (h : ∀ entry later, reader.next = (some (.ok entry), later) → ¬entry.stop ≤ reader.offset + n) :
    (reader.cut n).readAll.entries = [] := by
  match found : (reader.cut n).next with
  | (some (.ok entry), after) =>
    obtain ⟨inside, later, whole⟩ := next_of_next_cut found
    exact absurd inside (h entry later whole)
  | (some (.error e), after) => rw [readAll_of_error found]
  | (none, after) => rw [readAll_of_end found]

/-- Nothing is read of the cut stream if its first command was cut. -/
theorem entries_cut_of_outside (h : reader.next = (some (.ok entry), after)) {n : Nat}
    (outside : ¬entry.stop ≤ reader.offset + n) : (reader.cut n).readAll.entries = [] := by
  refine entries_cut_eq_nil fun other later next => ?_
  rw [h] at next
  cases next
  exact outside

/-- What is read of the cut stream is the beginning of what is read of the whole one. -/
theorem entries_cut_prefix (reader : Reader) (n : Nat) :
    (reader.cut n).readAll.entries <+: reader.readAll.entries := by
  refine entries_induction
    (motive := fun reader entries => ∀ n, (reader.cut n).readAll.entries <+: entries)
    ?nil ?cons reader n
  case nil =>
    intro reader nothing n
    have unread : (reader.cut n).readAll.entries = [] :=
      entries_cut_eq_nil fun entry later next => absurd next (nothing entry later)
    simp [unread]
  case cons =>
    intro reader entry after next ih n
    by_cases inside : entry.stop ≤ reader.offset + n
    · rw [readAll_of_entry (next_cut next inside), List.prefix_cons_inj]
      exact ih _
    · rw [entries_cut_of_outside next inside]
      exact List.nil_prefix

/-- Of the cut stream are read the commands of the whole one that end before the cut. -/
theorem entries_cut (reader : Reader) (n : Nat) :
    (reader.cut n).readAll.entries =
      reader.readAll.entries.filter fun entry => entry.stop ≤ reader.offset + n := by
  refine entries_induction
    (motive := fun reader entries => ∀ n, (reader.cut n).readAll.entries =
      entries.filter fun entry => entry.stop ≤ reader.offset + n)
    ?nil ?cons reader n
  case nil =>
    intro reader nothing n
    exact entries_cut_eq_nil fun entry later next => absurd next (nothing entry later)
  case cons =>
    intro reader entry after next ih n
    have takes := takes_of_next next
    by_cases inside : entry.stop ≤ reader.offset + n
    · have bound : after.offset + (n - entry.command.bytes.length) = reader.offset + n := by
        have := takes.offset_eq
        have := takes.stop_eq
        omega
      rw [readAll_of_entry (next_cut next inside), ih, bound, List.filter_cons,
        if_pos (decide_eq_true inside)]
    -- The first command is cut off, and every other one ends behind it.
    · have later : ∀ other ∈ after.readAll.entries, ¬other.stop ≤ reader.offset + n := by
        intro other member
        have := after.offset_lt_stop other member
        have := takes.offset_eq
        omega
      rw [List.filter_cons_of_neg (by simpa using inside),
        List.filter_eq_nil_iff.mpr (by simpa using later)]
      exact entries_cut_of_outside next inside

/-- The end of the postamble is read of the cut stream exactly if the whole stream has come to it
before the cut. -/
theorem atEnd_cut_iff (reader : Reader) (n : Nat) :
    AtEnd (reader.cut n).readAll.entries ↔
      AtEnd reader.readAll.entries
        ∧ stopAfter reader.offset reader.readAll.entries ≤ reader.offset + n := by
  rw [entries_cut]
  constructor
  · rintro ⟨last, found, ends⟩
    obtain ⟨member, inside⟩ := List.mem_filter.mp (List.mem_of_getLast? found)
    have whole := reader.getLast?_of_ends last member ends
    refine ⟨⟨last, whole, ends⟩, ?_⟩
    rw [stopAfter_of_getLast? whole]
    exact of_decide_eq_true inside
  · rintro ⟨⟨last, found, ends⟩, inside⟩
    rw [stopAfter_of_getLast? found] at inside
    obtain ⟨before, split⟩ := List.getLast?_eq_some_iff.mp found
    refine ⟨last, ?_, ends⟩
    rw [split, List.filter_append, List.filter_cons, if_pos (decide_eq_true inside)]
    exact List.getLast?_concat

/-- Reading the first `k` bytes of a stream gives exactly the commands of the whole stream that end at
or before `k`. If reading the whole stream has come to the end of the postamble by then, it ends in the
same way. Otherwise it ends without an error if the last of these commands ends at `k`, and with an
error that names the place where it ends if this is before `k`. -/
theorem readAll_take (octets : Bytes) {k : Nat} (inside : k ≤ octets.length) :
    let whole := readAll (.ofBytes octets)
    let cut := readAll (.ofBytes (octets.take k))
    let stop := stopAfter 0 cut.entries
    let complete := AtEnd whole.entries ∧ stopAfter 0 whole.entries ≤ k
    cut.entries = whole.entries.filter (fun entry => entry.stop ≤ k)
      ∧ (∀ entry ∈ cut.entries, entry ∈ whole.entries)
      ∧ (complete ∧ cut.entries = whole.entries ∧ cut.error? = none ∧ whole.error? = none
        ∨ ¬complete ∧ stop = k ∧ cut.error? = none
        ∨ ¬complete ∧ stop < k ∧ ∃ b, octets[stop]? = some b ∧ cut.error? =
            some (if 250 ≤ b then .undefinedOpcode b stop else .unexpectedEnd b stop)) := by
  intro whole cut stop complete
  have start : (Reader.ofBytes octets).offset + k = k := Nat.zero_add k
  have kept : cut.entries = whole.entries.filter (fun entry => entry.stop ≤ k) := by
    have entries := entries_cut (.ofBytes octets) k
    rw [start] at entries
    exact entries
  have atEnd : AtEnd cut.entries ↔ complete := by
    have ends := atEnd_cut_iff (.ofBytes octets) k
    rw [start] at ends
    exact ends
  obtain ⟨-, -, -, -, whole_ends⟩ := ends_ofBytes octets
  obtain ⟨-, short, -, -, ends⟩ := ends_ofBytes (octets.take k)
  change stop ≤ (octets.take k).length at short
  change Ends cut.entries ((octets.take k).drop stop) stop cut.error? at ends
  rw [List.length_take, Nat.min_eq_left inside] at short
  refine ⟨kept, fun entry member => (List.mem_filter.mp (kept ▸ member)).1, ?_⟩
  by_cases ended : complete
  · refine .inl ⟨ended, ?_, ends.eq_none_iff.mpr (.inl (atEnd.mpr ended)),
      whole_ends.eq_none_iff.mpr (.inl ended.1)⟩
    rw [kept, List.filter_eq_self]
    intro entry member
    have before : entry.stop ≤ stopAfter 0 whole.entries := stop_le_stopAfter _ entry member
    exact decide_eq_true (Nat.le_trans before ended.2)
  · refine .inr ?_
    rcases Nat.eq_or_lt_of_le short with all | part
    · refine .inl ⟨ended, all, ends.eq_none_iff.mpr (.inr ?_)⟩
      rw [List.drop_eq_nil_iff, all]
      exact List.length_take_le ..
    · refine .inr ⟨ended, part, ?_⟩
      cases found : cut.error? with
      | none =>
        rcases ends.eq_none_iff.mp found with last | nothing
        · exact absurd (atEnd.mp last) ended
        · rw [List.drop_eq_nil_iff, List.length_take, Nat.min_eq_left inside] at nothing
          omega
      | some e =>
        rw [found] at ends
        obtain ⟨b, rest, stands, -, rfl⟩ := ends.broken_of_some
        refine ⟨b, ?_, rfl⟩
        rw [← List.getElem?_take_of_lt part, ← List.head?_drop, stands]
        rfl

/-- A stream of three commands that is cut in the middle of a special. -/
theorem readAll_take_inside_a_special :
    let octets : Bytes := [141, 242, 0, 0, 0, 2, 65, 66, 249, 0, 0, 0, 5, 2, 223, 223, 223, 223, 223, 223]
    7 ≤ octets.length
      ∧ (readAll (.ofBytes octets)).entries
          = [⟨0, 1, .push⟩, ⟨1, 8, .special .four [65, 66]⟩, ⟨8, 14, .postPost 5 2⟩]
      ∧ (readAll (.ofBytes (octets.take 7))).entries = [⟨0, 1, .push⟩]
      ∧ (readAll (.ofBytes (octets.take 7))).error? = some (.unexpectedEnd 242 1) := by
  intro octets
  have inside : 7 ≤ octets.length := by decide
  have encodes : ∀ c ∈ [.push, .special .four [65, 66], .postPost 5 2],
      Command.violation? c = none := by decide
  obtain ⟨last, reads⟩ := readAll_streamFrom encodes 0
  have whole : (readAll (.ofBytes octets)).entries
      = [⟨0, 1, .push⟩, ⟨1, 8, .special .four [65, 66]⟩, ⟨8, 14, .postPost 5 2⟩] :=
    (congrArg Reading.entries reads).trans rfl
  obtain ⟨kept, -, ending⟩ := readAll_take octets inside
  rw [whole] at kept ending
  change (readAll (.ofBytes (octets.take 7))).entries = [⟨0, 1, .push⟩] at kept
  rw [kept] at ending
  refine ⟨inside, whole, kept, ?_⟩
  rcases ending with ⟨⟨-, late⟩, -⟩ | ⟨-, elsewhere, -⟩ | ⟨-, -, b, stands, error⟩
  · exact absurd late (by decide)
  · exact absurd elsewhere (by decide)
  · cases stands
    exact error

end Reader

end Dvi
