/-
# Dvi.Proofs.SourceFailure — an end of input is not a failure of the source.

Two sources deliver the same bytes. Then the input of one of them ends, and the other one fails. A reader
takes the same commands from both, because it never asks for a byte behind the command that it takes. What
it makes of the place where it then stands is the same only if the bytes decide it: the end of the
postamble, a byte that is no opcode, and a special whose length is there in full and negative
(`ReadError.Settled`). Everywhere else it asks for a byte that is not there, and reports what the source
says to that. The main statement is `readAll_of_failing_source`.
-/
import Dvi.Proofs.Passage

namespace Dvi

/-! ## Negative lengths -/

/-- The four bytes of a negative number stand at the front. -/
def NegativeWord (octets : Bytes) : Prop :=
  ∃ b₁ b₂ b₃ b₄, octets.take 4 = [b₁, b₂, b₃, b₄] ∧ 128 ≤ b₁

/-- A number that is read without a sign comes out negative exactly if it is too large for a length. -/
theorem Width.ofNat_neg_iff {size : Width} {n : Nat} (below : n < size.patterns) :
    Int32.ofNat n < 0 ↔ size.maxLength < n := by
  constructor
  · intro negative
    apply Nat.lt_of_not_le
    intro bound
    rw [Int32.lt_iff_toInt_lt, Decoder.toInt_ofNat_of_le bound] at negative
    exact absurd negative (Int.not_lt.mpr (Int.natCast_nonneg n))
  · intro large
    apply Decidable.byContradiction
    intro announced
    exact absurd (Decoder.le_maxLength below announced) (Nat.not_le.mpr large)

/-- Only four bytes can say a number that is too large for a length, and the first of them does. -/
theorem maxLength_lt_ofBigEndian_iff {size : Width} {octets : Bytes}
    (enough : (octets.take size.size).length = size.size) :
    size.maxLength < ofBigEndian (octets.take size.size) ↔ size = .four ∧ NegativeWord octets := by
  have below := ofBigEndian_lt_capacity (octets.take size.size)
  rw [enough] at below
  cases size with
  | one | two | three =>
    refine iff_of_false ?_ (by simp)
    exact Nat.not_lt.mpr (Nat.le_sub_one_of_lt below)
  | four =>
    change (octets.take 4).length = 4 at enough
    show Width.four.maxLength < ofBigEndian (octets.take 4) ↔ _
    obtain ⟨b₁, b₂, b₃, b₄, four⟩ : ∃ b₁ b₂ b₃ b₄, octets.take 4 = [b₁, b₂, b₃, b₄] := by
      match octets.take 4, enough with
      | [b₁, b₂, b₃, b₄], _ => exact ⟨b₁, b₂, b₃, b₄, rfl⟩
    have limit : Width.four.maxLength = 2147483647 := rfl
    have first : 128 ≤ b₁ ↔ 128 ≤ b₁.toNat := UInt8.le_iff_toNat_le
    have value : ofBigEndian [b₁, b₂, b₃, b₄]
        = 256 * (256 * (256 * b₁.toNat + b₂.toNat) + b₃.toNat) + b₄.toNat := by
      simp [ofBigEndian]
    have second := b₂.toNat_lt
    have third := b₃.toNat_lt
    have fourth := b₄.toNat_lt
    rw [four, limit, value]
    simp only [NegativeWord, four, List.cons.injEq, and_true, true_and]
    constructor
    · intro large
      exact ⟨b₁, b₂, b₃, b₄, ⟨rfl, rfl, rfl, rfl⟩, first.mpr (by omega)⟩
    · rintro ⟨_, _, _, _, ⟨rfl, rfl, rfl, rfl⟩, negative⟩
      have := first.mp negative
      omega

namespace Decoder

variable {α β : Type}

/-- A decoder that never finds a negative length. -/
def Bounded (decoder : Decoder α) : Prop :=
  ∀ before after, decoder before ≠ .error (.endless after)

theorem Bounded.bind {decoder : Decoder α} {next : α → Decoder β} (h : decoder.Bounded)
    (hnext : ∀ a, (next a).Bounded) : Bounded (decoder >>= next) := by
  intro before after run
  change (decoder before >>= fun (a, middle) => next a middle) = .error (.endless after) at run
  cases found : decoder before with
  | error shortage =>
    rw [found] at run
    cases run
    exact h before after found
  | ok result =>
    rw [found] at run
    exact hnext result.1 result.2 after run

theorem bounded_field (n : Nat) : (field n).Bounded := by
  intro before after run
  simp only [field] at run
  split at run <;> cases run

theorem bounded_counted (n : Nat) : (counted n).Bounded := by
  intro before after run
  simp only [counted] at run
  split at run <;> cases run

theorem compositional_bounded : Compositional fun _ decoder => decoder.Bounded where
  pure _ := by
    intro before after run
    cases run
  bind := .bind
  field := bounded_field
  counted := bounded_counted

/-- A special finds a negative length exactly if its four bytes are there and say so. -/
theorem special_eq_endless_iff {size : Width} {before : Cursor} :
    (∃ after, special size before = .error (.endless after)) ↔
      size = .four ∧ NegativeWord before.rest := by
  by_cases enough : (before.rest.take size.size).length = size.size
  · have below := ofBigEndian_lt_capacity (before.rest.take size.size)
    rw [enough] at below
    rw [← maxLength_lt_ofBigEndian_iff enough, ← Width.ofNat_neg_iff below]
    have length : field size.size before = .ok (before.rest.take size.size, before.advance size.size) :=
      if_pos enough
    have run : special size before =
        if Int32.ofNat (ofBigEndian (before.rest.take size.size)) < 0 then
          .error (.endless (before.advance size.size))
        else counted (Int32.ofNat (ofBigEndian (before.rest.take size.size))).toInt.toNat
          (before.advance size.size) := by
      show ((field size.size before >>= _) >>= _) = _
      rw [length]
      show (if _ then _ else _ : Decoder Bytes) (before.advance size.size) = _
      split <;> rfl
    rw [run]
    split
    · next negative => exact iff_of_true ⟨_, rfl⟩ negative
    · next announced =>
      refine iff_of_false ?_ announced
      rintro ⟨after, stops⟩
      exact bounded_counted _ _ after stops
  · have short : field size.size before = .error (.field before) := if_neg enough
    have run : special size before = .error (.field before) := by
      show ((field size.size before >>= _) >>= _) = _
      rw [short]
      rfl
    refine iff_of_false ?_ ?_
    · rintro ⟨after, stops⟩
      rw [run] at stops
      cases stops
    · rintro ⟨rfl, b₁, b₂, b₃, b₄, four, -⟩
      apply enough
      show (before.rest.take 4).length = 4
      rw [four]
      rfl

/-- No other command has a length that can be negative. -/
theorem decode_eq_endless_iff {op : Opcode} {before : Cursor} :
    (∃ after, Command.decode op before = .error (.endless after)) ↔
      op = .special .four ∧ NegativeWord before.rest := by
  by_cases special : ∃ size, op = .special size
  · obtain ⟨size, rfl⟩ := special
    rw [Opcode.special.injEq, ← special_eq_endless_iff]
    apply exists_congr
    intro after
    have run : Command.decode (.special size) before =
        (Decoder.special size before).map fun result => (.special size result.1, result.2) := by
      show (Decoder.special size before >>= _) = _
      cases Decoder.special size before <;> rfl
    rw [run]
    cases Decoder.special size before <;> simp [Except.map]
  · refine iff_of_false ?_ fun ⟨same, _⟩ => special ⟨_, same⟩
    rintro ⟨after, stops⟩
    refine compositional_bounded.decode (fun size same => ?_) before after stops
    exact absurd ⟨size, same⟩ special

end Decoder

/-- An error that bytes decide, whatever happens after them: a byte that is no opcode, or a special whose
length is there in full and negative. -/
def ReadError.Settled (octets : Bytes) : ReadError → Prop
  | source _ => False
  | undefinedOpcode _ _ => True
  | unexpectedEnd opcode offset =>
    opcode = (Opcode.special .four).toByte ∧ NegativeWord (octets.drop (offset + 1))

namespace Reader

variable {reader last : Reader} {octets : Bytes}

/-! ## Where reading stops -/

/-- Operands that are missing are reported as the failure of the source, unless they have a negative
length. -/
theorem onShortage_extend (b : UInt8) (start : Nat) (shortage : Shortage) (e : IoError) :
    ((reader.extend [] (some e)).onShortage b start shortage).1 =
      match shortage with
      | .endless _ => .unexpectedEnd b start
      | .field _ | .counted _ => .source e := by
  cases shortage <;> rfl

/-- The bytes decide that operands are missing exactly if it is for a negative length. -/
theorem settled_unexpectedEnd_iff {b : UInt8} {start : Nat} {op : Opcode} {shortage : Shortage}
    (known : Opcode.ofByte? b = some op)
    (fails : Command.decode op ⟨start + 1, octets.drop (start + 1)⟩ = .error shortage) :
    (ReadError.unexpectedEnd b start).Settled octets ↔ ∃ after, shortage = .endless after := by
  have endless : (∃ after, Command.decode op ⟨start + 1, octets.drop (start + 1)⟩ = .error (.endless after))
      ↔ op = .special .four ∧ NegativeWord (octets.drop (start + 1)) := Decoder.decode_eq_endless_iff
  rw [fails] at endless
  have opcode : b = (Opcode.special .four).toByte ↔ op = .special .four := by
    constructor
    · rintro rfl
      rw [Opcode.ofByte?_toByte (by trivial)] at known
      exact (Option.some.inj known).symm
    · rintro rfl
      exact (Opcode.toByte_of_ofByte? known).symm
  show b = _ ∧ NegativeWord _ ↔ _
  rw [opcode, ← endless]
  simp

/-- At a place where no command is taken, a failing source gives the same error if the bytes decide it,
and its own failure otherwise. -/
theorem Stuck.readAll_extend_of_going (stuck : last.Stuck) (going : last.done = false)
    (healthy : last.failure = none) (place : last.cursor.rest = octets.drop last.offset) (e : IoError) :
    let plain := last.readAll.error?
    let failing := (last.extend [] (some e)).readAll
    let settled := ∃ error, plain = some error ∧ error.Settled octets
    failing.entries = [] ∧ failing.reader.done = true
      ∧ (settled → failing.error? = plain) ∧ (¬settled → failing.error? = some (.source e)) := by
  intro plain failing settled
  have goes : (last.extend [] (some e)).done = false := going
  cases bytes : last.cursor.rest with
  | nil =>
    have same : (last.extend [] (some e)).cursor.rest = [] := by
      simp [extend, bytes]
    have clean : plain = none := by
      show last.readAll.error? = none
      rw [readAll_of_end (next_of_nil going healthy bytes)]
    have fails : failing = ⟨[], some (.source e), _⟩ := readAll_of_error (next_of_rest_nil goes same)
    simp [settled, fails, clean, stopAt]
  | cons b rest =>
    have same : (last.extend [] (some e)).cursor.rest = b :: rest := by
      simp [extend, bytes]
    have behind : octets.drop (last.offset + 1) = rest := by
      rw [← List.drop_drop, ← place, bytes]
      rfl
    cases known : Opcode.ofByte? b with
    | none =>
      have undefined : plain = some (.undefinedOpcode b last.offset) := by
        show last.readAll.error? = _
        rw [readAll_of_error (next_of_undefined going bytes known)]
      have fails : failing = ⟨[], some (.undefinedOpcode b last.offset), _⟩ :=
        readAll_of_error (next_of_undefined goes same known)
      simp [settled, fails, undefined, stopAt, ReadError.Settled]
    | some op =>
      cases decoded : Command.decode op ⟨last.offset + 1, rest⟩ with
      | ok result => exact absurd (next_of_decode going bytes known decoded) (stuck _ _)
      | error shortage =>
        have short : plain = some (.unexpectedEnd b last.offset) := by
          show last.readAll.error? = _
          rw [readAll_of_error (next_of_shortage going bytes known decoded),
            onShortage_fst healthy]
        have fails : failing = ⟨[], some ((last.extend [] (some e)).onShortage b last.offset shortage).1, _⟩ :=
          readAll_of_error (next_of_shortage goes same known decoded)
        have decides := settled_unexpectedEnd_iff known (behind ▸ decoded)
        simp only [settled, fails, short, onShortage_extend]
        cases shortage <;> simp [stopAt, decides]

/-- The same at any place where no command is taken: behind the end of the postamble nothing is asked of
the source. -/
theorem Stuck.readAll_extend (stuck : last.Stuck) (healthy : last.failure = none)
    (place : last.cursor.rest = octets.drop last.offset) (e : IoError) :
    let plain := last.readAll.error?
    let failing := (last.extend [] (some e)).readAll
    let settled := last.done = true ∨ ∃ error, plain = some error ∧ error.Settled octets
    failing.entries = [] ∧ failing.reader.done = true
      ∧ (settled → failing.error? = plain) ∧ (¬settled → failing.error? = some (.source e)) := by
  intro plain failing settled
  cases finished : last.done with
  | false =>
    have here := stuck.readAll_extend_of_going finished healthy place e
    simpa [settled, finished] using here
  | true =>
    have stays : (last.extend [] (some e)).done = true := finished
    have nothing : plain = none := by
      show last.readAll.error? = none
      rw [readAll_of_end (next_of_done finished)]
    have also : failing = ⟨[], none, _⟩ := readAll_of_end (next_of_done stays)
    rw [also, nothing]
    exact ⟨rfl, stays, fun _ => rfl, fun unsettled => absurd (.inl finished) unsettled⟩

/-! ## Whole streams -/

/-- Reading bytes ends after the postamble or before bytes at which no command stands, and the input is
not said to have failed. -/
theorem Ends.sound {entries : List Entry} {left : Bytes} {stop : Nat} {e : Option ReadError}
    (h : Ends entries left stop e) :
    (AtEnd entries ∨ NoCommandAt left) ∧ ∀ other, e ≠ some (.source other) := by
  cases h with
  | postamble ended => exact ⟨.inl ended, by simp⟩
  | consumed none_left =>
    refine ⟨.inr ?_, by simp⟩
    intro c _ front
    rw [none_left, List.prefix_nil] at front
    exact c.bytes_ne_nil front
  | @broken b rest _ _ none_here =>
    refine ⟨.inr none_here, ?_⟩
    intro other
    unfold ReadError.ofByte
    split <;> simp

/-- A source that fails after its bytes gives the commands that it gives if its input ends there. If
reading comes to the end of the postamble, or to an error that the bytes decide, it ends in the same way;
otherwise it ends with the failure of the source, which an end of input is never taken for. Nothing is read
afterwards, and unless the end of the postamble was read there is no command where reading ends, so none is
lost. -/
theorem readAll_of_failing_source (octets : Bytes) (e : IoError) :
    let plain := readAll (.ofBytes octets)
    let failing := readAll (.ofBytes octets (some e))
    let settled := AtEnd plain.entries ∨ ∃ error, plain.error? = some error ∧ error.Settled octets
    failing.entries = plain.entries
      ∧ (settled → failing.error? = plain.error?)
      ∧ (¬settled → failing.error? = some (.source e))
      ∧ (∀ other, plain.error? ≠ some (.source other))
      ∧ failing.reader.next = (none, failing.reader)
      ∧ (AtEnd failing.entries ∨ NoCommandAt (octets.drop (stopAfter 0 failing.entries))) := by
  intro plain failing settled
  obtain ⟨last, leads, stuck⟩ := leads_readAll (.ofBytes octets)
  obtain ⟨-, -, -, healthy⟩ := leads.place
  -- What the failing source adds is decided at the last place of the plain run.
  obtain ⟨none_more, done, same, other⟩ := stuck.readAll_extend healthy leads.rest_eq e
  rw [leads.done_iff rfl] at same other
  have start : extend [] (some e) (.ofBytes octets) = .ofBytes octets (some e) := by
    simp [extend, ofBytes, Reader.offset]
  have fails := (leads.extend [] (some e)).readAll_eq
  rw [start, none_more, List.append_nil] at fails
  have plain_error : plain.error? = last.readAll.error? := by
    show (readAll (.ofBytes octets)).error? = _
    rw [leads.readAll_eq]
  have error : failing.error? = (readAll (last.extend [] (some e))).error? := by
    show (readAll (.ofBytes octets (some e))).error? = _
    rw [fails]
  have entries : failing.entries = plain.entries := by
    show (readAll (.ofBytes octets (some e))).entries = _
    rw [fails]
  have ended : failing.reader.done = true := by
    show (readAll (.ofBytes octets (some e))).reader.done = true
    rw [fails]
    exact done
  obtain ⟨-, -, -, -, ends⟩ := ends_ofBytes octets
  obtain ⟨sound, never⟩ := ends.sound
  rw [← plain_error, ← error] at same other
  refine ⟨entries, same, other, never, next_of_done ended, ?_⟩
  rw [entries]
  exact sound

/-- A failing source loses no special that is empty and stands at the very end. -/
example :
    let broken : IoError := ⟨"source broken"⟩
    let reading := readAll (.ofBytes [141, 239, 0] (some broken))
    reading.entries = [⟨0, 1, .push⟩, ⟨1, 3, .special .one []⟩] ∧ reading.error? = some (.source broken) := by
  decide +kernel

end Reader

end Dvi
