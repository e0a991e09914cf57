/-
# Dvi.Command.Decoding — the operands of a command out of a byte stream.

A decoder reads fields off the front of a stream and counts the bytes that it has passed. There are
two kinds of field. A fixed field is read whole or not at all. A counted string announces its length
first; when the stream is too short for it, the bytes that are there are still passed. A decoder
that cannot go on says which of these stopped it (`Shortage`), because a stream that fails and a
stream that ends are told apart only by the fields that ask for more bytes.

Decoders are made of fields by sequencing, so a property that fields have and that sequencing keeps is
one of the operands of every command (`Decoder.Compositional`). The main statement is the first of this
kind, `Command.passes_decode`: a command that is decoded passes some of the bytes that were there and
leaves the others, so repeated decoding comes to an end.
-/
import Dvi.Command.Encoding

namespace Dvi

/-- A place in a stream: the bytes still to be read and the offset of the first of them. -/
structure Cursor where
  offset : Nat
  rest : Bytes
deriving DecidableEq

/-- The place after the next `n` bytes. -/
def Cursor.advance (cursor : Cursor) (n : Nat) : Cursor :=
  ⟨cursor.offset + n, cursor.rest.drop n⟩

/-- Why the operands of a command could not be read. -/
inductive Shortage where
  /-- The stream is too short for the fixed field at this place. -/
  | field (start : Cursor)
  /-- The stream is too short for the counted string at this place. -/
  | counted (start : Cursor)
  /-- The length that stands before this place is negative: no stream is long enough. -/
  | endless (after : Cursor)
deriving DecidableEq

/-- A reader of fields. -/
abbrev Decoder := StateT Cursor (Except Shortage)

namespace Decoder

/-- The next `n` bytes, as a fixed field. -/
def field (n : Nat) : Decoder Bytes := fun cursor =>
  let found := cursor.rest.take n
  if found.length = n then .ok (found, cursor.advance n) else .error (.field cursor)

/-- The next `n` bytes, as a counted string. -/
def counted (n : Nat) : Decoder Bytes := fun cursor =>
  let found := cursor.rest.take n
  if found.length = n then .ok (found, cursor.advance n) else .error (.counted cursor)

/-- An unsigned byte. -/
def octet : Decoder UInt8 := do
  return UInt8.ofNat (ofBigEndian (← field 1))

/-- An unsigned half word. -/
def halfWord : Decoder UInt16 := do
  return UInt16.ofNat (ofBigEndian (← field 2))

/-- An unsigned word. -/
def word : Decoder UInt32 := do
  return UInt32.ofNat (ofBigEndian (← field 4))

/-- A number whose missing high bytes are zero. Four bytes are the two's complement of a signed
number, so no byte is missing and the number may be negative. -/
def unsigned (size : Width) : Decoder Int32 := do
  return Int32.ofNat (ofBigEndian (← field size.size))

/-- A number whose missing high bytes repeat its sign. -/
def signed (size : Width) : Decoder Int32 := do
  return Int32.ofInt (Int.bmod (ofBigEndian (← field size.size)) size.patterns)

/-- The four bytes of a signed number. -/
def signedWord : Decoder Int32 :=
  signed .four

/-- The same decoder `n` times. -/
def times {α : Type} (decoder : Decoder α) : (n : Nat) → Decoder (Vector α n)
  | 0 => pure #v[]
  | n + 1 => do
    let before ← decoder.times n
    return before.push (← decoder)

/-- A unit of length. -/
def units : Decoder Units := do
  return { num := ← word, den := ← word, mag := ← word }

/-- The length of a special, and the special. -/
def special (size : Width) : Decoder Bytes := do
  let length ← unsigned size
  if length < 0 then
    throw (.endless (← get))
  counted length.toInt.toNat

/-- The operands of a font definition. Both lengths stand before both strings. -/
def font (size : Width) : Decoder Font := do
  let number ← unsigned size
  let checksum ← word
  let scale ← signedWord
  let designSize ← signedWord
  let areaLength ← octet
  let nameLength ← octet
  let area ← counted areaLength.toNat
  let name ← counted nameLength.toNat
  return { number, checksum, scale, designSize, area, name }

/-- What the postamble says of the stream. -/
def summary : Decoder Summary := do
  return {
    prev := ← signedWord
    units := ← units
    maxHeight := ← signedWord
    maxWidth := ← signedWord
    maxStack := ← halfWord
    pages := ← halfWord }

end Decoder

namespace Command

open Decoder

/-- The operands that follow an opcode, and so the whole command. -/
def decode : Opcode → Decoder Command
  | .setChar code => return setChar code
  | .set size => return set size (← unsigned size)
  | .setRule => return setRule (← signedWord) (← signedWord)
  | .put size => return put size (← unsigned size)
  | .putRule => return putRule (← signedWord) (← signedWord)
  | .nop => return nop
  | .bop => return bop (← signedWord.times 10) (← signedWord)
  | .eop => return eop
  | .push => return push
  | .pop => return pop
  | .move axis size => return move axis size (← signed size)
  | .again spacing => return again spacing
  | .space spacing size => return space spacing size (← signed size)
  | .fontNum number => return fontNum number
  | .selectFont size => return selectFont size (← unsigned size)
  | .special size => return special size (← Decoder.special size)
  | .fontDef size => return fontDef size (← Decoder.font size)
  | .pre => do
    let id ← octet
    let units ← units
    let length ← octet
    return pre id units (← counted length.toNat)
  | .post => return post (← summary)
  | .postPost => return postPost (← signedWord) (← octet)

end Command

/-! ## Decoding reads off the front -/

theorem Cursor.advance_advance (cursor : Cursor) (m n : Nat) :
    (cursor.advance m).advance n = cursor.advance (m + n) := by
  simp [advance, Nat.add_assoc]

namespace Decoder

variable {α β : Type}

/-- A decoder that succeeds only by passing some of the bytes that are there. -/
def Passes (decoder : Decoder α) : Prop :=
  ∀ before a after, decoder before = .ok (a, after) →
    ∃ n ≤ before.rest.length, after = before.advance n

theorem Passes.pure (a : α) : Passes (Pure.pure a) := by
  intro before b after h
  cases h
  exact ⟨0, Nat.zero_le _, by simp [Cursor.advance]⟩

theorem Passes.bind {decoder : Decoder α} {next : α → Decoder β} (h : decoder.Passes)
    (hnext : ∀ a, (next a).Passes) : Passes (decoder >>= next) := by
  intro before b after run
  cases first : decoder before with
  | error fault => simp [Bind.bind, StateT.bind, Except.bind, first] at run
  | ok found =>
    obtain ⟨a, middle⟩ := found
    have rest : next a middle = .ok (b, after) := by
      simpa [Bind.bind, StateT.bind, Except.bind, first] using run
    obtain ⟨m, hm, rfl⟩ := h _ _ _ first
    obtain ⟨n, hn, rfl⟩ := hnext a _ _ _ rest
    refine ⟨m + n, ?_, Cursor.advance_advance ..⟩
    rw [Cursor.advance, List.length_drop] at hn
    omega

theorem passes_field (n : Nat) : (field n).Passes := by
  intro before a after h
  simp only [field] at h
  split at h
  · next found =>
    cases h
    rw [List.length_take] at found
    exact ⟨n, by omega, rfl⟩
  · cases h

theorem passes_counted (n : Nat) : (counted n).Passes := by
  intro before a after h
  simp only [counted] at h
  split at h
  · next found =>
    cases h
    rw [List.length_take] at found
    exact ⟨n, by omega, rfl⟩
  · cases h

end Decoder

/-! ## Decoding is made of fields -/

/-- A property of decoders that a field has and that sequencing keeps. -/
structure Decoder.Compositional (P : (α : Type) → Decoder α → Prop) : Prop where
  pure : ∀ {α : Type} (a : α), P α (Pure.pure a)
  bind : ∀ {α β : Type} {decoder : Decoder α} {next : α → Decoder β},
    P α decoder → (∀ a, P β (next a)) → P β (decoder >>= next)
  field : ∀ n, P Bytes (field n)
  counted : ∀ n, P Bytes (counted n)

namespace Decoder.Compositional

variable {P : (α : Type) → Decoder α → Prop}

theorem octet (h : Compositional P) : P _ octet :=
  h.bind (h.field 1) fun _ => h.pure _

theorem halfWord (h : Compositional P) : P _ halfWord :=
  h.bind (h.field 2) fun _ => h.pure _

theorem word (h : Compositional P) : P _ word :=
  h.bind (h.field 4) fun _ => h.pure _

theorem unsigned (h : Compositional P) (size : Width) : P _ (unsigned size) :=
  h.bind (h.field _) fun _ => h.pure _

theorem signed (h : Compositional P) (size : Width) : P _ (signed size) :=
  h.bind (h.field _) fun _ => h.pure _

theorem times (h : Compositional P) {α : Type} {decoder : Decoder α} (each : P α decoder) (n : Nat) :
    P _ (decoder.times n) := by
  induction n with
  | zero => exact h.pure _
  | succ n ih => exact h.bind ih fun _ => h.bind each fun _ => h.pure _

theorem units (h : Compositional P) : P _ units :=
  h.bind h.word fun _ => h.bind h.word fun _ => h.bind h.word fun _ => h.pure _

theorem font (h : Compositional P) (size : Width) : P _ (font size) :=
  h.bind (h.unsigned size) fun _ => h.bind h.word fun _ => h.bind (h.signed _) fun _ =>
    h.bind (h.signed _) fun _ => h.bind h.octet fun _ => h.bind h.octet fun _ =>
    h.bind (h.counted _) fun _ => h.bind (h.counted _) fun _ => h.pure _

theorem summary (h : Compositional P) : P _ summary :=
  h.bind (h.signed _) fun _ => h.bind h.units fun _ => h.bind (h.signed _) fun _ =>
    h.bind (h.signed _) fun _ => h.bind h.halfWord fun _ => h.bind h.halfWord fun _ => h.pure _

/-- A special has the property if giving up at a negative length has it. -/
theorem special (h : Compositional P)
    (endless : P Bytes (do throw (.endless (← get)))) (size : Width) : P _ (special size) := by
  refine h.bind (h.unsigned size) fun length => ?_
  split
  · exact endless
  · exact h.counted _

/-- The operands of every command have the property if those of a special do. -/
theorem decode (h : Compositional P) {op : Opcode}
    (special : ∀ size, op = .special size → P _ (Decoder.special size)) :
    P _ (Command.decode op) := by
  cases op with
  | setRule | putRule => exact h.bind (h.signed _) fun _ => h.bind (h.signed _) fun _ => h.pure _
  | set size | put size | selectFont size => exact h.bind (h.unsigned size) fun _ => h.pure _
  | move axis size => exact h.bind (h.signed size) fun _ => h.pure _
  | space spacing size => exact h.bind (h.signed size) fun _ => h.pure _
  | bop => exact h.bind (h.times (h.signed _) 10) fun _ => h.bind (h.signed _) fun _ => h.pure _
  | special size => exact h.bind (special size rfl) fun _ => h.pure _
  | fontDef size => exact h.bind (h.font size) fun _ => h.pure _
  | pre =>
    exact h.bind h.octet fun _ => h.bind h.units fun _ => h.bind h.octet fun _ =>
      h.bind (h.counted _) fun _ => h.pure _
  | post => exact h.bind h.summary fun _ => h.pure _
  | postPost => exact h.bind (h.signed _) fun _ => h.bind h.octet fun _ => h.pure _
  | _ => exact h.pure _

end Decoder.Compositional

namespace Command

open Decoder

theorem compositional_passes : Compositional fun _ decoder => decoder.Passes where
  pure := .pure
  bind := .bind
  field := passes_field
  counted := passes_counted

/-- A decoded command passes some of the bytes that stand after its opcode, and nothing else. -/
theorem passes_decode (op : Opcode) : (decode op).Passes := by
  refine compositional_passes.decode fun size _ => compositional_passes.special ?_ size
  intro before a after h
  cases h

/-- A decoded command leaves at most the bytes that stood after its opcode. -/
theorem length_rest_le {op : Opcode} {before after : Cursor} {c : Command}
    (h : decode op before = .ok (c, after)) : after.rest.length ≤ before.rest.length := by
  obtain ⟨n, _, rfl⟩ := passes_decode op _ _ _ h
  simp [Cursor.advance]

end Command

end Dvi
