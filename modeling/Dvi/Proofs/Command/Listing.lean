/-
# Dvi.Proofs.Command.Listing — which commands take more than one line in a listing.

Mnemonics, numbers and octets in quotes stay on their line. The area and the name of a font are shown as
they are, so a font definition breaks its line once for each line feed in them (`count_text`), and nothing
else breaks a line.
-/
import Dvi.Proofs.Text.Plain
import Dvi.Proofs.Text.Utf8

namespace Dvi

theorem Opcode.plain_name (op : Opcode) : Plain op.name := by
  cases op with
  | setChar code | fontNum code => exact Plain.append (by decide) (Plain.uint8 code)
  | set size | put size | selectFont size | special size | fontDef size =>
    exact Plain.append (by decide) (Plain.nat size.size)
  | move axis size => cases axis <;> exact Plain.append (by decide) (Plain.nat size.size)
  | again spacing => cases spacing <;> decide
  | space spacing size => cases spacing <;> exact Plain.append (by decide) (Plain.nat size.size)
  | setRule | putRule | nop | bop | eop | push | pop | pre | post | postPost => decide

theorem Units.plain_text (units : Units) : Plain units.text := by
  simp only [text, Plain.append_iff, Plain.uint32, and_true]
  decide

namespace Command

/-- The octets of a command that a listing shows as they are: the area and the name of a font. -/
def shownAsIs : Command → Bytes
  | fontDef _ font => font.area ++ font.name
  | _ => []

/-- The operands of a command that defines no font are plain. -/
theorem plain_operandText {c : Command} (other : ∀ size font, c ≠ fontDef size font) : Plain c.operandText := by
  cases c with
  | fontDef size font => exact absurd rfl (other size font)
  | set size n | put size n | move axis size n | space spacing size n | selectFont size n =>
    exact Plain.append (by decide) (Plain.int32 n)
  | setRule height width | putRule height width =>
    simp only [operandText, Plain.append_iff, Plain.int32, and_true]
    decide
  | bop counters prev =>
    have shown : Plain (" ".intercalate (counters.toList.map toString)) :=
      Plain.intercalate (by decide) (List.forall_mem_map.mpr fun n _ => Plain.int32 n)
    exact (((by decide : Plain " [").append shown).append (by decide)).append (Plain.int32 prev)
  | special size payload => exact Plain.append (by decide) (Plain.quoted payload)
  | pre id units comment =>
    refine Plain.append ?_ (Plain.quoted comment)
    simp only [Plain.append_iff, Plain.toString_iff, Plain.uint8, Units.plain_text, and_true]
    decide
  | post summary =>
    simp only [operandText, Plain.append_iff, Plain.toString_iff, Plain.int32, Plain.uint16, Units.plain_text,
      and_true]
    decide
  | postPost pointer id =>
    simp only [operandText, Plain.append_iff, Plain.int32, Plain.uint8, and_true]
    decide
  | setChar | nop | eop | push | pop | again | fontNum =>
    show Plain ""
    decide

/-- The text of a command breaks its line at the line feeds in the area and the name of a font only. -/
theorem count_text (c : Command) : c.text.toList.count '\n' = c.shownAsIs.count 10 := by
  have mnemonic : c.name.toList.count '\n' = 0 := (Opcode.plain_name c.opcode).count_feed
  rw [text, String.toList_append, List.count_append, mnemonic, Nat.zero_add]
  cases c with
  | fontDef size font =>
    let checksum := hexWord font.checksum
    have front : Plain
        s!" {font.number} checksum={checksum} scale={font.scale} design={font.designSize} " := by
      simp only [checksum, Plain.append_iff, Plain.toString_iff, Plain.int32, Plain.hexWord, and_true]
      decide
    rw [operandText, String.toList_append, String.toList_append, List.count_append, List.count_append,
      front.count_feed, Utf8.count_lossy, Utf8.count_lossy, Nat.zero_add, shownAsIs, List.count_append]
  | _ =>
    refine (plain_operandText ?_).count_feed
    intro _ _ same
    cases same

end Command

end Dvi
