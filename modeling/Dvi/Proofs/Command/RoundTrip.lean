/-
# Dvi.Proofs.Command.RoundTrip — decoding undoes encoding, and encoding undoes decoding.

An operand is cut to its width when it is written, so what is read is what is left of a command
(`Command.readBack`), which is the command itself exactly if its operands fit. The main statements
are `Command.reads_decode`, that the operands of a command that has an encoding are read as what is
left of it, and `Command.readsOnly_decode`, that every decoded command has an encoding and stands in
the stream with its own operands.
-/
import Dvi.Proofs.Command.Fields

namespace Dvi

namespace Command

/-- What is left of a command once its operands were cut to their widths and read again. -/
def readBack : Command → Command
  | set size code => set size (size.zeroExtend code)
  | put size code => put size (size.zeroExtend code)
  | move axis size amount => move axis size (size.signExtend amount)
  | space spacing size amount => space spacing size (size.signExtend amount)
  | selectFont size number => selectFont size (size.zeroExtend number)
  | fontDef size font => fontDef size { font with number := size.zeroExtend font.number }
  | c => c

/-- A command whose operands their widths can store. -/
def Fits : Command → Prop
  | set size code | put size code => size.FitsUnsigned code
  | move _ size amount | space _ size amount => size.FitsSigned amount
  | selectFont size number => size.FitsUnsigned number
  | fontDef size font => size.FitsUnsigned font.number
  | _ => True

instance (c : Command) : Decidable c.Fits := by
  cases c <;> unfold Fits <;> infer_instance

/-- A command comes back unchanged exactly if its operands fit. -/
theorem readBack_eq_self_iff (c : Command) : c.readBack = c ↔ c.Fits := by
  cases c with
  | set size code => simpa [readBack, Fits] using size.zeroExtend_eq_self_iff code
  | put size code => simpa [readBack, Fits] using size.zeroExtend_eq_self_iff code
  | move axis size amount => simpa [readBack, Fits] using size.signExtend_eq_self_iff amount
  | space spacing size amount => simpa [readBack, Fits] using size.signExtend_eq_self_iff amount
  | selectFont size number => simpa [readBack, Fits] using size.zeroExtend_eq_self_iff number
  | fontDef size font =>
    rw [readBack, Fits, ← size.zeroExtend_eq_self_iff]
    constructor
    · intro same
      have fonts := (Command.fontDef.inj same).2
      exact congrArg Font.number fonts
    · intro same
      rw [same]
  | _ => exact iff_of_true rfl trivial

/-! ## Whole commands -/

open Decoder

/-- A special that has an encoding is as long as its length field can say. -/
theorem length_le_of_special {size : Width} {payload : Bytes}
    (encodes : (special size payload).violation? = none) : payload.length ≤ size.maxLength := by
  refine Decidable.byContradiction fun long => ?_
  rw [violation?, if_neg long] at encodes
  cases encodes

/-- The operands of a command that has an encoding are read as what is left of the command. -/
theorem reads_decode {c : Command} (encodes : c.violation? = none) :
    (decode c.opcode).Reads c.operands c.readBack := by
  cases c with
  | set size code | put size code => exact (reads_unsigned size code).answering _
  | setRule height width | putRule height width =>
    exact (reads_signedWord height).bind ((reads_signedWord width).answering _)
  | bop counters prev =>
    exact (Reads.times reads_signedWord counters).bind ((reads_signedWord prev).answering _)
  | move axis size amount => exact (reads_signed size amount).answering _
  | space spacing size amount => exact (reads_signed size amount).answering _
  | selectFont size number => exact (reads_unsigned size number).answering _
  | special size payload => exact (reads_special (length_le_of_special encodes)).answering _
  | fontDef size font =>
    rw [violation?] at encodes
    split at encodes
    · cases encodes
    · next area =>
      split at encodes
      · cases encodes
      · next name =>
        exact (reads_font size (Nat.le_of_not_lt area) (Nat.le_of_not_lt name)).answering _
  | pre id units comment =>
    have short : comment.length ≤ 255 := by
      refine Decidable.byContradiction fun long => ?_
      rw [violation?, if_neg long] at encodes
      cases encodes
    exact (reads_octet id).bind <| (reads_units units).bind <|
      (reads_octet (Encoder.shortLength comment)).bind <| (reads_shortString short).answering _
  | post summary => exact (reads_summary summary).answering _
  | postPost pointer id => exact (reads_signedWord pointer).bind ((reads_octet id).answering _)
  | setChar | nop | eop | push | pop | again | fontNum => exact .pure _

/-- What is decoded after an opcode of the table is a command with this opcode that has an encoding,
and it was read from its own operands. -/
theorem readsOnly_decode {op : Opcode} (standard : op.Standard) : (decode op).ReadsOnly fun c bs =>
    c.opcode = op ∧ c.violation? = none ∧ bs = c.operands := by
  cases op with
  | setChar code =>
    refine (ReadsOnly.pure _).mono ?_
    rintro c bs ⟨rfl, rfl⟩
    exact ⟨rfl, if_pos standard, rfl⟩
  | fontNum number =>
    refine (ReadsOnly.pure _).mono ?_
    rintro c bs ⟨rfl, rfl⟩
    exact ⟨rfl, if_pos standard, rfl⟩
  | set size | put size | selectFont size =>
    refine (readsOnly_unsigned size).answering _ ?_
    rintro x bs rfl
    exact ⟨rfl, rfl, rfl⟩
  | move axis size =>
    refine (readsOnly_signed size).answering _ ?_
    rintro x bs rfl
    exact ⟨rfl, rfl, rfl⟩
  | space spacing size =>
    refine (readsOnly_signed size).answering _ ?_
    rintro x bs rfl
    exact ⟨rfl, rfl, rfl⟩
  | setRule | putRule =>
    refine (readsOnly_signedWord.bind fun _ => readsOnly_signedWord.bind fun _ => .pure _).mono ?_
    rintro c bs ⟨height, _, _, rfl, ⟨width, _, _, rfl, ⟨rfl, rfl⟩, rfl⟩, rfl⟩
    rw [List.append_nil]
    exact ⟨rfl, rfl, rfl⟩
  | bop =>
    refine ((ReadsOnly.times readsOnly_signedWord 10).bind fun _ =>
      readsOnly_signedWord.bind fun _ => .pure _).mono ?_
    rintro c bs ⟨counters, _, _, rfl, ⟨prev, _, _, rfl, ⟨rfl, rfl⟩, rfl⟩, rfl⟩
    rw [List.append_nil]
    exact ⟨rfl, rfl, rfl⟩
  | special size =>
    refine (readsOnly_special size).answering _ ?_
    rintro payload bs ⟨bound, rfl⟩
    exact ⟨rfl, if_pos bound, rfl⟩
  | fontDef size =>
    refine (readsOnly_font size).answering _ ?_
    rintro font bs ⟨area, name, rfl⟩
    refine ⟨rfl, ?_, rfl⟩
    rw [violation?, if_neg (Nat.not_lt.mpr area), if_neg (Nat.not_lt.mpr name)]
  | pre =>
    refine (readsOnly_octet.bind fun _ => readsOnly_units.bind fun _ => readsOnly_octet.bind fun _ =>
      (readsOnly_counted _).bind fun _ => .pure _).mono ?_
    rintro c bs ⟨id, _, _, rfl, ⟨units, _, _, rfl, ⟨length, _, _, rfl, ⟨comment, _, _, ⟨rfl, counted⟩,
      ⟨rfl, rfl⟩, rfl⟩, rfl⟩, rfl⟩, rfl⟩
    have short : comment.length ≤ 255 := by
      have := length.toNat_lt
      omega
    refine ⟨rfl, if_pos short, ?_⟩
    rw [operands, shortLength_eq counted, List.append_nil]
    rfl
  | post =>
    refine readsOnly_summary.answering _ ?_
    rintro summary bs rfl
    exact ⟨rfl, rfl, rfl⟩
  | postPost =>
    refine (readsOnly_signedWord.bind fun _ => readsOnly_octet.bind fun _ => .pure _).mono ?_
    rintro c bs ⟨pointer, _, _, rfl, ⟨id, _, _, rfl, ⟨rfl, rfl⟩, rfl⟩, rfl⟩
    exact ⟨rfl, rfl, rfl⟩
  | nop | eop | push | pop | again =>
    refine (ReadsOnly.pure _).mono ?_
    rintro c bs ⟨rfl, rfl⟩
    exact ⟨rfl, rfl, rfl⟩

/-- What is left of a command has the bytes of the command, and it comes back unchanged. -/
theorem readBack_spec {c : Command} (encodes : c.violation? = none) :
    c.readBack.violation? = none ∧ c.readBack.bytes = c.bytes ∧ c.readBack.Fits := by
  have first := reads_decode encodes 0 []
  obtain ⟨operands, ⟨opcode, again, rfl⟩, front, -⟩ :=
    readsOnly_decode (standard_of_violation? encodes) _ _ _ first
  have same : c.readBack.operands = c.operands := by
    simpa using front.symm
  -- The same bytes are read as what is left of a command and as what is left of that.
  have second := reads_decode again 0 []
  rw [opcode, same, first] at second
  have back : c.readBack.readBack = c.readBack := (congrArg Prod.fst (Except.ok.inj second)).symm
  refine ⟨again, ?_, c.readBack.readBack_eq_self_iff.mp back⟩
  rw [bytes, bytes, opcode, same]

end Command

end Dvi
