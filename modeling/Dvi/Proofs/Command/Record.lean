/-
# Dvi.Proofs.Command.Record — a command can be told from its record.

The mnemonic in a record tells the opcode, also an opcode that has no place in the table
(`Opcode.name_injective`), and the operands tell the rest (`eq_of_members`). What was written is read back as
values (`parse?_json`); a value forgets of an operand at most which octets were no text. So commands whose
strings spell texts are the same if their records are (`eq_of_json`). A record is plain whatever is in it.
-/
import Dvi.Command.Record
import Dvi.Proofs.Text.Json
import Dvi.Proofs.Text.Plain
import Dvi.Proofs.Text.Utf8
import Mathlib.Data.List.Nodup

namespace Dvi

open Json (Value Spells)

/-! ## Mnemonics -/

namespace Opcode

/-- The opcodes of a character and of a font. Any byte is the number of one. -/
def numbered : (char : Bool) → UInt8 → Opcode
  | true, code => setChar code
  | false, number => fontNum number

/-- What the mnemonic of a numbered opcode begins with. -/
def stem : (char : Bool) → List Char
  | true => "set_char_".toList
  | false => "fnt_num_".toList

/-- The other opcodes. -/
def fixed : List Opcode :=
  table.toList.filter fun
    | setChar _ | fontNum _ => false
    | _ => true

theorem numbered_or_fixed (op : Opcode) : (∃ char number, op = numbered char number) ∨ op ∈ fixed := by
  cases op with
  | setChar code => exact .inl ⟨true, code, rfl⟩
  | fontNum number => exact .inl ⟨false, number, rfl⟩
  | _ =>
    refine .inr (List.mem_filter.mpr ⟨Array.mem_toList_iff.mpr (mem_table ?_), rfl⟩)
    trivial

theorem nodup_name_fixed : (fixed.map name).Nodup := by
  decide +kernel

theorem not_stem_prefix_name_fixed : ∀ op ∈ fixed, ∀ char, ¬stem char <+: op.name.toList := by
  decide +kernel

theorem name_numbered (char : Bool) (number : UInt8) :
    (numbered char number).name.toList = stem char ++ (toString number).toList := by
  cases char with
  | true => exact String.toList_append
  | false => exact String.toList_append

/-- A numbered opcode is known by its stem and its digits. -/
theorem numbered_eq_of_name {char other : Bool} {a b : UInt8}
    (same : stem char ++ (toString a).toList = stem other ++ (toString b).toList) :
    numbered char a = numbered other b := by
  have occupied : ∀ char, stem char ≠ [] := by decide
  have initials : ∀ char other, (stem char).head? = (stem other).head? → char = other := by decide
  have heads := congrArg List.head? same
  rw [List.head?_append_of_ne_nil _ (occupied char), List.head?_append_of_ne_nil _ (occupied other)] at heads
  obtain rfl := initials char other heads
  have digits : Nat.toDigits 10 a.toNat = Nat.toDigits 10 b.toNat := by
    rw [← String.ofList_inj, ← Nat.toString_eq_ofList_toDigits, ← Nat.toString_eq_ofList_toDigits]
    exact String.toList_inj.mp (List.append_cancel_left same)
  have values := congrArg (Nat.ofDigitChars 10 · 0) digits
  rw [Nat.ofDigitChars_ten_toDigits, Nat.ofDigitChars_ten_toDigits] at values
  rw [UInt8.toNat_inj.mp values]

/-- An opcode is known by its mnemonic, also if it has no place in the table. -/
theorem name_injective {op other : Opcode} (same : op.name = other.name) : op = other := by
  have chars : op.name.toList = other.name.toList := congrArg String.toList same
  rcases numbered_or_fixed op with ⟨char, a, rfl⟩ | own
  · rw [name_numbered] at chars
    rcases numbered_or_fixed other with ⟨char', b, rfl⟩ | own
    · rw [name_numbered] at chars
      exact numbered_eq_of_name chars
    · exact absurd ⟨_, chars⟩ (not_stem_prefix_name_fixed other own char)
  · rcases numbered_or_fixed other with ⟨char, b, rfl⟩ | own'
    · rw [name_numbered] at chars
      exact absurd ⟨_, chars.symm⟩ (not_stem_prefix_name_fixed op own char)
    · exact List.inj_on_of_nodup_map nodup_name_fixed own own' same

end Opcode

namespace Command

/-- The mnemonic says which command it is, and the operands say the rest. -/
theorem eq_of_members {c d : Command} (opcodes : c.opcode = d.opcode) (operands : c.members = d.members) :
    c = d := by
  cases c <;> cases d <;> cases opcodes
  case bop.bop.refl counters prev counters' prev' =>
    simp only [members, List.cons.injEq, Prod.mk.injEq, Operand.numbers.injEq, Operand.number.injEq,
      Int32.toInt_inj, true_and, and_true] at operands
    have words : counters.toList = counters'.toList :=
      List.map_injective_iff.mpr (fun _ _ => Int32.toInt_inj.mp) operands.1
    rw [Vector.toList_inj.mp words, operands.2]
  case fontDef.fontDef.refl font other =>
    cases font
    cases other
    simp only [members, List.cons.injEq, Prod.mk.injEq, Operand.number.injEq, Operand.text.injEq,
      Int32.toInt_inj, Int.natCast_inj, UInt32.toNat_inj, true_and, and_true] at operands
    obtain ⟨rfl, rfl, rfl, rfl, rfl, rfl⟩ := operands
    rfl
  case pre.pre.refl units comment id other d =>
    cases units
    cases other
    simp only [members, Units.members, List.cons_append, List.nil_append, List.cons.injEq, Prod.mk.injEq,
      Operand.number.injEq, Operand.text.injEq, Int.natCast_inj, UInt8.toNat_inj, UInt32.toNat_inj, true_and,
      and_true] at operands
    obtain ⟨rfl, rfl, rfl, rfl, rfl⟩ := operands
    rfl
  case post.post.refl summary other =>
    obtain ⟨_, ⟨_, _, _⟩, _, _, _, _⟩ := summary
    obtain ⟨_, ⟨_, _, _⟩, _, _, _, _⟩ := other
    simp only [members, Units.members, List.cons_append, List.nil_append, List.cons.injEq, Prod.mk.injEq,
      Operand.number.injEq, Int32.toInt_inj, Int.natCast_inj, UInt16.toNat_inj, UInt32.toNat_inj, true_and,
      and_true] at operands
    obtain ⟨rfl, rfl, rfl, rfl, rfl, rfl, rfl, rfl⟩ := operands
    rfl
  all_goals
    simp only [members, List.cons.injEq, Prod.mk.injEq, Operand.number.injEq, Operand.text.injEq,
      Int32.toInt_inj, Int.natCast_inj, UInt8.toNat_inj, true_and, and_true] at operands
    simp only [operands]

end Command

/-! ## Records are read back -/

namespace Operand

/-- The value that an operand is shown as. -/
def value : Operand → Value
  | number n => .number n
  | numbers ns => .array (ns.map .number)
  | text octets => .text (Utf8.lossy octets)

theorem spells_json (operand : Operand) : Spells operand.json operand.value := by
  cases operand with
  | number n => exact Json.spells_number n
  | numbers ns =>
    apply Json.spells_array
    rw [List.forall₂_map_left_iff, List.forall₂_map_right_iff, List.forall₂_same]
    exact fun n _ => Json.spells_number n
  | text octets => exact Json.spells_string _

theorem plain_json (operand : Operand) : Plain operand.json := by
  cases operand with
  | number n => exact Plain.int n
  | numbers ns => exact Plain.array (List.forall_mem_map.mpr fun n _ => Plain.int n)
  | text octets => exact Plain.string _

/-- A string that spells a text, or no string. -/
def Textual : Operand → Prop
  | number _ | numbers _ => True
  | text octets => Utf8.Valid octets

theorem eq_of_value {operand other : Operand} (textual : operand.Textual) (textual' : other.Textual)
    (same : operand.value = other.value) : operand = other := by
  cases operand <;> cases other <;> simp only [value, reduceCtorEq] at same
  case number.number n m => rw [Value.number.inj same]
  case numbers.numbers ns ms =>
    have numbers : ns = ms :=
      List.map_injective_iff.mpr (fun _ _ => Value.number.inj) (Value.array.inj same)
    rw [numbers]
  case text.text octets others =>
    rw [(Utf8.lossy_inj textual textual').mp (Value.text.inj same)]

/-- Named operands are known by what they are shown as. -/
theorem eq_of_map_value {members others : List (String × Operand)} (textual : ∀ m ∈ members, m.2.Textual)
    (textual' : ∀ m ∈ others, m.2.Textual)
    (same : members.map (Prod.map id value) = others.map (Prod.map id value)) : members = others := by
  induction members generalizing others with
  | nil => exact (List.map_eq_nil_iff.mp same.symm).symm
  | cons m members ih =>
    cases others with
    | nil => cases same
    | cons other others =>
      obtain ⟨head, tail⟩ := List.forall_mem_cons.mp textual
      obtain ⟨head', tail'⟩ := List.forall_mem_cons.mp textual'
      obtain ⟨first, later⟩ := List.cons.inj same
      obtain ⟨keys, values⟩ := Prod.mk.inj first
      rw [Prod.ext keys (eq_of_value head head' values), ih tail tail' later]

end Operand

namespace Command

/-- The strings of octets in a command. -/
def strings : Command → List Bytes
  | special _ payload => [payload]
  | fontDef _ font => [font.area, font.name]
  | pre _ _ comment => [comment]
  | _ => []

/-- The strings of a command spell texts. -/
def Textual (c : Command) : Prop :=
  ∀ octets ∈ c.strings, Utf8.Valid octets

theorem Textual.members {c : Command} (textual : c.Textual) : ∀ m ∈ c.members, m.2.Textual := by
  cases c
  all_goals
    simp only [Textual, strings, List.forall_mem_cons] at textual
    simp [Command.members, Units.members, Operand.Textual, textual]

/-- The operands of a command by name, as what they are shown as. -/
def args (c : Command) : List (String × Value) :=
  c.members.map (Prod.map id Operand.value)

/-- The strings among the operands are the strings of the command. -/
theorem filterMap_args (c : Command) :
    c.args.filterMap (fun arg => arg.2.text?) = c.strings.map Utf8.lossy := by
  cases c <;> rfl

/-- Operands as a member of a record, if there are any. -/
def argsMember : List (String × Value) → List (String × Value)
  | [] => []
  | args => [("args", .object args)]

theorem argsMember_inj {args others : List (String × Value)} (same : argsMember args = argsMember others) :
    args = others := by
  cases args <;> cases others
  · rfl
  · cases same
  · cases same
  · exact Value.object.inj (congrArg (·.2) (List.cons.inj same).1)

/-- The members of a record as what they are written for. -/
def recordValues (c : Command) : List (String × Value) :=
  ("cmd", .text c.name) :: argsMember c.args

theorem spells_recordMembers (c : Command) :
    List.Forall₂ (fun text member => text.1 = member.1 ∧ Spells text.2 member.2) c.recordMembers
      c.recordValues := by
  rw [recordMembers, recordValues, args]
  refine .cons ⟨rfl, Json.spells_string c.name⟩ ?_
  cases c.members with
  | nil => exact .nil
  | cons m members =>
    refine .cons ⟨rfl, Json.spells_object ?_⟩ .nil
    rw [List.forall₂_map_left_iff, List.forall₂_map_right_iff, List.forall₂_same]
    exact fun m _ => ⟨rfl, m.2.spells_json⟩

/-- The record of a command is read back as its mnemonic and its operands. -/
theorem parse?_json (c : Command) : Json.parse? c.json = some (.object c.recordValues) :=
  Json.parse?_of_spells (Json.spells_object c.spells_recordMembers)

theorem parse?_jsonAt (c : Command) (offset : Nat) :
    Json.parse? (c.jsonAt offset) = some (.object (("offset", .number offset) :: c.recordValues)) :=
  Json.parse?_of_spells
    (Json.spells_object (.cons ⟨rfl, Json.spells_number offset⟩ c.spells_recordMembers))

theorem plain_recordMembers (c : Command) : ∀ member ∈ c.recordMembers, Plain member.2 := by
  refine List.forall_mem_cons.mpr ⟨Plain.string c.name, ?_⟩
  split
  · exact List.forall_mem_nil _
  · refine List.forall_mem_singleton.mpr (Plain.object (List.forall_mem_map.mpr ?_))
    exact fun m _ => m.2.plain_json

theorem plain_json (c : Command) : Plain c.json :=
  Plain.object c.plain_recordMembers

theorem plain_jsonAt (c : Command) (offset : Nat) : Plain (c.jsonAt offset) :=
  Plain.object (List.forall_mem_cons.mpr ⟨Plain.nat offset, c.plain_recordMembers⟩)

/-- A record says where its command was read before it goes on like the record of the command alone. -/
theorem jsonAt_eq (c : Command) (offset : Nat) : ∃ rest, c.json = "\x7b" ++ rest
    ∧ c.jsonAt offset = "\x7b\"offset\":" ++ toString offset ++ "," ++ rest := by
  let write : String × String → String := fun member => Json.string member.1 ++ ":" ++ member.2
  obtain ⟨m, ms, members⟩ : ∃ m ms, c.recordMembers = m :: ms := ⟨_, _, rfl⟩
  have label : "\x7b\"offset\":" = "\x7b" ++ (Json.string "offset" ++ ":") := by decide
  refine ⟨",".intercalate (write m :: ms.map write) ++ "\x7d", ?_, ?_⟩
  · rw [json, members, ← String.append_assoc]
    rfl
  · rw [jsonAt, members, label]
    show "\x7b" ++ ",".intercalate (write ("offset", toString offset) :: write m :: ms.map write) ++ "\x7d" = _
    rw [String.intercalate_cons_cons]
    show "\x7b" ++ (Json.string "offset" ++ ":" ++ toString offset ++ "," ++ _) ++ "\x7d" = _
    simp only [String.append_assoc]

/-- Commands whose strings spell texts are known by their records. -/
theorem eq_of_json {c d : Command} (textual : c.Textual) (textual' : d.Textual) (same : c.json = d.json) :
    c = d := by
  have values : some (Value.object c.recordValues) = some (.object d.recordValues) := by
    rw [← parse?_json, ← parse?_json, same]
  obtain ⟨mnemonic, args⟩ := List.cons.inj (Value.object.inj (Option.some.inj values))
  have names : c.name = d.name := Value.text.inj (congrArg (·.2) mnemonic)
  exact eq_of_members (Opcode.name_injective names)
    (Operand.eq_of_map_value textual.members textual'.members (argsMember_inj args))

end Command

end Dvi
