/-
# Dvi.Proofs.Lines — what a dump prints, line by line.

Records are JSON, in which no control character stands for itself, so a list of records has one line for each
command. The lines are read back by a reader of JSON that knows nothing of commands, and a command can be told
from what was read. A listing shows areas and names of fonts as they are; it has more lines than commands
exactly if one of these holds a line feed. The main statements are `records_tell_commands_line_by_line` and
`listing_breaks_at_fonts`.
-/
import Dvi.Proofs.Command.Listing
import Dvi.Proofs.Command.Record
import Dvi.Proofs.Dump

namespace Dvi.Dump

/-! ## Lines -/

/-- What is printed on its own line is cut at the line feeds that it brings along, and at its end. -/
theorem splitOn_lines (line : Entry → String) (entries : List Entry) :
    (lines line entries).splitOn 10
      = entries.flatMap (fun entry => (Utf8.encode (line entry)).splitOn 10) ++ [[]] := by
  induction entries with
  | nil => rfl
  | cons entry entries ih =>
    have feed : Utf8.encode "\n" = [10] := by decide
    have first : lines line (entry :: entries) = Utf8.encode (line entry) ++ 10 :: lines line entries := by
      rw [lines, List.flatMap_cons, Utf8.encode_append, feed, List.append_assoc]
      rfl
    rw [first, List.splitOn_append_cons_self, ih, List.flatMap_cons, List.append_assoc]

/-- Lines that break where certain octets have line feeds have these line feeds and their own. -/
theorem count_lines {line : Entry → String} {shown : Entry → Bytes}
    (breaks : ∀ entry, (line entry).toList.count '\n' = (shown entry).count 10) (entries : List Entry) :
    (lines line entries).count 10 = entries.length + (entries.flatMap shown).count 10 := by
  induction entries with
  | nil => rfl
  | cons entry entries ih =>
    have feed : (Utf8.encode "\n").count 10 = 1 := by decide
    have first : lines line (entry :: entries) = Utf8.encode (line entry ++ "\n") ++ lines line entries :=
      List.flatMap_cons
    rw [first, List.count_append, Utf8.encode_append, List.count_append, feed, Utf8.count_encode, breaks, ih,
      List.flatMap_cons, List.count_append, List.length_cons]
    omega

/-- Octets are one line if they have no line feed. -/
theorem splitOn_eq_self_iff (octets : Bytes) : octets.splitOn 10 = [octets] ↔ octets.count 10 = 0 := by
  rw [List.count_eq_zero]
  constructor
  · intro single member
    obtain ⟨front, back, rfl⟩ := List.append_of_mem member
    rw [List.splitOn_append_cons_self] at single
    have lengths := congrArg List.length single
    have left := List.length_pos_iff.mpr (List.splitOn_ne_nil 10 front)
    have right := List.length_pos_iff.mpr (List.splitOn_ne_nil 10 back)
    simp at lengths
    omega
  · exact List.splitOn_eq_singleton

/-! ## Records -/

/-- A list of records tells all commands of a file, one on each line. Commands whose strings spell texts have
different records if they are different. No record has a character below the space. Cut at the line feeds,
what is printed gives one line for each command that is read and nothing after the last. A line starts with
the offset of the command, goes on as the record of the command alone, and is read back as the offset, the
mnemonic and the operands; strings come back as the texts that they spell, with invalid parts replaced. -/
theorem records_tell_commands_line_by_line :
    (∀ c d : Command, c.Textual → d.Textual → c.json = d.json → c = d)
      ∧ (∀ c : Command, ∀ char ∈ c.json.toList, 0x20 ≤ char.toNat)
      ∧ ∀ (options : Options) (octets : Bytes), options.mode = .records →
        let entries := (Reader.readAll (.ofBytes octets)).entries
        (options.report (.ok octets)).stdout.splitOn 10
            = entries.map (fun entry => Utf8.encode (entry.command.jsonAt entry.start)) ++ [[]]
          ∧ ∀ entry ∈ entries,
            (∃ rest, entry.command.json = "\x7b" ++ rest
                ∧ entry.command.jsonAt entry.start
                  = "\x7b\"offset\":" ++ toString entry.start ++ "," ++ rest)
              ∧ Json.parse? (entry.command.jsonAt entry.start)
                = some (.object (("offset", .number entry.start) :: entry.command.recordValues))
              ∧ entry.command.args.filterMap (fun arg => arg.2.text?)
                = entry.command.strings.map Utf8.lossy := by
  refine ⟨fun c d textual textual' => Command.eq_of_json textual textual', Command.plain_json, ?_⟩
  intro options octets records entries
  constructor
  · have single (entry : Entry) : (Utf8.encode (entry.command.jsonAt entry.start)).splitOn 10
        = [Utf8.encode (entry.command.jsonAt entry.start)] := by
      rw [splitOn_eq_self_iff, Utf8.count_encode]
      exact (Command.plain_jsonAt entry.command entry.start).count_feed
    rw [(report_ofBytes options octets).1, records, print]
    dsimp only
    rw [splitOn_lines, List.map_eq_flatMap]
    simp only [single, entries]
  · intro entry _
    exact ⟨entry.command.jsonAt_eq entry.start, entry.command.parse?_jsonAt entry.start,
      entry.command.filterMap_args⟩

/-- The area and the name of a font do not run together in a record, and a line feed in a special does not end
the line. -/
theorem records_tell_area_from_name :
    let font (area name : Bytes) : Font := ⟨0, 0, 0, 0, area, name⟩
    let options : Options := { mode := .records, verbosity := 0, path := "fonts.dvi" }
    (Command.fontDef .one (font [97] [98])).json ≠ (Command.fontDef .one (font [97, 98] [])).json
      ∧ (options.report (.ok [239, 1, 10])).stdout.splitOn 10
        = [Utf8.encode "\x7b\"offset\":0,\"cmd\":\"xxx1\",\"args\":\x7b\"payload\":\"\\n\"\x7d\x7d", []] := by
  intro font options
  obtain ⟨tells, -, lines⟩ := records_tell_commands_line_by_line
  constructor
  · have textual : (Command.fontDef .one (font [97] [98])).Textual :=
      List.forall_mem_cons.mpr ⟨⟨"a", rfl⟩, List.forall_mem_singleton.mpr ⟨"b", rfl⟩⟩
    have textual' : (Command.fontDef .one (font [97, 98] [])).Textual :=
      List.forall_mem_cons.mpr ⟨⟨"ab", rfl⟩, List.forall_mem_singleton.mpr ⟨"", rfl⟩⟩
    intro same
    exact absurd (tells _ _ textual textual' same) (by decide)
  · let commands : List Command := [.special .one [10]]
    have encodes : ∀ c ∈ commands, c.violation? = none := by decide
    have entries : (Reader.readAll (.ofBytes [239, 1, 10])).entries = [⟨0, 3, .special .one [10]⟩] :=
      (entries_of_eq_streamFrom encodes (by decide)).trans (by decide)
    have shown : Utf8.lossy [10] = "\n" := Utf8.lossy_encode "\n"
    rw [(lines options [239, 1, 10] rfl).1, entries]
    simp only [List.map_cons, List.map_nil, Command.jsonAt, Command.recordMembers, Command.members, Operand.json,
      shown]
    decide +kernel

/-! ## Listings -/

/-- The line of a command in a listing. -/
def listed (entry : Entry) : String :=
  s!"{entry.start}: " ++ entry.command.text

theorem count_listed (entry : Entry) :
    (listed entry).toList.count '\n' = entry.command.shownAsIs.count 10 := by
  have offset : Plain s!"{entry.start}: " := Plain.append (Plain.nat entry.start) (by decide)
  rw [listed, String.toList_append, List.count_append, offset.count_feed, Nat.zero_add, Command.count_text]

theorem report_listing {options : Options} (listing : options.mode = .listing) (octets : Bytes) :
    (options.report (.ok octets)).stdout = lines listed (Reader.readAll (.ofBytes octets)).entries := by
  rw [(report_ofBytes options octets).1, listing]
  rfl

/-- A listing has a line for each command that is read, and one more for each line feed in the area or the
name of a font that is defined. -/
theorem listing_breaks_at_fonts (options : Options) (octets : Bytes) (listing : options.mode = .listing) :
    let stdout := (options.report (.ok octets)).stdout
    let entries := (Reader.readAll (.ofBytes octets)).entries
    let line (entry : Entry) := Utf8.encode (s!"{entry.start}: " ++ entry.command.text)
    stdout.count 10 = entries.length + (entries.flatMap fun entry => entry.command.shownAsIs).count 10
      ∧ stdout.splitOn 10 = entries.flatMap (fun entry => (line entry).splitOn 10) ++ [[]]
      ∧ ∀ entry, (line entry).splitOn 10 = [line entry] ↔ 10 ∉ entry.command.shownAsIs := by
  intro stdout entries line
  have printed : stdout = lines listed entries := report_listing listing octets
  refine ⟨?_, ?_, ?_⟩
  · rw [printed, count_lines count_listed]
  · rw [printed, splitOn_lines]
    rfl
  · intro entry
    rw [splitOn_eq_self_iff, ← List.count_eq_zero, ← count_listed, ← Utf8.count_encode]
    rfl

/-- A special and a font, each with a line feed in its string. -/
theorem listing_breaks_at_a_font_after_a_special :
    let options : Options := { mode := .listing, verbosity := 0, path := "fonts.dvi" }
    let octets : Bytes := [239, 1, 10, 243, 0, 0, 0, 0, 0, 0, 0, 0, 0, 0, 0, 0, 0, 0, 1, 10]
    (options.report (.ok octets)).stdout.count 10 = 3 := by
  intro options octets
  let commands : List Command := [.special .one [10], .fontDef .one ⟨0, 0, 0, 0, [], [10]⟩]
  have encodes : ∀ c ∈ commands, c.violation? = none := by decide
  have entries : (Reader.readAll (.ofBytes octets)).entries
      = [⟨0, 3, .special .one [10]⟩, ⟨3, 20, .fontDef .one ⟨0, 0, 0, 0, [], [10]⟩⟩] :=
    (entries_of_eq_streamFrom encodes (by decide)).trans (by decide)
  obtain ⟨count, -, -⟩ := listing_breaks_at_fonts options octets rfl
  rw [entries] at count
  exact count

/-- A file with one command that is listed like a file with two: the name of a font goes on, after a line
feed, with the text of another command. -/
theorem listing_forges_a_command :
    let options : Options := { mode := .listing, verbosity := 0, path := "fonts.dvi" }
    let number : Bytes := [0, 0, 0, 0]
    let one : Bytes := 243 :: 0 :: number ++ number ++ number ++ [0, 8, 10, 49, 54, 58, 32, 110, 111, 112]
    let two : Bytes := 243 :: 0 :: number ++ number ++ number ++ [0, 0, 138]
    (Reader.readAll (.ofBytes one)).entries.length = 1
      ∧ (options.report (.ok one)).stdout.count 10 = 2
      ∧ (Reader.readAll (.ofBytes two)).entries.length = 2
      ∧ (options.report (.ok one)).stdout = (options.report (.ok two)).stdout := by
  intro options number one two
  let font (name : Bytes) : Font := ⟨0, 0, 0, 0, [], name⟩
  let forging : List Command := [.fontDef .one (font [10, 49, 54, 58, 32, 110, 111, 112])]
  let honest : List Command := [.fontDef .one (font []), .nop]
  have encodes : (∀ c ∈ forging, c.violation? = none) ∧ ∀ c ∈ honest, c.violation? = none := by
    decide
  have single : (Reader.readAll (.ofBytes one)).entries
      = [⟨0, 24, .fontDef .one (font [10, 49, 54, 58, 32, 110, 111, 112])⟩] :=
    (entries_of_eq_streamFrom encodes.1 (by decide)).trans (by decide)
  have pair : (Reader.readAll (.ofBytes two)).entries
      = [⟨0, 16, .fontDef .one (font [])⟩, ⟨16, 17, .nop⟩] :=
    (entries_of_eq_streamFrom encodes.2 (by decide)).trans (by decide)
  have shown : Utf8.lossy [10, 49, 54, 58, 32, 110, 111, 112] = "\n16: nop" := Utf8.lossy_encode "\n16: nop"
  have text : listed ⟨0, 24, .fontDef .one (font [10, 49, 54, 58, 32, 110, 111, 112])⟩
      = "0: fnt_def1 0 checksum=0x00000000 scale=0 design=0 \n16: nop" := by
    rw [listed, Command.text, Command.operandText]
    dsimp only [font]
    rw [shown, Utf8.lossy_nil]
    decide +kernel
  have text' : listed ⟨0, 16, .fontDef .one (font [])⟩
      = "0: fnt_def1 0 checksum=0x00000000 scale=0 design=0 " := by
    rw [listed, Command.text, Command.operandText]
    dsimp only [font]
    rw [Utf8.lossy_nil]
    decide +kernel
  rw [report_listing rfl, report_listing rfl, single, pair]
  refine ⟨rfl, ?_, rfl, ?_⟩
  · rw [lines, List.flatMap_singleton, text]
    decide +kernel
  · rw [lines, lines, List.flatMap_singleton, List.flatMap_cons, List.flatMap_singleton, text, text']
    decide +kernel

end Dvi.Dump
