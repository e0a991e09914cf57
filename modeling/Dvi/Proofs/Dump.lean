/-
# Dvi.Proofs.Dump — what a dump prints of a file that is still growing.

A dump prints one command after the other and stops at the first that it cannot read or execute. So what
it prints of the beginning of a file is the beginning of what it prints of the whole file, in every mode
(`print_prefix`). Lists and records have one entry for each command that was read, under the mnemonic of
the byte that stands at its offset; a trace is the report of the commands before the first one that fails
(`traceEntries_spec`), and a command that fails reports nothing. The main statement is
`report_grows_with_its_file`.
-/
import Dvi.Dump.Report
import Dvi.Proofs.Machine.Execution
import Dvi.Proofs.Truncation

namespace Dvi

/-- The mnemonic of a byte, if the byte is an opcode. -/
def Opcode.nameOfByte? (b : UInt8) : Option String :=
  (ofByte? b).map name

namespace Reader

/-- Every command that is read stands at its offset with its opcode, which is one of the standard. -/
theorem opcode_of_mem_readAll (reader : Reader) :
    ∀ entry ∈ reader.readAll.entries, reader.offset ≤ entry.start
      ∧ reader.cursor.rest[entry.start - reader.offset]? = some entry.command.opcode.toByte
      ∧ entry.command.opcode.Standard := by
  refine entries_induction
    (motive := fun reader entries => ∀ entry ∈ entries, reader.offset ≤ entry.start
      ∧ reader.cursor.rest[entry.start - reader.offset]? = some entry.command.opcode.toByte
      ∧ entry.command.opcode.Standard)
    ?nil ?cons reader
  case nil =>
    intro reader _ entry none
    cases none
  case cons =>
    intro reader first after next ih entry member
    have takes := takes_of_next next
    rcases List.mem_cons.mp member with rfl | later
    · refine ⟨Nat.le_of_eq takes.start_eq.symm, ?_, Command.standard_of_violation? takes.encodes⟩
      rw [takes.start_eq, Nat.sub_self, takes.rest_eq]
      rfl
    · obtain ⟨behind, stands, standard⟩ := ih entry later
      have passed : after.offset = reader.offset + first.command.bytes.length :=
        takes.offset_eq.trans takes.stop_eq
      have place : entry.start - reader.offset - first.command.bytes.length
          = entry.start - after.offset := by
        omega
      refine ⟨by omega, ?_, standard⟩
      rw [takes.rest_eq, List.getElem?_append_right (by omega), place]
      exact stands

/-- The mnemonic of a command that is read is the one of the byte that stands at its offset. -/
theorem name_of_mem_readAll {octets : Bytes} {entry : Entry}
    (member : entry ∈ (readAll (.ofBytes octets)).entries) :
    ∃ b, octets[entry.start]? = some b ∧ Opcode.nameOfByte? b = some entry.command.name := by
  obtain ⟨-, stands, standard⟩ := opcode_of_mem_readAll (.ofBytes octets) entry member
  refine ⟨entry.command.opcode.toByte, stands, ?_⟩
  rw [Opcode.nameOfByte?, Opcode.ofByte?_toByte standard]
  rfl

/-- What is read of the front of a stream is the front of what is read of all of it. -/
theorem entries_prefix {front octets : Bytes} (h : front <+: octets) :
    (readAll (.ofBytes front)).entries <+: (readAll (.ofBytes octets)).entries := by
  rw [List.prefix_iff_eq_take.mp h]
  exact entries_cut_prefix (.ofBytes octets) front.length

end Reader

namespace Tracer

/-- No command of a replay fails. -/
def Completes (tracer : Tracer) (commands : List Command) : Prop :=
  ∀ turn ∈ tracer.turns commands, turn.1 = none

theorem completes_cons {tracer : Tracer} {c : Command} {cs : List Command} :
    tracer.Completes (c :: cs) ↔ (tracer.step c).1 = none ∧ (tracer.step c).2.Completes cs :=
  List.forall_mem_cons

end Tracer

namespace Dump

variable {tracer : Tracer}

/-! ## Traces -/

/-- The trace of commands goes on after the trace of those before them, unless one of these failed. -/
theorem traceEntries_append (tracer : Tracer) (earlier later : List Entry) :
    traceEntries tracer (earlier ++ later) =
      match traceEntries tracer earlier with
      | (none, after) => traceEntries after later
      | stopped => stopped := by
  induction earlier generalizing tracer with
  | nil => rfl
  | cons entry earlier ih =>
    rw [List.cons_append, traceEntries, traceEntries]
    rcases tracer.step entry.command with ⟨_ | e, after⟩
    · exact ih after
    · rfl

/-- A trace only grows. -/
theorem octets_prefix_traceEntries (reliable : tracer.trace.Reliable) (entries : List Entry) :
    (traceEntries tracer entries).2.trace.Reliable
      ∧ tracer.trace.record.octets.toList
          <+: (traceEntries tracer entries).2.trace.record.octets.toList := by
  induction entries generalizing tracer with
  | nil => exact ⟨reliable, List.prefix_rfl⟩
  | cons entry entries ih =>
    obtain ⟨text, reports⟩ := Tracer.step_spec entry.command tracer.machine
    obtain ⟨after, stays, taken, step⟩ := reports tracer.trace reliable
    have grows : tracer.trace.record.octets.toList <+: after.record.octets.toList := by
      rw [taken]
      exact List.prefix_append ..
    rw [traceEntries, show tracer.step entry.command = _ from step]
    cases tracer.machine.refusal? entry.command with
    | none =>
      have goes : Sink.Reliable (Tracer.trace ⟨tracer.machine.after entry.command, after⟩) := stays
      obtain ⟨last, later⟩ := ih goes
      exact ⟨last, grows.trans later⟩
    | some e => exact ⟨stays, grows⟩

/-- A trace goes through exactly if no command fails. -/
theorem traceEntries_fst_eq_none_iff (tracer : Tracer) (entries : List Entry) :
    (traceEntries tracer entries).1 = none ↔ tracer.Completes (entries.map Entry.command) := by
  induction entries generalizing tracer with
  | nil => exact iff_of_true rfl fun _ none => nomatch none
  | cons entry entries ih =>
    rw [List.map_cons, Tracer.completes_cons, traceEntries]
    rcases tracer.step entry.command with ⟨_ | e, after⟩
    · simp [ih]
    · simp

/-- A trace is the report of the commands before the first one that fails. -/
theorem traceEntries_spec (reliable : tracer.trace.Reliable) (entries : List Entry) :
    ∃ ran rest, entries = ran ++ rest
      ∧ tracer.Completes (ran.map Entry.command)
      ∧ (∀ failing ∈ rest.head?,
          ((tracer.replay (ran.map Entry.command)).step failing.command).1 ≠ none)
      ∧ (traceEntries tracer entries).2 = tracer.replay (ran.map Entry.command) := by
  induction entries generalizing tracer with
  | nil => exact ⟨[], [], rfl, List.forall_mem_nil _, nofun, rfl⟩
  | cons entry entries ih =>
    obtain ⟨trace, stays, same⟩ := Tracer.step_of_reliable reliable entry.command
    rw [traceEntries]
    rcases step : tracer.step entry.command with ⟨_ | e, after⟩
    · rw [step] at same
      have healthy : after.trace.Reliable := by
        rw [show after = _ from congrArg Prod.snd same]
        exact stays
      obtain ⟨ran, rest, rfl, completes, fails, traced⟩ := ih healthy
      have replays : tracer.replay ((entry :: ran).map Entry.command)
          = after.replay (ran.map Entry.command) := by
        show Tracer.replay (tracer.step entry.command).2 _ = _
        rw [step]
      refine ⟨entry :: ran, rest, rfl, ?_, ?_, ?_⟩
      · rw [List.map_cons, Tracer.completes_cons, step]
        exact ⟨rfl, completes⟩
      · rw [replays]
        exact fails
      · rw [replays]
        exact traced
    · refine ⟨[], entry :: entries, rfl, List.forall_mem_nil _, ?_, Tracer.step_of_fails reliable step⟩
      intro failing first
      obtain rfl := Option.some.inj first
      show (tracer.step entry.command).1 ≠ none
      rw [step]
      exact Option.some_ne_none e

/-! ## What is printed -/

theorem lines_prefix (line : Entry → String) {front whole : List Entry} (h : front <+: whole) :
    lines line front <+: lines line whole := by
  obtain ⟨later, rfl⟩ := h
  rw [lines, lines, List.flatMap_append]
  exact List.prefix_append ..

/-- A tracer at a resolution, before the first command. -/
def start (dpi : Float) : Tracer :=
  { machine := { resolution := dpi }, trace := .unbounded }

theorem reliable_start (dpi : Float) : (start dpi).trace.Reliable :=
  Sink.reliable_unbounded

theorem print_trace (dpi : Float) (reading : Reader.Reading) :
    print (.trace dpi) reading =
      ((traceEntries (start dpi) reading.entries).2.trace.record.octets.toList,
        ((traceEntries (start dpi) reading.entries).1.map fun failed => Stop.run failed.1 failed.2).or
          (reading.error?.map Stop.read)) := by
  unfold print start
  dsimp only
  rcases traceEntries _ reading.entries with ⟨_ | ⟨entry, e⟩, after⟩ <;> rfl

/-- What is printed of the first commands stands before what is printed of the others. -/
theorem print_prefix (mode : Mode) {front whole : Reader.Reading}
    (h : front.entries <+: whole.entries) : (print mode front).1 <+: (print mode whole).1 := by
  cases mode with
  | listing | records => exact lines_prefix _ h
  | trace dpi =>
    obtain ⟨later, all⟩ := h
    rw [print_trace, print_trace, ← all, traceEntries_append]
    obtain ⟨reliable, -⟩ := octets_prefix_traceEntries (reliable_start dpi) front.entries
    rcases traced : traceEntries (start dpi) front.entries with ⟨_ | stopped, after⟩
    · rw [traced] at reliable
      exact (octets_prefix_traceEntries reliable later).2
    · exact List.prefix_rfl

/-- No command fails in a mode. Only a trace executes commands. -/
def Mode.Completes (entries : List Entry) : Mode → Prop
  | trace dpi => (start dpi).Completes (entries.map Entry.command)
  | listing | records => True

/-- Printing goes through exactly if all commands can be read and none fails. -/
theorem print_snd_eq_none_iff (mode : Mode) (reading : Reader.Reading) :
    (print mode reading).2 = none ↔ reading.error? = none ∧ mode.Completes reading.entries := by
  cases mode with
  | listing | records => simp [print, Mode.Completes]
  | trace dpi =>
    rw [print_trace, Mode.Completes, ← traceEntries_fst_eq_none_iff]
    rcases traceEntries (start dpi) reading.entries with ⟨_ | ⟨entry, e⟩, after⟩ <;> simp

/-- The report on a file is what is printed for its stream. -/
theorem report_ofBytes (options : Options) (octets : Bytes) :
    (options.report (.ok octets)).stdout = (print options.mode (Reader.readAll (.ofBytes octets))).1
      ∧ ((options.report (.ok octets)).exitCode = 0 ↔
          (print options.mode (Reader.readAll (.ofBytes octets))).2 = none) := by
  rw [Options.report]
  rcases print options.mode (Reader.readAll (.ofBytes octets)) with ⟨stdout, _ | stop⟩
  · exact ⟨rfl, iff_of_true rfl rfl⟩
  · have failed : ¬(1 : UInt32) = 0 := by decide
    exact ⟨rfl, iff_of_false failed (Option.some_ne_none stop)⟩

/-- The record of a command: its offset, a mnemonic and the operands of the command. -/
inductive Mode.Record (entry : Entry) (mnemonic : String) : Mode → String → Prop
  | line : Record entry mnemonic .listing
      (s!"{entry.start}: " ++ (mnemonic ++ entry.command.operandText))
  | object : Record entry mnemonic .records
      (Json.object (("offset", toString entry.start) :: ("cmd", Json.string mnemonic)
        :: entry.command.recordMembers.tail))

/-- A dump of a file that is still growing only grows. What is printed of the front of a file is the front
of what is printed of the file. A list and a list of records have one line for each command that is read
before the end or the first error, with the offset of a byte and the mnemonic of this byte. A trace
reports the commands before the first one that fails and nothing else. The exit code is zero if and only
if reading ended without an error and, in a trace, no command failed. -/
theorem report_grows_with_its_file (options : Options) (octets : Bytes) :
    let report := options.report (.ok octets)
    let reading := Reader.readAll (.ofBytes octets)
    (∀ front, front <+: octets → (options.report (.ok front)).stdout <+: report.stdout)
      ∧ (match options.mode with
        | .trace dpi => ∃ ran rest, reading.entries = ran ++ rest
            ∧ (start dpi).Completes (ran.map Entry.command)
            ∧ (∀ failing ∈ rest.head?,
                (((start dpi).replay (ran.map Entry.command)).step failing.command).1 ≠ none)
            ∧ report.stdout = ((start dpi).replay (ran.map Entry.command)).trace.record.octets.toList
        | mode => ∃ record : Entry → String,
            report.stdout = reading.entries.flatMap (fun entry => Utf8.encode (record entry ++ "\n"))
            ∧ ∀ entry ∈ reading.entries, ∃ b mnemonic, octets[entry.start]? = some b
              ∧ Opcode.nameOfByte? b = some mnemonic ∧ mode.Record entry mnemonic (record entry))
      ∧ (report.exitCode = 0 ↔ reading.error? = none ∧ options.mode.Completes reading.entries) := by
  intro report reading
  have reports : report.stdout = (print options.mode reading).1
      ∧ (report.exitCode = 0 ↔ (print options.mode reading).2 = none) := report_ofBytes options octets
  refine ⟨?_, ?_, reports.2.trans (print_snd_eq_none_iff options.mode reading)⟩
  · intro front inside
    rw [reports.1, (report_ofBytes options front).1]
    exact print_prefix options.mode (Reader.entries_prefix inside)
  · rw [reports.1]
    cases options.mode with
    | trace dpi =>
      obtain ⟨ran, rest, all, completes, fails, traced⟩ :=
        traceEntries_spec (reliable_start dpi) reading.entries
      refine ⟨ran, rest, all, completes, fails, ?_⟩
      rw [print_trace, traced]
    | listing =>
      refine ⟨fun entry => s!"{entry.start}: " ++ entry.command.text, rfl, ?_⟩
      intro entry member
      obtain ⟨b, stands, named⟩ := Reader.name_of_mem_readAll member
      exact ⟨b, _, stands, named, .line⟩
    | records =>
      refine ⟨fun entry => entry.command.jsonAt entry.start, rfl, ?_⟩
      intro entry member
      obtain ⟨b, stands, named⟩ := Reader.name_of_mem_readAll member
      exact ⟨b, _, stands, named, .object⟩

/-- A trace of a file in which a font is selected before it is defined, and of the file without its last
byte. -/
theorem report_grows_past_a_failure :
    let options : Options := { mode := .trace 300, verbosity := 0, path := "fonts.dvi" }
    let octets : Bytes := [138, 175, 138]
    [138, 175] <+: octets
      ∧ (options.report (.ok [138, 175])).stdout <+: (options.report (.ok octets)).stdout
      ∧ (options.report (.ok octets)).exitCode ≠ 0 := by
  intro options octets
  have inside : [138, 175] <+: octets := by decide
  have encodes : ∀ c ∈ [.nop, .fontNum 4, .nop], Command.violation? c = none := by decide
  obtain ⟨last, reads⟩ := readAll_streamFrom encodes 0
  have entries : (Reader.readAll (.ofBytes octets)).entries
      = [⟨0, 1, .nop⟩, ⟨1, 2, .fontNum 4⟩, ⟨2, 3, .nop⟩] :=
    (congrArg Reader.Reading.entries reads).trans rfl
  obtain ⟨grows, -, ends⟩ := report_grows_with_its_file options octets
  refine ⟨inside, grows _ inside, ?_⟩
  intro zero
  obtain ⟨-, completes⟩ := ends.mp zero
  rw [entries] at completes
  have fails : ¬∀ turn ∈ (start 300).turns [.nop, .fontNum 4, .nop], turn.1 = none := by decide +kernel
  exact fails completes

end Dump

end Dvi
