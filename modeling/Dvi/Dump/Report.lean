/-
# Dvi.Dump.Report — what a dump prints.

A dump reads the commands of a file in order and prints each of them. It stops at the first command
that cannot be read or, in a trace, executed; what was printed before stays. A failure is reported
as a chain of causes, from what could not be done down to why.
-/
import Dvi.Command.Listing
import Dvi.Command.Record
import Dvi.Dump.Arguments
import Dvi.Machine.Trace
import Dvi.Reader

namespace Dvi.Dump

/-- What ended the printing of commands. -/
inductive Stop where
  | read (e : ReadError)
  | run (entry : Entry) (e : RunError)

/-- The system's own account of a failure, if the failure came from there. -/
def systemCause : Option IoError → List String
  | none => []
  | some e => [e.text]

/-- The causes of a stop, from the outermost to the innermost. -/
def Stop.causes : Stop → List String
  | read e =>
    let system := match e with
      | .source e => some e
      | _ => none
    "could not read DVI stream" :: e.message :: systemCause system
  | run entry e =>
    let system := match e with
      | .sink e => some e
      | _ => none
    s!"could not interpret {entry.command.name} at offset {entry.start}"
      :: e.message :: systemCause system

/-- A failure and its causes as a report. One cause stands alone, several are numbered. -/
def failureReport (failure : String) (causes : List String) : String :=
  let numbered := match causes with
    | [cause] => ["    " ++ cause]
    | causes => causes.zipIdx.map fun (cause, i) => s!"    {i}: {cause}"
  "Error: " ++ "\n".intercalate (failure :: "" :: "Caused by:" :: numbered) ++ "\n"

/-- Executes commands up to the first that fails. -/
def traceEntries (tracer : Tracer) : List Entry → Option (Entry × RunError) × Tracer
  | [] => (none, tracer)
  | entry :: rest =>
    match tracer.step entry.command with
    | (none, tracer) => traceEntries tracer rest
    | (some e, tracer) => (some (entry, e), tracer)

/-- The lines of commands that are printed independently of one another. -/
def lines (line : Entry → String) (entries : List Entry) : Bytes :=
  entries.flatMap fun entry => Utf8.encode (line entry ++ "\n")

/-- What is printed for a stream, and what ended it early. -/
def print (mode : Mode) (reading : Reader.Reading) : Bytes × Option Stop :=
  let unread := reading.error?.map Stop.read
  match mode with
  | .listing =>
    (lines (fun entry => s!"{entry.start}: " ++ entry.command.text) reading.entries, unread)
  | .records => (lines (fun entry => entry.command.jsonAt entry.start) reading.entries, unread)
  | .trace dpi =>
    let start : Tracer := { machine := { resolution := dpi }, trace := .unbounded }
    match traceEntries start reading.entries with
    | (none, tracer) => (tracer.trace.record.octets.toList, unread)
    | (some (entry, e), tracer) => (tracer.trace.record.octets.toList, some (.run entry e))

/-- What a run of the dump leaves behind. -/
structure Report where
  exitCode : UInt32
  stdout : Bytes
  stderr : String
deriving DecidableEq

/-- The report on a command line that starts no dump. -/
def Ending.report : Ending → Report
  | help detail => { exitCode := 0, stdout := Utf8.encode (Help.text detail), stderr := "" }
  | version => { exitCode := 0, stdout := Utf8.encode Help.version, stderr := "" }
  | usage => { exitCode := 2, stdout := [], stderr := Help.correction }

/-- The report on a file, from what opening it gave. -/
def Options.report (options : Options) : Except IoError Bytes → Report
  | .error e =>
    let failure := s!"could not open DVI file {options.path}"
    { exitCode := 1, stdout := [], stderr := failureReport failure [e.text] }
  | .ok octets =>
    match print options.mode (Reader.ofBytes octets).readAll with
    | (stdout, none) => { exitCode := 0, stdout, stderr := "" }
    | (stdout, some stop) =>
      let failure := s!"could not process DVI file {options.path}"
      { exitCode := 1, stdout, stderr := failureReport failure stop.causes }

end Dvi.Dump
