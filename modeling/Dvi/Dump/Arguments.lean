/-
# Dvi.Dump.Arguments — the command line of the dump.

The dump takes one file, whose name is not empty. `--list` and `--json` choose what is printed and
exclude one another, `--dpi` sets the resolution of the trace, and `-v` asks for more messages each
time that it is given. Every option but the last may be given once. The value of `--dpi` follows
after `=` or as the next argument, which must not look like an option. After `--` every argument is
a file. The first argument that is wrong or asks for help or the version decides; what is missing or
excluded shows after the last.
-/
import Dvi.Decimal.Reading
import Dvi.Dump.Help
import Dvi.Machine.Basic

namespace Dvi.Dump

/-- What is printed for each command. -/
inductive Mode where
  /-- What the command does to a machine, with positions at a resolution. -/
  | trace (dpi : Float)
  /-- The command as a line of text. -/
  | listing
  /-- The command as a JSON record. -/
  | records

/-- What the command line asks for. -/
structure Options where
  mode : Mode
  verbosity : Nat
  path : String

/-- Why a command line starts no dump. -/
inductive Ending where
  | help (detail : Help.Detail)
  | version
  /-- The arguments make no sense. -/
  | usage
deriving DecidableEq

/-- An argument by its form. -/
inductive Argument where
  | separator
  | long (name : String) (value? : Option String)
  | short (letters : List Char)
  | plain (text : String)

/-- The form of an argument. A lone dash is a file. -/
def Argument.ofString (text : String) : Argument :=
  match text.toList with
  | ['-', '-'] => separator
  | '-' :: '-' :: rest =>
    let name := String.ofList (rest.takeWhile (· ≠ '='))
    match rest.dropWhile (· ≠ '=') with
    | [] => long name none
    | _ :: value => long name (some (String.ofList value))
  | '-' :: letter :: letters => short (letter :: letters)
  | _ => plain text

/-- The arguments understood so far. -/
structure Given where
  list : Bool := false
  json : Bool := false
  dpi? : Option Float := none
  verbosity : Nat := 0
  path? : Option String := none

namespace Given

/-- A file, which must be the only one, and have a name. -/
def addPath (given : Given) (path : String) : Except Ending Given :=
  if given.path?.isSome || path.isEmpty then .error .usage
  else .ok { given with path? := some path }

/-- A resolution, which must be the only one, and a number. -/
def addDpi (given : Given) (text : String) : Except Ending Given :=
  match given.dpi?, Decimal.ofText? text with
  | none, some dpi => .ok { given with dpi? := some dpi }
  | _, _ => .error .usage

/-- An option of one letter. -/
def addLetter (given : Given) : Char → Except Ending Given
  | 'v' => .ok { given with verbosity := given.verbosity + 1 }
  | 'h' => .error (.help .brief)
  | 'V' => .error .version
  | _ => .error .usage

/-- An option with a name and no value. -/
def addName (given : Given) : String → Except Ending Given
  | "list" => if given.list then .error .usage else .ok { given with list := true }
  | "json" => if given.json then .error .usage else .ok { given with json := true }
  | "verbose" => .ok { given with verbosity := given.verbosity + 1 }
  | "help" => .error (.help .full)
  | "version" => .error .version
  | _ => .error .usage

/-- Understands arguments from left to right, up to the first that ends the command line. -/
def add (given : Given) : List String → Except Ending Given
  | [] => .ok given
  | text :: rest =>
    match Argument.ofString text with
    | .separator => rest.foldlM addPath given
    | .plain path => do (← given.addPath path).add rest
    | .short letters => do (← letters.foldlM addLetter given).add rest
    | .long "dpi" (some value) => do (← given.addDpi value).add rest
    | .long "dpi" none =>
      match rest with
      | [] => .error .usage
      | value :: rest =>
        if value.startsWith "-" then .error .usage
        else do (← given.addDpi value).add rest
    | .long name none => do (← given.addName name).add rest
    | .long _ (some _) => .error .usage

/-- What the arguments ask for, once all are understood. -/
def options (given : Given) : Except Ending Options :=
  match given.path?, given.list, given.json with
  | none, _, _ | some _, true, true => .error .usage
  | some path, list, json =>
    let mode :=
      if json then .records
      else if list then .listing
      else .trace (given.dpi?.getD standardResolution)
    .ok { mode, verbosity := given.verbosity, path }

end Given

/-- Understands a command line. -/
def Options.ofArguments (arguments : List String) : Except Ending Options := do
  (← Given.add {} arguments).options

end Dvi.Dump
