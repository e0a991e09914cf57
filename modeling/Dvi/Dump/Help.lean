/-
# Dvi.Dump.Help — what the dump says about its command line.

The help says what the dump does and describes each argument and option, at one of two lengths.
The brief help keeps to a line for each, with the descriptions in one column. The full help gives
each a paragraph, indented below the form that it describes.
-/

namespace Dvi.Dump.Help

/-- How much the help says. -/
inductive Detail where
  | brief
  | full
deriving DecidableEq

/-- What the help says about an argument or option. -/
structure Description where
  /-- How it is written on the command line. -/
  form : String
  brief : String
  full : String := brief
  /-- The value that holds where none is given. -/
  standard? : Option String := none

namespace Description

/-- The remark on the value that holds where none is given, set off from what stands before. -/
def remark (separator : String) (description : Description) : String :=
  match description.standard? with
  | none => ""
  | some value => separator ++ s!"[default: {value}]"

/-- A description on one line, which starts behind forms of at most a width. -/
def line (width : Nat) (description : Description) : String :=
  let padding := String.ofList (List.replicate (width - description.form.length) ' ')
  "  " ++ description.form ++ padding ++ "  " ++ description.brief ++ description.remark " "

/-- A description as a paragraph below its form. Empty lines in it are indented as well. -/
def paragraph (description : Description) : String :=
  let newline := "\n          "
  "  " ++ description.form ++ newline ++ description.full
    ++ description.remark (newline ++ newline)

end Description

/-- Descriptions below one another. -/
def list (descriptions : List Description) : Detail → String
  | .brief =>
    let width := descriptions.foldl (fun width description => max width description.form.length) 0
    "\n".intercalate (descriptions.map (Description.line width))
  | .full => "\n\n".intercalate (descriptions.map Description.paragraph)

/-- What the dump does, in lines of at most 100 columns. -/
def purpose : Detail → String
  | .brief => "Trace the command stream of a DVI file"
  | .full =>
    "Trace the command stream of a DVI file.\n\n"
      ++ "By default every command is interpreted and printed together with the registers it "
      ++ "changes. `--list`\n"
      ++ "and `--json` print the raw commands prefixed with their offset instead."

/-- The form of a command line. -/
def usage : String :=
  "Usage: dvi-dump [OPTIONS] <FILE>"

/-- What is not an option. -/
def arguments : List Description :=
  [{ form := "<FILE>", brief := "DVI file to read" }]

/-- The options. Those without a letter leave room for one. -/
def options : List Description :=
  [{ form := "    --json", brief := "Print one JSON object per command" },
   { form := "    --list", brief := "Print `offset: command` lines without interpreting them" },
   { form := "    --dpi <DPI>", brief := "Resolution in dots per inch for pixel positions",
     standard? := some "300" },
   { form := "-v, --verbose...", brief := "Verbosity level (-v, -vv, -vvv)" },
   { form := "-h, --help", brief := "Print help (see more with '--help')",
     full := "Print help (see a summary with '-h')" },
   { form := "-V, --version", brief := "Print version" }]

/-- The help. -/
def text (detail : Detail) : String :=
  "\n\n".intercalate
    [purpose detail, usage, "Arguments:\n" ++ list arguments detail,
      "Options:\n" ++ list options detail] ++ "\n"

/-- The name and version of the program. -/
def version : String :=
  "dvi-dump 0.1.0\n"

/-- What is said about arguments that make no sense. -/
def correction : String :=
  usage ++ "\n\nFor more information, try '--help'.\n"

end Dvi.Dump.Help
