/-
# Dvi.Text.Json — JSON strings and objects on one line.

In a JSON string, quotes, the backslash and the control characters below the space are escaped, the
common ones with a letter and the others by number; every other character is itself. A JSON string
therefore never leaves its line. An object is written without blanks, with its members in the order
in which they are given.
-/

namespace Dvi.Json

/-- A character inside the quotes. -/
def char (c : Char) : List Char :=
  if c = '"' then ['\\', '"']
  else if c = '\\' then ['\\', '\\']
  else if c = '\x08' then ['\\', 'b']
  else if c = '\t' then ['\\', 't']
  else if c = '\n' then ['\\', 'n']
  else if c = '\x0c' then ['\\', 'f']
  else if c = '\r' then ['\\', 'r']
  else if c.toNat < 0x20 then
    ['\\', 'u', '0', '0', Nat.digitChar (c.toNat / 16), Nat.digitChar (c.toNat % 16)]
  else [c]

/-- The characters of a JSON string, quotes included. -/
def quote (cs : List Char) : List Char :=
  '"' :: cs.flatMap char ++ ['"']

/-- A text as a JSON string. -/
def string (s : String) : String :=
  String.ofList (quote s.toList)

/-- An array of values that are already written. -/
def array (values : List String) : String :=
  "[" ++ ",".intercalate values ++ "]"

/-- An object, from its names and their values, which are already written. -/
def object (members : List (String × String)) : String :=
  let written := members.map fun (name, value) => string name ++ ":" ++ value
  "\x7b" ++ ",".intercalate written ++ "\x7d"

end Dvi.Json
