/-
# Dvi.Command.Record — a command as a JSON record.

A record holds the mnemonic of a command under `cmd` and its operands, if it has any, under `args`.
The width of an operand is part of the mnemonic, so the operands are plain numbers, lists of numbers
and strings. A record in a stream also says at which offset its command was read.
-/
import Dvi.Command.Basic
import Dvi.Text.Json
import Dvi.Text.Utf8

namespace Dvi

/-- An operand as a record shows it. -/
inductive Operand where
  | number (n : Int)
  | numbers (ns : List Int)
  | text (octets : Bytes)
deriving DecidableEq

namespace Operand

/-- An operand as JSON. Octets that are not text are shown lossily. -/
def json : Operand → String
  | number n => toString n
  | numbers ns => Json.array (ns.map toString)
  | text octets => Json.string (Utf8.lossy octets)

end Operand

/-- The labelled numbers of a unit of length. -/
def Units.members (units : Units) : List (String × Operand) :=
  [("num", .number units.num.toNat), ("den", .number units.den.toNat),
    ("mag", .number units.mag.toNat)]

namespace Command

/-- The operands of a command by name, in the order of the format. -/
def members : Command → List (String × Operand)
  | setChar code => [("code", .number code.toNat)]
  | set _ code | put _ code => [("code", .number code.toInt)]
  | setRule height width | putRule height width =>
    [("height", .number height.toInt), ("width", .number width.toInt)]
  | bop counters prev =>
    [("counters", .numbers (counters.toList.map Int32.toInt)), ("prev", .number prev.toInt)]
  | move _ _ amount | space _ _ amount => [("amount", .number amount.toInt)]
  | fontNum number => [("font", .number number.toNat)]
  | selectFont _ number => [("font", .number number.toInt)]
  | special _ payload => [("payload", .text payload)]
  | fontDef _ font =>
    [("font", .number font.number.toInt), ("checksum", .number font.checksum.toNat),
      ("scale", .number font.scale.toInt), ("design_size", .number font.designSize.toInt),
      ("area", .text font.area), ("name", .text font.name)]
  | pre id units comment =>
    ("id", .number id.toNat) :: units.members ++ [("comment", .text comment)]
  | post summary =>
    ("prev", .number summary.prev.toInt) :: summary.units.members
      ++ [("max_height", .number summary.maxHeight.toInt),
        ("max_width", .number summary.maxWidth.toInt),
        ("max_stack", .number summary.maxStack.toNat), ("pages", .number summary.pages.toNat)]
  | postPost pointer id => [("post", .number pointer.toInt), ("id", .number id.toNat)]
  | nop | eop | push | pop | again _ => []

/-- The members of a record. A command without operands has no `args`. -/
def recordMembers (c : Command) : List (String × String) :=
  ("cmd", Json.string c.name)
    :: match c.members with
      | [] => []
      | members => [("args", Json.object (members.map fun (key, value) => (key, value.json)))]

/-- A command as a JSON record. -/
def json (c : Command) : String :=
  Json.object c.recordMembers

/-- A command as a JSON record that says where the command was read. -/
def jsonAt (c : Command) (offset : Nat) : String :=
  Json.object (("offset", toString offset) :: c.recordMembers)

end Command

end Dvi
