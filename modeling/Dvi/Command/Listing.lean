/-
# Dvi.Command.Listing — a command as a line of text.

A listing shows the mnemonic of a command and its operands, in the order of the format. Specials and
comments stand in quotes; the area and the name of a font are shown as text, one after the other.
-/
import Dvi.Command.Basic
import Dvi.Text.Quoted

namespace Dvi

/-- A word as eight hexadecimal digits. -/
def hexWord (x : UInt32) : String :=
  let digits := Quoted.hex x.toNat
  "0x" ++ String.ofList (List.replicate (8 - digits.length) '0' ++ digits)

/-- A unit of length as its three labelled numbers. -/
def Units.text (units : Units) : String :=
  s!"num={units.num} den={units.den} mag={units.mag}"

namespace Command

/-- The operands of a command as text, each after a space. -/
def operandText : Command → String
  | set _ code | put _ code => s!" {code}"
  | setRule height width | putRule height width => s!" height={height} width={width}"
  | bop counters prev =>
    let shown := " ".intercalate (counters.toList.map toString)
    s!" [{shown}] prev={prev}"
  | move _ _ amount | space _ _ amount => s!" {amount}"
  | selectFont _ number => s!" {number}"
  | special _ payload => " " ++ Quoted.text payload
  | fontDef _ font =>
    let checksum := hexWord font.checksum
    s!" {font.number} checksum={checksum} scale={font.scale} design={font.designSize} "
      ++ Utf8.lossy font.area ++ Utf8.lossy font.name
  | pre id units comment => s!" id={id} {units.text} " ++ Quoted.text comment
  | post summary =>
    s!" prev={summary.prev} {summary.units.text} height={summary.maxHeight} "
      ++ s!"width={summary.maxWidth} stack={summary.maxStack} pages={summary.pages}"
  | postPost pointer id => s!" post={pointer} id={id}"
  | setChar _ | nop | eop | push | pop | again _ | fontNum _ => ""

/-- A command as a line of text, without the end of the line. -/
def text (c : Command) : String :=
  c.name ++ c.operandText

end Command

end Dvi
