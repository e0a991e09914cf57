/-
# Dvi.Machine.Basic — the register machine that a stream drives.

A machine has six registers: the position `h`, `v` and the remembered movements `w`, `x`, `y`, `z`.
`push` saves all six and `pop` brings the last saved ones back. The fonts defined so far outlive
pages and groups, the current font is remembered by its number, and a new page starts with all
registers zero, nothing saved and no current font. Registers wrap at 32 bits.

Positions are also given in pixels, by a factor that the preamble fixes together with the resolution
of the output. The width of a character comes from outside, because a stream holds no metrics.
-/
import Dvi.Command.Basic

namespace Dvi

/-- The position and the remembered movements. -/
structure Registers where
  h : Int32 := 0
  v : Int32 := 0
  w : Int32 := 0
  x : Int32 := 0
  y : Int32 := 0
  z : Int32 := 0
deriving DecidableEq

namespace Registers

/-- The position along an axis. -/
def position (registers : Registers) : Axis → Int32
  | .horizontal => registers.h
  | .vertical => registers.v

/-- Moves along an axis. -/
def move (registers : Registers) (amount : Int32) : Axis → Registers
  | .horizontal => { registers with h := registers.h + amount }
  | .vertical => { registers with v := registers.v + amount }

/-- A remembered movement. -/
def spacing (registers : Registers) : Spacing → Int32
  | .w => registers.w
  | .x => registers.x
  | .y => registers.y
  | .z => registers.z

/-- Remembers a movement. -/
def remember (registers : Registers) (amount : Int32) : Spacing → Registers
  | .w => { registers with w := amount }
  | .x => { registers with x := amount }
  | .y => { registers with y := amount }
  | .z => { registers with z := amount }

end Registers

/-- How far a character moves the position, from the current font and the code. -/
abbrev CharWidth := Option Font → Int32 → Int32

/-- The width of a character when no metrics are known: its code. -/
def CharWidth.ofCode : CharWidth :=
  fun _ code => code

/-- Dots per inch when nothing else is asked for. -/
def standardResolution : Float := 300

/-- The state that commands change. -/
structure Machine where
  registers : Registers := {}
  /-- The registers saved by groups that are open, innermost last. -/
  saved : Array Registers := #[]
  fonts : FontTable := []
  /-- The number of the current font. -/
  font : Option Int32 := none
  /-- How many pages have begun. -/
  page : Nat := 0
  /-- Dots per inch. -/
  resolution : Float := standardResolution
  /-- Pixels per unit of length. -/
  scale : Float := 0
  charWidth : CharWidth := CharWidth.ofCode

namespace Machine

/-- The number of groups that are open. -/
def depth (machine : Machine) : Nat :=
  machine.saved.size

/-- The definition of the current font. -/
def currentFont (machine : Machine) : Option Font :=
  machine.font.bind machine.fonts.find?

/-- A distance in pixels: the nearest whole number, half away from zero, within 32 bits. -/
def pixels (machine : Machine) (distance : Int32) : Int32 :=
  (machine.scale * distance.toFloat).round.toInt32

/-- Pixels per unit of length at a resolution. The unit `num / 254000 / den` is in inches. -/
def scaleOf (resolution : Float) (units : Units) : Float :=
  units.num.toFloat / 254000 * (resolution / units.den.toFloat) * units.mag.toFloat / 1000

/-- Takes over the units of a preamble. -/
def setUnits (units : Units) (machine : Machine) : Machine :=
  { machine with scale := scaleOf machine.resolution units }

/-- Begins a page. -/
def beginPage (machine : Machine) : Machine :=
  { machine with
    page := machine.page + 1
    registers := {}
    saved := #[]
    font := none }

/-- Opens a group. -/
def save (machine : Machine) : Machine :=
  { machine with saved := machine.saved.push machine.registers }

/-- Closes a group; without one, nothing changes. -/
def restore (machine : Machine) : Machine :=
  { machine with
    registers := machine.saved.back?.getD machine.registers
    saved := machine.saved.pop }

/-- Moves along an axis. -/
def move (axis : Axis) (amount : Int32) (machine : Machine) : Machine :=
  { machine with registers := machine.registers.move amount axis }

/-- Remembers a movement. -/
def remember (spacing : Spacing) (amount : Int32) (machine : Machine) : Machine :=
  { machine with registers := machine.registers.remember amount spacing }

/-- Makes a font current. -/
def selectFont (number : Int32) (machine : Machine) : Machine :=
  { machine with font := some number }

/-- Learns the definition of a font. -/
def defineFont (font : Font) (machine : Machine) : Machine :=
  { machine with fonts := machine.fonts.define font }

end Machine

end Dvi
