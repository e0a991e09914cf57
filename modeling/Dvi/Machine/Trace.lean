/-
# Dvi.Machine.Trace — replaying commands and reporting what they do.

`run` executes one command on a machine and writes what it did to a sink: one line, or two for a
group that opens or closes, which also shows the registers, and three for a preamble. A command that
the machine cannot execute, a `pop` without a group or the selection of an undefined font, is
refused before anything is written or changed.

The sink may fail in the middle of a command. Text is written in the order in which the definitions
below say it, and the changes of state between two texts are made even when the second is not
written. A failed run therefore leaves a state that depends only on how much of its report fitted.
-/
import Dvi.Decimal.Fixed
import Dvi.Machine.Basic
import Dvi.Sink
import Dvi.Text.Utf8

namespace Dvi

/-- Why a command was not executed, or not fully reported. -/
inductive RunError where
  | sink (e : IoError)
  /-- A `pop` when no group is open. -/
  | unbalancedPop
  | undefinedFont (number : Int32)
deriving DecidableEq

/-- What a failed command is reported as. -/
def RunError.message : RunError → String
  | sink e => s!"could not write trace: {e.text}"
  | unbalancedPop => "pop without a matching push"
  | undefinedFont number => s!"font {number} selected before it was defined"

/-- A machine and the sink to which it reports. -/
structure Tracer where
  machine : Machine
  trace : Sink

/-- A step of a machine that reports. -/
abbrev RunM := EStateM RunError Tracer

/-- The mnemonic of a command as a trace shows it, in one word. -/
def Command.word (c : Command) : String :=
  String.ofList (c.name.toList.filter (· ≠ '_'))

namespace Tracer

/-- A number with its sign. -/
def withSign (x : Int32) : String :=
  if x < 0 then toString x else "+" ++ toString x

/-- Reports a text. -/
def say (text : String) : RunM Unit
  | ⟨machine, sink⟩ =>
    match sink.writeAll (Utf8.encode text) with
    | (none, sink) => .ok () ⟨machine, sink⟩
    | (some e, sink) => .error (.sink e) ⟨machine, sink⟩

/-- Reports a text that ends its line. -/
def sayLine (text : String) : RunM Unit :=
  say (text ++ "\n")

/-- Changes the machine. -/
def update (f : Machine → Machine) : RunM Unit :=
  modify fun ⟨machine, sink⟩ => ⟨f machine, sink⟩

/-- Reports the registers, after the number of a level. -/
def sayLevel (level : Nat) : RunM Unit := do
  let machine := (← get).machine
  let { h, v, w, x, y, z } := machine.registers
  let hh := machine.pixels h
  let vv := machine.pixels v
  sayLine s!"level {level}:(h={h},v={v},w={w},x={x},y={y},z={z},hh={hh},vv={vv})"

/-- The names of the position along an axis, in units of length and in pixels. -/
def positionNames : Axis → String × String
  | .horizontal => ("h", "hh")
  | .vertical => ("v", "vv")

/-- Moves along an axis and ends the line that reports it. `written` shows the new position. -/
def travel (axis : Axis) (amount : Int32) (written : Int32 → String) : RunM Unit := do
  let old := (← get).machine.registers.position axis
  update (Machine.move axis amount)
  let new := old + amount
  let (unit, pixel) := positionNames axis
  let hh := (← get).machine.pixels new
  sayLine (s!" {unit}:={old}" ++ withSign amount ++ "=" ++ written new ++ s!", {pixel}:={hh}")

/-- Typesets a character and ends the line that reports it. -/
def advance (code : Int32) : RunM Unit := do
  let machine := (← get).machine
  travel .horizontal (machine.charWidth machine.currentFont code) toString

/-- Makes a font current. The result is its definition. -/
def select (number : Int32) : RunM Font := do
  match (← get).machine.fonts.find? number with
  | none => throw (.undefinedFont number)
  | some font =>
    update (Machine.selectFont number)
    return font

/-- Executes one command. -/
def run (c : Command) : RunM Unit := do
  let word := c.word
  match c with
  | .pre _ units comment =>
    sayLine s!"numerator/denominator={units.num}/{units.den}"
    update (Machine.setUnits units)
    let scale := Decimal.fixed 10 8 (← get).machine.scale
    sayLine s!"magnification={units.mag};       {scale} pixels per DVI unit"
    sayLine ("'" ++ Utf8.lossy comment ++ "'")
  | .bop _ _ =>
    update Machine.beginPage
    let page := (← get).machine.page
    sayLine s!"beginning of page {page}"
  | .eop | .nop => sayLine word
  | .push =>
    sayLine word
    update Machine.save
    -- The registers shown are those just saved, and so is the level.
    sayLevel ((← get).machine.depth - 1)
  | .pop =>
    if (← get).machine.depth = 0 then
      throw .unbalancedPop
    sayLine word
    update Machine.restore
    sayLevel (← get).machine.depth
  | .setChar code =>
    say word
    advance (Int32.ofNat code.toNat)
  | .set _ code =>
    say s!"{word} {code}"
    advance code
  | .put _ code => sayLine s!"{word} {code}"
  | .setRule height width =>
    say s!"{word} height {height}, width {width}"
    travel .horizontal width toString
  | .putRule height width => sayLine s!"{word} height {height}, width {width}"
  | .move axis _ amount =>
    say s!"{word} {amount}"
    travel axis amount withSign
  | .again spacing =>
    say word
    travel spacing.axis ((← get).machine.registers.spacing spacing) withSign
  | .space spacing _ amount =>
    update (Machine.remember spacing amount)
    say s!"{word} {amount}"
    travel spacing.axis amount withSign
  | .fontNum number =>
    let font ← select (Int32.ofNat number.toNat)
    sayLine (s!"{word} current font is " ++ Utf8.lossy font.name)
  | .selectFont _ number =>
    let font ← select number
    sayLine (s!"{word} {number} current font is " ++ Utf8.lossy font.name)
  | .special _ payload => sayLine (word ++ " '" ++ Utf8.lossy payload ++ "'")
  | .fontDef _ font =>
    sayLine (s!"{word} {font.number}: " ++ Utf8.lossy font.name)
    update (Machine.defineFont font)
  | .post summary =>
    sayLine (s!"{word} pages={summary.pages} maxv={summary.maxHeight} maxh={summary.maxWidth} "
      ++ s!"maxstackdepth={summary.maxStack}")
  | .postPost pointer _ => sayLine s!"{word} pointer={pointer}"

/-- Executes one command and goes on, whatever comes of it. -/
def step (tracer : Tracer) (c : Command) : Option RunError × Tracer :=
  match run c tracer with
  | .ok _ after => (none, after)
  | .error e after => (some e, after)

/-- Executes commands in order, going on after those that fail. -/
def replay (tracer : Tracer) (commands : List Command) : Tracer :=
  commands.foldl (fun tracer c => (tracer.step c).2) tracer

end Tracer

end Dvi
