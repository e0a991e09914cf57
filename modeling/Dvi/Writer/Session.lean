/-
# Dvi.Writer.Session — sequences of operations.

`Operation` lists what can be asked of a writer between its start and its end, as data. A session
adds the bookkeeping of groups: it remembers the locations that `push` returned, innermost first,
and closes the innermost group that is still open with its own location.
-/
import Dvi.Writer.Commands

namespace Dvi

/-- What can be asked of a writer. -/
inductive Operation where
  | byte (b : UInt8)
  | word (x : UInt32)
  | signedWord (x : Int32)
  /-- A member of the family that begins at `base`. -/
  | member (base : UInt8) (x : Int32)
  | fontDefinition (number : UInt8) (checksum : UInt32) (scale designSize : Int32)
    (area name : Bytes)
  | bracketPop (location : Nat)
  | push
  | beginPage (counters : Vector Int32 10) (prev : Int32)
  | moveRight (d : Int32)
  | moveDown (d : Int32)
  | selectFont (number : UInt32)
  | setChar (code : UInt32)
  | preamble (mag : UInt32) (comment : Bytes)
  | command (c : Command)
  | addPage
  | setFont (font : Option UInt32)
  | setH (h : Int32)
  | setV (v : Int32)

/-- Performs an operation. `push` and `beginPage` return a position. -/
def Operation.perform : Operation → WriteM (Option Nat)
  | byte b => do Writer.emit b; return none
  | word x => do Writer.word x; return none
  | signedWord x => do Writer.signedWord x; return none
  | member base x => do Writer.signedMember base x; return none
  | fontDefinition number checksum scale designSize area name => do
    Writer.fontDefinition number checksum scale designSize area name
    return none
  | bracketPop location => do Writer.bracketPop location; return none
  | push => do return some (← Writer.push)
  | beginPage counters prev => do return some (← Writer.beginPage counters prev)
  | moveRight d => do Writer.moveRight d; return none
  | moveDown d => do Writer.moveDown d; return none
  | selectFont number => do Writer.selectFont number; return none
  | setChar code => do Writer.setChar code; return none
  | preamble mag comment => do Writer.preamble mag comment; return none
  | command c => do Writer.command c; return none
  | addPage => do Writer.addPage; return none
  | setFont font => do Writer.setFont font; return none
  | setH h => do Writer.setH h; return none
  | setV v => do Writer.setV v; return none

/-- A writer and the locations of the groups that are still open, innermost first. -/
structure Session where
  writer : Writer
  groups : List Nat := []

/-- A step of a session. -/
inductive Action where
  | perform (op : Operation)
  | openGroup
  | closeGroup

/-- What a successful step answers. -/
inductive Outcome where
  | done
  | position (n : Nat)
  /-- There was no group to close, so nothing was done. -/
  | nothingOpen
deriving DecidableEq

/-- A step of a session that may fail. -/
abbrev SessionM := EStateM WriteError Session

namespace Session

/-- An operation of the writer as a step of the session. -/
def onWriter {α : Type} (operation : WriteM α) : SessionM α
  | ⟨writer, groups⟩ =>
    match operation writer with
    | .ok a writer => .ok a ⟨writer, groups⟩
    | .error e writer => .error e ⟨writer, groups⟩

/-- Takes one step. The location of a group is forgotten when closing it is attempted. -/
def step : Action → SessionM Outcome
  | .perform op => do
    match ← onWriter op.perform with
    | some n => return .position n
    | none => return .done
  | .openGroup => do
    let location ← onWriter Writer.push
    modify fun ⟨writer, groups⟩ => ⟨writer, location :: groups⟩
    return .position location
  | .closeGroup => do
    match (← get).groups with
    | [] => return .nothingOpen
    | location :: outer =>
      modify fun ⟨writer, _⟩ => ⟨writer, outer⟩
      onWriter (Writer.bracketPop location)
      return .done

end Session

end Dvi
