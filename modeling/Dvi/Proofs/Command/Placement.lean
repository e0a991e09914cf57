/-
# Dvi.Proofs.Command.Placement — where commands stand in a stream.

Commands that are written one after the other stand one after the other, and filler follows the end
of the postamble. So the bytes that a command adds depend on where it starts, and the places of a
list of commands follow from the place of the first one (`placed`). A reader sees those up to and
including the first that ends the stream (`throughEnd`).
-/
import Dvi.Writer.Commands

namespace Dvi

namespace Command

/-- The filler after a command that ends at a position: only the end of the postamble has any. -/
def filling (stop : Nat) : Command → Bytes
  | postPost _ _ => List.replicate (Writer.fillerCount stop) Writer.filler
  | _ => []

/-- The bytes that a command adds to a stream when it is written at a position. -/
def bytesAt (start : Nat) (c : Command) : Bytes :=
  c.bytes ++ c.filling (start + c.bytes.length)

/-- Whether nothing that follows a command belongs to the stream. -/
def ends (c : Command) : Bool :=
  c.opcode == .postPost

theorem filling_of_not_ends {c : Command} (h : c.ends = false) (stop : Nat) :
    c.filling stop = [] := by
  cases c with
  | postPost pointer id => cases h
  | _ => rfl

theorem filling_of_ends {c : Command} (h : c.ends = true) (stop : Nat) :
    c.filling stop = List.replicate (Writer.fillerCount stop) Writer.filler := by
  cases c with
  | postPost pointer id => rfl
  | _ => cases h

theorem bytesAt_of_not_ends {c : Command} (h : c.ends = false) (start : Nat) :
    c.bytesAt start = c.bytes := by
  rw [bytesAt, filling_of_not_ends h, List.append_nil]

end Command

/-- There are at least four fillers and at most seven. -/
theorem Writer.fillerCount_bounds (stop : Nat) :
    4 ≤ fillerCount stop ∧ fillerCount stop ≤ 7 := by
  unfold fillerCount
  omega

/-- Commands with the places at which they start, if the first one starts at `start`. -/
def placed : Nat → List Command → List (Nat × Command)
  | _, [] => []
  | start, c :: cs => (start, c) :: placed (start + (c.bytesAt start).length) cs

/-- The bytes of commands, if the first one starts at `start`. -/
def streamFrom : Nat → List Command → Bytes
  | _, [] => []
  | start, c :: cs => c.bytesAt start ++ streamFrom (start + (c.bytesAt start).length) cs

/-- The commands up to and including the first that ends the stream; all of them, if none does. -/
def throughEnd : List (Nat × Command) → List (Nat × Command)
  | [] => []
  | (start, c) :: rest => if c.ends then [(start, c)] else (start, c) :: throughEnd rest

theorem map_snd_placed (start : Nat) (cs : List Command) : (placed start cs).map Prod.snd = cs := by
  induction cs generalizing start with
  | nil => rfl
  | cons c cs ih => rw [placed, List.map_cons, ih]

end Dvi
