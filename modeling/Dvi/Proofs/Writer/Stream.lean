/-
# Dvi.Proofs.Writer.Stream — writing commands one after the other.

On a reliable sink, commands that have an encoding are all written, each at the place where the one
before it ended (`Represents.commandsAt`); and a run that succeeds was given no other commands
(`encodes_of_commandsAt`).
-/
import Dvi.Proofs.Writer.Emission

namespace Dvi.Writer

/-- Writes commands in order, up to the first that fails, and notes the position before each. -/
def commandsAt : List Command → WriteM (List (Nat × Command))
  | [] => return []
  | c :: cs => do
    let start := (← get).pos
    command c
    return (start, c) :: (← commandsAt cs)

variable {writer : Writer} {size : BufferSize} {origin : Sink} {draft : Draft}

/-- Commands that have an encoding are written one after the other. -/
theorem Represents.commandsAt (h : writer.Represents size origin draft) (reliable : origin.Reliable)
    {cs : List Command} (encodes : ∀ c ∈ cs, c.violation? = none) :
    ∃ after cache, commandsAt cs writer = .ok (placed draft.length cs) after
      ∧ after.Represents size origin ⟨draft.octets ++ streamFrom draft.length cs, cache⟩ := by
  -- The draft goes with the induction: a command starts where what was written before it ends.
  induction cs generalizing writer draft with
  | nil =>
    refine ⟨writer, draft.cache, rfl, ?_⟩
    rw [streamFrom, List.append_nil]
    exact h
  | cons c cs ih =>
    obtain ⟨middle, first, represents⟩ :=
      (h.command (encodes c List.mem_cons_self)).ok_of_reliable reliable
    obtain ⟨after, cache, rest, last⟩ := ih represents fun c later =>
      encodes c (List.mem_cons_of_mem _ later)
    have length : Draft.length ⟨draft.octets ++ c.bytesAt draft.length, c.remembered draft.cache⟩
        = draft.length + (c.bytesAt draft.length).length := List.length_append
    rw [length] at rest last
    refine ⟨after, cache, ?_, ?_⟩
    · show (Writer.command c >>= fun _ => Writer.commandsAt cs >>= fun notes =>
        pure ((writer.pos, c) :: notes)) writer = _
      rw [bind_of_ok first, bind_of_ok rest, h.pos_eq]
      rfl
    · rw [streamFrom, ← List.append_assoc]
      exact last

/-- If commands were written to the last one, each of them has an encoding. -/
theorem encodes_of_commandsAt {cs : List Command} {notes : List (Nat × Command)} {after : Writer}
    (h : commandsAt cs writer = .ok notes after) : ∀ c ∈ cs, c.violation? = none := by
  induction cs generalizing writer notes after with
  | nil =>
    intro c none
    cases none
  | cons c cs ih =>
    change (command c >>= fun _ => commandsAt cs >>= fun notes =>
      pure ((writer.pos, c) :: notes)) writer = .ok notes after at h
    obtain ⟨_, middle, first, h⟩ := ok_of_bind h
    obtain ⟨later, last, rest, -⟩ := ok_of_bind h
    intro other member
    rcases List.mem_cons.mp member with rfl | member
    · cases violates : other.violation? with
      | none => rfl
      | some v =>
        rw [command_refused violates] at first
        cases first
    · exact ih rest other member

end Dvi.Writer
