/-
# Dvi.Proofs.Machine.Replay — what a replay does is decided by the commands and the machine.

A trace goes to a sink, and what a sink has taken before, or in which pieces it takes what it is
given, must not matter to a replay: what a command shows follows from the machine before it
(`sight_spec`). A `pop` just after a `push` restores the machine (`Machine.after_pop_save`), so a
replay shows the same of all other commands when such pairs are taken out, however often
(`observe_cancels`).
-/
import Dvi.Proofs.Command.Cancellation
import Dvi.Proofs.Machine.Execution

namespace Dvi

/-- Closing a group just after it was opened brings back the machine as it was. -/
theorem Machine.restore_save (machine : Machine) : machine.save.restore = machine := by
  rw [restore, save, Array.back?_push, Array.pop_push]
  rfl

/-- The group that was just opened is there to be closed. -/
theorem Machine.after_pop_save (machine : Machine) : machine.save.after .pop = machine := by
  have deep : machine.save.depth ≠ 0 := by
    rw [depth, save, Array.size_push]
    exact Nat.succ_ne_zero _
  have accepts : machine.save.refusal? .pop = none := if_neg deep
  rw [after_of_accepts accepts]
  exact machine.restore_save

namespace Tracer

/-! ## One command in a replay -/

/-- What a replay shows of a command. -/
structure Sight where
  command : Command
  refusal? : Option RunError
  /-- The machine afterwards. -/
  machine : Machine
  /-- What was reported. -/
  text : Bytes

/-- What a command shows. -/
def sight (tracer : Tracer) (c : Command) : Sight where
  command := c
  refusal? := (tracer.step c).1
  machine := (tracer.step c).2.machine
  text := (tracer.step c).2.trace.record.octets.toList.drop tracer.trace.record.octets.size

/-- Two tracers with one machine, on sinks that are reliable but may be different. -/
structure Alike (one two : Tracer) : Prop where
  machine_eq : one.machine = two.machine
  one_reliable : one.trace.Reliable
  two_reliable : two.trace.Reliable

variable {one two : Tracer}

theorem Alike.refl_right (h : Alike one two) : Alike two two :=
  ⟨rfl, h.two_reliable, h.two_reliable⟩

/-- What a command shows on a reliable sink follows from the machine before it. -/
theorem sight_spec (c : Command) (machine : Machine) :
    ∃ text, ∀ tracer : Tracer, tracer.machine = machine → tracer.trace.Reliable →
      (tracer.step c).2.trace.Reliable
        ∧ tracer.sight c = ⟨c, machine.refusal? c, machine.after c, text⟩ := by
  obtain ⟨text, reports⟩ := step_spec c machine
  refine ⟨text, ?_⟩
  rintro ⟨_, trace⟩ rfl reliable
  obtain ⟨after, stays, taken, step⟩ := reports trace reliable
  have shown : after.record.octets.toList.drop trace.record.octets.size = text := by
    rw [taken, ← Array.length_toList, List.drop_left]
  rw [sight, step]
  exact ⟨stays, by simp only [shown]⟩

/-- Tracers with one machine show the same and still have one machine. -/
theorem Alike.shows (h : Alike one two) (c : Command) :
    one.sight c = two.sight c ∧ Alike (one.step c).2 (two.step c).2 := by
  obtain ⟨text, shows⟩ := sight_spec c two.machine
  obtain ⟨one_stays, one_sight⟩ := shows one h.machine_eq h.one_reliable
  obtain ⟨two_stays, two_sight⟩ := shows two rfl h.two_reliable
  have same : one.sight c = two.sight c := one_sight.trans two_sight.symm
  exact ⟨same, congrArg Sight.machine same, one_stays, two_stays⟩

/-! ## Groups -/

/-- A `push` and a `pop` just after it leave a tracer with the machine that it had. -/
theorem Alike.pair (h : Alike one two) : Alike ((one.step .push).2.step .pop).2 two := by
  obtain ⟨text, opens⟩ := sight_spec .push one.machine
  obtain ⟨stays, shown⟩ := opens one rfl h.one_reliable
  have saved : (one.step .push).2.machine = one.machine.save := congrArg Sight.machine shown
  obtain ⟨text, closes⟩ := sight_spec .pop one.machine.save
  obtain ⟨stays, shown⟩ := closes _ saved stays
  have closed : ((one.step .push).2.step .pop).2.machine = one.machine.save.after .pop :=
    congrArg Sight.machine shown
  refine ⟨?_, stays, h.two_reliable⟩
  rw [closed, Machine.after_pop_save, h.machine_eq]

/-! ## Replays -/

/-- What a replay shows of the commands that are no brackets of groups. -/
def observe : Tracer → List Command → List Sight
  | _, [] => []
  | tracer, c :: cs =>
    let rest := observe (tracer.step c).2 cs
    if c = .push ∨ c = .pop then rest else tracer.sight c :: rest

/-- What a replay shows of commands that the machine accepts is that none of them is refused. -/
theorem observe_accepts {tracer : Tracer} (reliable : tracer.trace.Reliable) {cs : List Command}
    (accepts : tracer.machine.Accepts cs) : ∀ seen ∈ tracer.observe cs, seen.refusal? = none := by
  induction cs generalizing tracer with
  | nil =>
    intro seen none
    cases none
  | cons c cs ih =>
    obtain ⟨text, shows⟩ := sight_spec c tracer.machine
    obtain ⟨stays, shown⟩ := shows tracer rfl reliable
    have moves : (tracer.step c).2.machine = tracer.machine.after c := congrArg Sight.machine shown
    have rest : ∀ seen ∈ Tracer.observe (tracer.step c).2 cs, seen.refusal? = none :=
      ih stays (moves ▸ accepts.2)
    intro seen member
    rw [observe] at member
    split at member
    · exact rest seen member
    · next bracket =>
      rcases List.mem_cons.mp member with rfl | later
      · rw [shown]
        exact accepts.1 fun closes => bracket (.inr closes)
      · exact rest seen later

/-- Replays of the same commands from one machine show the same. -/
theorem Alike.observe_eq (h : Alike one two) (cs : List Command) :
    one.observe cs = two.observe cs ∧ Alike (one.replay cs) (two.replay cs) := by
  induction cs generalizing one two with
  | nil => exact ⟨rfl, h⟩
  | cons c cs ih =>
    obtain ⟨sight, alike⟩ := h.shows c
    obtain ⟨rest, last⟩ := ih alike
    exact ⟨by rw [observe, observe, sight, rest], last⟩

/-- A pair that is taken out is missed in no other command. -/
theorem Alike.observe_pair (h : Alike one two) (before after : List Command) :
    one.observe (before ++ .push :: .pop :: after) = two.observe (before ++ after)
      ∧ Alike (one.replay (before ++ .push :: .pop :: after)) (two.replay (before ++ after)) := by
  induction before generalizing one two with
  | nil => exact h.pair.observe_eq after
  | cons c before ih =>
    obtain ⟨sight, alike⟩ := h.shows c
    obtain ⟨rest, last⟩ := ih alike
    refine ⟨?_, last⟩
    show one.observe (c :: (before ++ _)) = two.observe (c :: (before ++ after))
    rw [observe, observe, sight, rest]

/-- Whatever pairs are taken out of a replay, the other commands show the same, and the machine is the
same in the end. -/
theorem Alike.observe_cancels (h : Alike one two) {full kept : List Command}
    (cancels : Cancels full kept) :
    one.observe full = two.observe kept ∧ Alike (one.replay full) (two.replay kept) := by
  induction cancels with
  | refl => exact h.observe_eq full
  | @pair before after _ ih =>
    obtain ⟨same, last⟩ := ih
    -- The next pair is taken out of the second replay, with the first one left as it is.
    obtain ⟨shorter, finish⟩ := h.refl_right.observe_pair before after
    exact ⟨same.trans shorter, last.machine_eq.trans finish.machine_eq, last.one_reliable,
      finish.two_reliable⟩

end Tracer

end Dvi
