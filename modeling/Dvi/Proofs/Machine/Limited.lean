/-
# Dvi.Proofs.Machine.Limited — replays whose trace runs out of room.

A command reports in pieces and changes the machine between them, so a sink that refuses one of them
leaves a machine that no complete run ever passes through, and later commands go on from there. What the
sink has kept is not affected by this: it is full from then on. Two replays of the same commands, one on
a sink that takes everything and one on a sink with room for some number of bytes, therefore stay in step
as follows (`Follows`): what the second sink has is always the front of what the first one has, as far as
there is room, and the machines are the same as long as everything fitted. The main statement is
`replay_limited`.
-/
import Dvi.Proofs.Machine.Execution

namespace Dvi

/-- A failure of the sink, as opposed to a command that the machine refuses. -/
def RunError.isSink : RunError → Bool
  | sink _ => true
  | _ => false

/-- A machine does not refuse a command for lack of room. -/
theorem Machine.refusal?_not_isSink (machine : Machine) (c : Command) :
    (machine.refusal? c).any RunError.isSink = false := by
  cases decision : machine.refusal? c with
  | none => rfl
  | some e =>
    rcases refusal?_eq_some decision with ⟨-, -, rfl⟩ | ⟨-, number, -, rfl⟩
    · rfl
    · rfl

namespace Tracer

variable {free capped : Tracer} {capacity : Nat}

/-! ## One command -/

/-- A tracer on a sink with limited room goes along with one that has the same commands behind it and a
sink that takes everything. -/
structure Follows (free capped : Tracer) (capacity : Nat) : Prop where
  reliable : free.trace.Reliable
  limited : capped.trace.Limited capacity
  kept : capped.trace.record.octets.toList = free.trace.record.octets.toList.take capacity
  machine_eq : free.trace.record.octets.size ≤ capacity → capped.machine = free.machine

theorem Follows.size_eq (h : Follows free capped capacity) :
    capped.trace.record.octets.size = min capacity free.trace.record.octets.size := by
  have length := congrArg List.length h.kept
  rwa [List.length_take, Array.length_toList, Array.length_toList] at length

/-- After everything was taken, the next command does the same on both if its report fits. If it does
not, it fails for want of room, and the front of the report that fits is kept. -/
theorem Follows.step_of_room (h : Follows free capped capacity)
    (room : free.trace.record.octets.size ≤ capacity) (c : Command) :
    Follows (free.step c).2 (capped.step c).2 capacity
      ∧ ((free.step c).2.trace.record.octets.size ≤ capacity →
          (capped.step c).1 = (free.step c).1 ∧ (free.step c).1.any RunError.isSink = false)
      ∧ (capacity < (free.step c).2.trace.record.octets.size →
          (capped.step c).1.any RunError.isSink = true) := by
  obtain ⟨machine, sink⟩ := free
  obtain ⟨same, trace⟩ := capped
  obtain rfl : same = machine := h.machine_eq room
  have kept : trace.record.octets.toList = sink.record.octets.toList := by
    refine h.kept.trans (List.take_of_length_le ?_)
    rwa [Array.length_toList]
  have size : trace.record.octets.size = sink.record.octets.size := by
    rw [← Array.length_toList, kept, Array.length_toList]
  -- Both sinks are given the same pieces.
  obtain ⟨pieces, -, steps⟩ := step_pieces c same
  obtain ⟨after, run, stays, taken⟩ := h.reliable.writePieces pieces
  obtain ⟨failure, last, given, limited, front, complete⟩ :=
    h.limited.writePieces (size ▸ room) pieces
  have total : after.record.octets.size = sink.record.octets.size + pieces.flatten.length := by
    rw [← Array.length_toList, taken, List.length_append, Array.length_toList]
  have free_step := steps sink
  rw [run] at free_step
  have capped_step := steps trace
  rw [given] at capped_step
  rw [kept, ← taken] at front
  rw [size, ← total] at complete
  cases failure with
  | none =>
    have fits := complete.mp rfl
    rw [free_step, capped_step]
    refine ⟨⟨stays, limited, front, fun _ => rfl⟩, fun _ => ⟨rfl, same.refusal?_not_isSink c⟩, ?_⟩
    intro beyond
    exact absurd fits (Nat.not_le.mpr beyond)
  | some e =>
    have beyond : ¬after.record.octets.size ≤ capacity := by
      intro fits
      cases complete.mpr fits
    obtain ⟨broken, stops⟩ := capped_step
    rw [free_step, stops]
    exact ⟨⟨stays, limited, front, fun fits => absurd fits beyond⟩, fun fits => absurd fits beyond,
      fun _ => rfl⟩

/-- Once something was lost, nothing more is kept, whatever becomes of the machine. -/
theorem Follows.step_of_lost (h : Follows free capped capacity)
    (lost : capacity < free.trace.record.octets.size) (c : Command) :
    Follows (free.step c).2 (capped.step c).2 capacity
      ∧ capacity < (free.step c).2.trace.record.octets.size := by
  obtain ⟨machine, sink⟩ := free
  obtain ⟨other, trace⟩ := capped
  have kept : trace.record.octets.toList = sink.record.octets.toList.take capacity := h.kept
  have full : trace.record.octets.size = capacity :=
    h.size_eq.trans (Nat.min_eq_left (Nat.le_of_lt lost))
  obtain ⟨text, reports⟩ := step_spec c machine
  obtain ⟨after, stays, taken, free_step⟩ := reports sink h.reliable
  obtain ⟨pieces, -, steps⟩ := step_pieces c other
  obtain ⟨failure, last, given, limited, front, -⟩ :=
    h.limited.writePieces (Nat.le_of_eq full) pieces
  have longer : capacity < after.record.octets.size := by
    rw [← Array.length_toList, taken, List.length_append, Array.length_toList]
    exact Nat.lt_add_right _ lost
  have same : last.record.octets.toList = after.record.octets.toList.take capacity := by
    rw [front, taken, List.take_left' (by rw [Array.length_toList, full]), kept,
      List.take_append_of_le_length (by rw [Array.length_toList]; exact Nat.le_of_lt lost)]
  have leaves : (Tracer.step ⟨other, trace⟩ c).2.trace = last := by
    have capped_step := steps trace
    rw [given] at capped_step
    cases failure with
    | none => rw [capped_step]
    | some e =>
      obtain ⟨broken, stops⟩ := capped_step
      rw [stops]
  rw [free_step]
  refine ⟨⟨stays, ?_, ?_, fun fits => absurd fits (Nat.not_le.mpr longer)⟩, longer⟩
  · rw [leaves]
    exact limited
  · rw [leaves]
    exact same

/-! ## Replays -/

/-- A replay on a sink with limited room keeps the front of the trace that fits. -/
theorem Follows.replay (h : Follows free capped capacity) (commands : List Command) :
    Follows (free.replay commands) (capped.replay commands) capacity := by
  induction commands generalizing free capped with
  | nil => exact h
  | cons c commands ih =>
    rcases Nat.lt_or_ge capacity free.trace.record.octets.size with lost | room
    · exact ih (h.step_of_lost lost c).1
    · exact ih (h.step_of_room room c).1

/-- As long as everything fitted, the next failure of the sink comes with the first command that makes
the unlimited trace too long, and every command before it comes to the same on both. -/
theorem Follows.turns (h : Follows free capped capacity)
    (room : free.trace.record.octets.size ≤ capacity) (commands : List Command) :
    let first := (free.turns commands).findIdx fun turn =>
      capacity < turn.2.trace.record.octets.size
    (capped.turns commands).findIdx (fun turn => turn.1.any RunError.isSink) = first
      ∧ ((capped.turns commands).take first).map (fun turn => (turn.1, turn.2.machine))
          = ((free.turns commands).take first).map (fun turn => (turn.1, turn.2.machine)) := by
  induction commands generalizing free capped with
  | nil => exact ⟨rfl, rfl⟩
  | cons c commands ih =>
    obtain ⟨follows, fitting, lacking⟩ := h.step_of_room room c
    simp only [Tracer.turns, List.findIdx_cons]
    rcases Nat.lt_or_ge capacity (free.step c).2.trace.record.octets.size with lost | fits
    · simp [lacking lost, lost]
    · obtain ⟨same, unfailing⟩ := fitting fits
      obtain ⟨first, before⟩ := ih follows fits
      simp [unfailing, Nat.not_lt.mpr fits, first, before, same, follows.machine_eq fits]

/-- A trace that runs out of room is cut short and nothing else. If a replay has room for `capacity`
bytes of its trace, it keeps the first bytes of the trace of an unlimited replay, that many or all; the
first failure of its sink comes with the first command after which the unlimited trace is longer than the
room; and all commands before that one come to the same result and the same machine in both replays. -/
theorem replay_limited (machine : Machine) (commands : List Command) {capacity : Nat} {sink : Sink}
    (limited : sink.Limited capacity) (fresh : sink.record.octets = #[]) :
    let free : Tracer := ⟨machine, .unbounded⟩
    let capped : Tracer := ⟨machine, sink⟩
    let trace := (free.replay commands).trace.record.octets.toList
    let first := (free.turns commands).findIdx fun turn =>
      capacity < turn.2.trace.record.octets.size
    (capped.replay commands).trace.record.octets.toList = trace.take (min capacity trace.length)
      ∧ (capped.turns commands).findIdx (fun turn => turn.1.any RunError.isSink) = first
      ∧ ((capped.turns commands).take first).map (fun turn => (turn.1, turn.2.machine))
          = ((free.turns commands).take first).map (fun turn => (turn.1, turn.2.machine)) := by
  intro free capped trace first
  have follows : Follows free capped capacity := {
    reliable := Sink.reliable_unbounded
    limited
    kept := by
      show sink.record.octets.toList = [].take capacity
      rw [fresh, List.take_nil]
    machine_eq := fun _ => rfl }
  obtain ⟨index, before⟩ := follows.turns (Nat.zero_le capacity) commands
  exact ⟨(follows.replay commands).kept.trans List.take_eq_take_min, index, before⟩

/-- A trace that is cut inside the report of a special, after the selection of an undefined font has
failed without reporting anything. -/
theorem replay_limited_inside_a_special :
    let commands : List Command := [.nop, .fontNum 4, .special .one [65], .eop]
    let capped : Tracer := ⟨{}, .bounded 8⟩
    (Sink.bounded 8).Limited 8 ∧ (Sink.bounded 8).record.octets = #[]
      ∧ (capped.replay commands).trace.record.octets.toList = Utf8.encode "nop\nxxx1"
      ∧ (capped.turns commands).findIdx (fun turn => turn.1.any RunError.isSink) = 2
      ∧ ((capped.turns commands).take 2).map Prod.fst = [none, some (.undefinedFont 4)] := by
  intro commands capped
  obtain ⟨kept, first, before⟩ := replay_limited {} commands (Sink.limited_bounded 8) rfl
  have trace : (Tracer.replay ⟨{}, .unbounded⟩ commands).trace.record.octets.toList
      = Utf8.encode "nop\nxxx1 'A'\neop\n" := by decide +kernel
  have too_long : ((Tracer.turns ⟨{}, .unbounded⟩ commands).findIdx fun turn =>
      8 < turn.2.trace.record.octets.size) = 2 := by decide +kernel
  have results : ((Tracer.turns ⟨{}, .unbounded⟩ commands).take 2).map Prod.fst
      = [none, some (.undefinedFont 4)] := by decide +kernel
  rw [trace] at kept
  rw [too_long] at first before
  have same := congrArg (List.map Prod.fst) before
  rw [List.map_map, List.map_map] at same
  exact ⟨Sink.limited_bounded 8, rfl, kept.trans (by decide +kernel), first, same.trans results⟩

end Tracer

end Dvi
