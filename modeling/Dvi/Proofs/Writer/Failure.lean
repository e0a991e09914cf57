/-
# Dvi.Proofs.Writer.Failure — what a sink has taken, however it answers.

A sink may take a part of what it is offered, take nothing, or fail at any moment, and a session goes
on until it fails. Up to then the sink has taken exactly the bytes that were handed on, a front of the
stream that no closing of a group reaches into. The operation at which it fails leaves the cache alone,
and of the half that was due then the sink has taken a part. Ending a session succeeds only if the sink
has taken the whole stream (`performAll_hands_on_front`).
-/
import Dvi.Proofs.Writer.Refinement

namespace Dvi

/-- All that a sink has taken since it was `origin` are these bytes. -/
def Sink.HasTaken (sink origin : Sink) (octets : Bytes) : Prop :=
  sink.record.octets.toList = origin.record.octets.toList ++ octets

namespace Writer

/-- Performs operations in order, going on after those that are refused, up to the first at which the
sink fails. -/
def performAll : List Operation → WriteM Unit
  | [], writer => .ok () writer
  | op :: ops, writer =>
    match op.perform writer with
    | .ok _ after => performAll ops after
    | .error e after => if e.isFatal then .error e after else performAll ops after

variable {writer : Writer} {size : BufferSize} {origin : Sink} {draft : Draft}

/-- An operation either leaves a writer that represents the draft after it, from which the session
goes on, or the sink fails. -/
theorem Represents.goesOn (h : writer.Represents size origin draft) (op : Operation) :
    (∃ after, after.Represents size origin (draft.attempt size op).2
        ∧ ∀ ops, performAll (op :: ops) writer = performAll ops after)
      ∨ ∃ e after, op.perform writer = .error (.sink e) after
          ∧ after.Interrupted size origin
              (draft.append (op.written draft.cache draft.length))
          ∧ ∀ ops, performAll (op :: ops) writer = .error (.sink e) after := by
  rcases h.perform_cases op with ⟨answer, after, last, run, attempts, represents⟩
    | ⟨v, run, attempts⟩ | ⟨e, after, run, interrupted⟩
  · refine .inl ⟨after, ?_, ?_⟩
    · rw [attempts]
      exact represents
    · intro ops
      rw [performAll, run]
  · refine .inl ⟨writer, ?_, ?_⟩
    · rw [attempts]
      exact h
    · intro ops
      rw [performAll, run]
      rfl
  · refine .inr ⟨e, after, run, interrupted, ?_⟩
    intro ops
    rw [performAll, run]
    rfl

/-- A session comes to its end, or it ends at one of its operations, with those before it performed. -/
theorem Represents.performAll (h : writer.Represents size origin draft) (ops : List Operation) :
    (∃ after, performAll ops writer = .ok () after
        ∧ after.Represents size origin (draft.attemptAll size ops).2)
      ∨ ∃ before op later middle e after, ops = before ++ op :: later
          ∧ Writer.performAll before writer = .ok () middle
          ∧ middle.Represents size origin (draft.attemptAll size before).2
          ∧ op.perform middle = .error (.sink e) after
          ∧ Writer.performAll ops writer = .error (.sink e) after
          ∧ let last := (draft.attemptAll size before).2
            after.Interrupted size origin (last.append (op.written last.cache last.length)) := by
  induction ops generalizing writer draft with
  | nil => exact .inl ⟨writer, rfl, h⟩
  | cons op ops ih =>
    rcases h.goesOn op with ⟨next, represents, goes⟩ | ⟨e, after, run, interrupted, stops⟩
    · rw [goes ops]
      rcases ih represents with ⟨after, run, last⟩
        | ⟨before, failing, later, middle, e, after, rfl, run, reached, fails, stops, last⟩
      · exact .inl ⟨after, run, last⟩
      · exact .inr ⟨op :: before, failing, later, middle, e, after, rfl, (goes before).trans run,
          reached, fails, stops, last⟩
    · exact .inr ⟨[], op, ops, writer, e, after, rfl, rfl, h, run, stops ops, interrupted⟩

/-- Whatever a sink answers, what it has taken is a front of the stream. As long as it has not failed,
these are exactly the bytes that were handed on, and ending the session succeeds only if the sink has
taken the whole stream and is then flushed. If it fails in an operation, nothing that the writer
remembers has changed in that operation, and of the bytes emitted up to then the sink has taken those
that were handed on and less than a half more. -/
theorem performAll_hands_on_front (size : BufferSize) (sink : Sink) (ops : List Operation) :
    (∃ writer, performAll ops (new sink size) = .ok () writer
        ∧ let stream := (Draft.attemptAll size ops {}).2.octets
          writer.buffer.gone ≤ stream.length
            ∧ writer.sink.HasTaken sink (stream.take writer.buffer.gone)
            ∧ ((∃ (given : Sink) (finished : Writer), finish writer = .ok () finished
                  ∧ given.HasTaken sink stream
                  ∧ given.flush = (none, finished.sink)
                  ∧ finished.sink.HasTaken sink stream)
                ∨ ∃ e broken front, finish writer = .error (.sink e) broken
                  ∧ front <+: stream ∧ broken.sink.HasTaken sink front))
      ∨ ∃ before op later writer e broken, ops = before ++ op :: later
          ∧ performAll before (new sink size) = .ok () writer
          ∧ op.perform writer = .error (.sink e) broken
          ∧ performAll ops (new sink size) = .error (.sink e) broken
          ∧ broken.cache = writer.cache
          ∧ let draft := (Draft.attemptAll size before {}).2
            let emitted := (draft.octets ++ op.written draft.cache draft.length).take broken.pos
            emitted.length = broken.pos
              ∧ ∃ n ≤ emitted.length, broken.sink.HasTaken sink (emitted.take n)
                ∧ broken.buffer.gone ≤ n ∧ n < broken.buffer.gone + size.half := by
  rcases (represents_new sink size).performAll ops with ⟨writer, run, represents⟩
    | ⟨before, op, later, writer, e, broken, split, run, represents, fails, stops, interrupted⟩
  · refine .inl ⟨writer, run, represents.holds.gone_le_length, represents.taken, ?_⟩
    rcases represents.finish_cases with ⟨given, finished, whole, flushed, ends⟩
      | ⟨e, broken, ends, -, front, isFront, part⟩
    · have same := given.octets_flush
      rw [flushed] at same
      exact .inl ⟨given, finished, ends, whole, flushed, (congrArg Array.toList same).trans whole⟩
    · exact .inr ⟨e, broken, front, ends, isFront, part⟩
  · obtain ⟨n, inside, above, below, part⟩ := interrupted.taken
    have emitted := interrupted.holds.length_stream
    refine .inr ⟨before, op, later, writer, e, broken, split, run, fails, stops,
      interrupted.cache_eq.trans represents.cache_eq.symm, emitted, n,
      Nat.le_trans inside (Nat.le_of_eq emitted.symm), ?_, above, below⟩
    rw [Sink.HasTaken, List.take_take, Nat.min_eq_left inside]
    exact part

/-- A disk with room for six bytes. A `push` is taken back, and the movement fills a half of which only
two bytes find room, so the position that is remembered is still the one that was set before. -/
example :
    (match performAll [.push, .bracketPop 1, .word 0x01020304, .setH 9, .word 0x05060708,
        .moveRight 70000] (new (.bounded 6) ⟨4, Nat.le_refl 4⟩) with
      | .ok _ _ => none
      | .error _ broken =>
        some (broken.cache, broken.pos, broken.buffer.gone, broken.sink.record.octets.toList))
      = some ({ h := 9 }, 12, 4, [1, 2, 3, 4, 5, 6]) := by
  decide +kernel

end Writer

end Dvi
