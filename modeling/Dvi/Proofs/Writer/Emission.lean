/-
# Dvi.Proofs.Writer.Emission — a writer adds bytes to the draft that it represents.

A writer represents a draft when its buffer holds the end of the bytes of the draft and its sink has
taken the rest (`Writer.Represents`). An operation that adds bytes is described by what it makes of
the draft: either it answers and the writer represents the longer draft, or the sink failed and what
it has taken is still a front of the longer draft (`Writer.Adds`). The main statements are that
`emit` and `emitAll` add the bytes they are given, that `command` adds those of a command that has an
encoding and refuses any other, and that `finish` hands over the rest of the stream.
-/
import Dvi.Proofs.Sink
import Dvi.Proofs.Steps
import Dvi.Proofs.Writer.Buffer
import Dvi.Proofs.Writer.Draft

namespace Dvi

namespace Writer

/-- A writer whose buffer and sink stand for a draft, in a session that began on the sink `origin`.
A half may be due. -/
structure Carries (writer : Writer) (size : BufferSize) (origin : Sink) (draft : Draft) : Prop where
  size_eq : writer.buffer.size = size
  holds : writer.buffer.Holds draft.octets
  cache_eq : writer.cache = draft.cache
  /-- The sink is the one that the session began on, except for what it has taken since. -/
  onWrite_eq : writer.sink.onWrite = origin.onWrite
  onFlush_eq : writer.sink.onFlush = origin.onFlush
  taken : writer.sink.record.octets.toList =
    origin.record.octets.toList ++ draft.octets.take writer.buffer.gone

/-- A writer that stands for a draft and has room for a byte, as it is between operations. -/
structure Represents (writer : Writer) (size : BufferSize) (origin : Sink) (draft : Draft) : Prop
    extends writer.Carries size origin draft where
  room : writer.buffer.ptr < writer.buffer.limit

/-- A writer whose sink failed on the way to a draft: it holds what was emitted up to its position,
and of the half that was due the sink has taken a part. -/
structure Interrupted (writer : Writer) (size : BufferSize) (origin : Sink) (draft : Draft) :
    Prop where
  unreliable : ¬origin.Reliable
  cache_eq : writer.cache = draft.cache
  holds : writer.buffer.Holds (draft.octets.take writer.pos)
  taken : ∃ n ≤ writer.pos, writer.buffer.gone ≤ n ∧ n < writer.buffer.gone + size.half
    ∧ writer.sink.record.octets.toList = origin.record.octets.toList ++ draft.octets.take n

/-- From a writer that represents a draft, a step adds bytes to the stream, answers `a` and then
remembers `cache`; or the sink fails, and nothing new is remembered. -/
def Adds {α : Type} (writer : Writer) (size : BufferSize) (origin : Sink) (draft : Draft)
    (step : WriteM α) (octets : Bytes) (a : α) (cache : Cache) : Prop :=
  (∃ after, step writer = .ok a after ∧ after.Represents size origin ⟨draft.octets ++ octets, cache⟩)
    ∨ ∃ e after, step writer = .error (.sink e) after
        ∧ after.Interrupted size origin (draft.append octets)

variable {α β : Type} {writer : Writer} {size : BufferSize} {origin : Sink} {draft : Draft}

/-- A new writer represents the empty draft. -/
theorem represents_new (sink : Sink) (size : BufferSize) :
    (new sink size).Represents size sink {} where
  size_eq := rfl
  holds := .empty size
  room := by
    have := size.half_lt_bytes
    show 0 < size.bytes
    omega
  cache_eq := rfl
  onWrite_eq := rfl
  onFlush_eq := rfl
  taken := by
    rw [List.take_nil, List.append_nil]
    rfl

/-- The position of a writer is the length of what it represents. -/
theorem Represents.pos_eq (h : writer.Represents size origin draft) : writer.pos = draft.length :=
  h.holds.length_stream.symm

/-- A writer that was stopped has not emitted more than it was to emit. -/
theorem Interrupted.pos_le (h : writer.Interrupted size origin draft) :
    writer.pos ≤ draft.octets.length := by
  have emitted : (draft.octets.take writer.pos).length = writer.pos := h.holds.length_stream
  rw [List.length_take] at emitted
  omega

/-- With more bytes on the draft, what the sink has taken is still a front of it. -/
theorem Interrupted.append (h : writer.Interrupted size origin draft) (octets : Bytes) :
    writer.Interrupted size origin (draft.append octets) where
  unreliable := h.unreliable
  cache_eq := h.cache_eq
  holds := by
    show writer.buffer.Holds ((draft.octets ++ octets).take writer.pos)
    rw [List.take_append_of_le_length h.pos_le]
    exact h.holds
  taken := by
    obtain ⟨n, inside, above, below, taken⟩ := h.taken
    refine ⟨n, inside, above, below, ?_⟩
    show _ = _ ++ (draft.octets ++ octets).take n
    rw [taken, List.take_append_of_le_length (Nat.le_trans inside h.pos_le)]

/-! ## Handing bytes to the sink -/

/-- Handing bytes over changes the sink alone. It takes them all, or it fails with a part of them. -/
theorem deliver_cases (writer : Writer) (octets : Bytes) :
    ∃ n ≤ octets.length, ∃ after : Sink,
      after.onWrite = writer.sink.onWrite ∧ after.onFlush = writer.sink.onFlush
        ∧ after.record.octets.toList = writer.sink.record.octets.toList ++ octets.take n
        ∧ (deliver octets writer = .ok () { writer with sink := after } ∧ n = octets.length
          ∨ ∃ e, deliver octets writer = .error (.sink e) { writer with sink := after }
              ∧ n < octets.length ∧ ¬writer.sink.Reliable) := by
  obtain ⟨buffer, cache, onWrite, onFlush, record⟩ := writer
  obtain ⟨n, bound, taken, complete⟩ := Sink.octets_offer onWrite record octets
  have unfailing : (⟨onWrite, onFlush, record⟩ : Sink).Reliable →
      (Sink.offer onWrite record octets).1 = none := fun reliable => reliable.offer_fst _ _
  rcases answer : Sink.offer onWrite record octets with ⟨failure, last⟩
  rw [answer] at taken complete unfailing
  refine ⟨n, bound, ⟨onWrite, onFlush, last⟩, rfl, rfl, taken, ?_⟩
  cases failure with
  | none =>
    refine .inl ⟨?_, complete.mp rfl⟩
    rw [deliver, Sink.writeAll, answer]
  | some e =>
    have short : n ≠ octets.length := fun all => by cases complete.mpr all
    refine .inr ⟨e, ?_, Nat.lt_of_le_of_ne bound short, fun reliable => by cases unfailing reliable⟩
    rw [deliver, Sink.writeAll, answer]

/-- The half that is due is handed over: `f` is the change of the buffer that goes with it. -/
theorem Carries.handOver (h : writer.Carries size origin draft) {half : Bytes} {f : Buffer → Buffer}
    (front : half = writer.buffer.pending.take writer.buffer.size.half)
    (holds : (f writer.buffer).Holds draft.octets)
    (room : (f writer.buffer).ptr < (f writer.buffer).limit)
    (size_eq : (f writer.buffer).size = writer.buffer.size)
    (gone_eq : (f writer.buffer).gone = writer.buffer.gone + writer.buffer.size.half) :
    (∃ after, (deliver half >>= fun _ => modifyBuffer f) writer = .ok () after
        ∧ after.Represents size origin draft)
      ∨ ∃ e after, (deliver half >>= fun _ => modifyBuffer f) writer = .error (.sink e) after
          ∧ after.Interrupted size origin draft := by
  have enough : writer.buffer.gone + writer.buffer.size.half ≤ draft.octets.length := by
    rw [← gone_eq]
    exact holds.gone_le_length
  have length_half : half.length = writer.buffer.size.half := by
    rw [front, h.holds.pending_eq, List.length_take, List.length_drop]
    omega
  -- However much of the half the sink takes, it is the next part of the stream.
  have part (n : Nat) (bound : n ≤ half.length) :
      draft.octets.take writer.buffer.gone ++ half.take n
        = draft.octets.take (writer.buffer.gone + n) := by
    rw [front, h.holds.pending_eq, List.take_take, Nat.min_eq_left (length_half ▸ bound),
      ← List.take_add]
  obtain ⟨n, bound, sink, onWrite, onFlush, taken, outcome⟩ := deliver_cases writer half
  rw [h.taken, List.append_assoc, part n bound] at taken
  rcases outcome with ⟨run, all⟩ | ⟨e, run, short, unreliable⟩
  · refine .inl ⟨⟨f writer.buffer, writer.cache, sink⟩, by rw [bind_of_ok run]; rfl, ?_⟩
    exact {
      size_eq := size_eq.trans h.size_eq
      holds
      room
      cache_eq := h.cache_eq
      onWrite_eq := onWrite.trans h.onWrite_eq
      onFlush_eq := onFlush.trans h.onFlush_eq
      taken := by
        show sink.record.octets.toList = _ ++ draft.octets.take (f writer.buffer).gone
        rw [taken, all, length_half, gone_eq] }
  · refine .inr ⟨e, { writer with sink }, by rw [bind_of_error run], ?_⟩
    exact {
      unreliable := fun reliable => unreliable {
        takes := h.onWrite_eq ▸ reliable.takes
        flushes := h.onFlush_eq ▸ reliable.flushes }
      cache_eq := h.cache_eq
      holds := by
        have whole : writer.pos = draft.octets.length := h.holds.length_stream.symm
        show writer.buffer.Holds (draft.octets.take writer.pos)
        rw [whole, List.take_length]
        exact h.holds
      taken := by
        refine ⟨writer.buffer.gone + n, ?_, Nat.le_add_right _ _, ?_, taken⟩
        · show _ ≤ writer.buffer.pos
          rw [← h.holds.length_stream]
          omega
        · show writer.buffer.gone + n < writer.buffer.gone + size.half
          rw [← h.size_eq, ← length_half]
          omega }

/-! ## Adding bytes -/

/-- A byte that does not fill the buffer to its limit is stored, and no more. -/
theorem emit_of_room {b : UInt8} (room : writer.buffer.ptr + 1 ≠ writer.buffer.limit) :
    emit b writer = .ok () { writer with buffer := writer.buffer.store b } := by
  let stored : Writer := { writer with buffer := writer.buffer.store b }
  have room : ¬stored.buffer.ptr = stored.buffer.limit := room
  show (if stored.buffer.ptr = stored.buffer.limit then swap else pure ()) stored = .ok () stored
  rw [if_neg room]
  rfl

theorem emit_of_full {b : UInt8} (full : writer.buffer.ptr + 1 = writer.buffer.limit) :
    emit b writer = swap { writer with buffer := writer.buffer.store b } := by
  let stored : Writer := { writer with buffer := writer.buffer.store b }
  have full : stored.buffer.ptr = stored.buffer.limit := full
  show (if stored.buffer.ptr = stored.buffer.limit then swap else pure ()) stored = swap stored
  rw [if_pos full]

/-- A byte that fills the buffer to its end makes the lower half due. -/
theorem emit_of_end {b : UInt8} (full : writer.buffer.ptr + 1 = writer.buffer.limit)
    (atEnd : writer.buffer.limit = writer.buffer.size.bytes) :
    emit b writer = (deliver (writer.buffer.store b).lower >>= fun _ =>
      modifyBuffer Buffer.startOver) { writer with buffer := writer.buffer.store b } := by
  let stored : Writer := { writer with buffer := writer.buffer.store b }
  have atEnd : stored.buffer.limit = stored.buffer.size.bytes := atEnd
  rw [emit_of_full full]
  show (if stored.buffer.limit = stored.buffer.size.bytes then _ else _ : WriteM Unit) stored = _
  rw [if_pos atEnd]

/-- A byte that fills the buffer to its middle makes the upper half due. -/
theorem emit_of_middle {b : UInt8} (full : writer.buffer.ptr + 1 = writer.buffer.limit)
    (atMiddle : writer.buffer.limit ≠ writer.buffer.size.bytes) :
    emit b writer = (deliver (writer.buffer.store b).upper >>= fun _ =>
      modifyBuffer Buffer.goOn) { writer with buffer := writer.buffer.store b } := by
  let stored : Writer := { writer with buffer := writer.buffer.store b }
  have atMiddle : ¬stored.buffer.limit = stored.buffer.size.bytes := atMiddle
  rw [emit_of_full full]
  show (if stored.buffer.limit = stored.buffer.size.bytes then _ else _ : WriteM Unit) stored = _
  rw [if_neg atMiddle]

/-- What was represented is carried on with one byte more, once this is stored. -/
theorem Represents.store (h : writer.Represents size origin draft) (b : UInt8) :
    { writer with buffer := writer.buffer.store b }.Carries size origin (draft.append [b]) where
  size_eq := h.size_eq
  holds := h.holds.store h.room b
  cache_eq := h.cache_eq
  onWrite_eq := h.onWrite_eq
  onFlush_eq := h.onFlush_eq
  taken := by
    show _ = _ ++ (draft.octets ++ [b]).take writer.buffer.gone
    rw [List.take_append_of_le_length h.holds.gone_le_length]
    exact h.taken

/-- One byte is added at the end, whether or not it makes a half due. -/
theorem Represents.emit (h : writer.Represents size origin draft) (b : UInt8) :
    writer.Adds size origin draft (emit b) [b] () draft.cache := by
  -- The byte is stored first. Whether it makes a half due is seen only then.
  have carries := h.store b
  by_cases full : writer.buffer.ptr + 1 = writer.buffer.limit
  -- Both swaps hand over the front of what is pending; which half that is depends on the limit.
  · by_cases atEnd : writer.buffer.limit = writer.buffer.size.bytes
    · obtain ⟨front, holds⟩ := carries.holds.startOver full atEnd
      rw [Adds, emit_of_end full atEnd]
      exact carries.handOver front holds writer.buffer.size.half_pos rfl rfl
    · obtain ⟨front, holds⟩ := carries.holds.goOn full atEnd
      rw [Adds, emit_of_middle full atEnd]
      have room : writer.buffer.ptr + 1 < writer.buffer.size.bytes := by
        have := h.holds.limit_le_bytes
        omega
      exact carries.handOver front holds room rfl rfl
  · exact .inl ⟨_, emit_of_room full, { carries with
      room := Nat.lt_of_le_of_ne carries.holds.ptr_le_limit full }⟩

/-- What is remembered does not touch the stream. -/
theorem Represents.withCache {octets : Bytes} {cache : Cache}
    (h : writer.Represents size origin ⟨octets, cache⟩) (last : Cache) :
    { writer with cache := last }.Represents size origin ⟨octets, last⟩ where
  size_eq := h.size_eq
  holds := h.holds
  room := h.room
  cache_eq := rfl
  onWrite_eq := h.onWrite_eq
  onFlush_eq := h.onFlush_eq
  taken := h.taken

/-- A step that changes only what is remembered adds nothing. -/
theorem Represents.remembers (h : writer.Represents size origin draft) {step : WriteM α} {a : α}
    {last : Cache} (run : step writer = .ok a { writer with cache := last }) :
    writer.Adds size origin draft step [] a last := by
  refine .inl ⟨_, run, ?_⟩
  rw [List.append_nil]
  exact h.withCache last

theorem Adds.of_eq {step other : WriteM α} {octets : Bytes} {a : α} {last : Cache}
    (run : step writer = other writer) (h : writer.Adds size origin draft other octets a last) :
    writer.Adds size origin draft step octets a last := by
  rw [Adds, run]
  exact h

/-- Two steps in sequence add what they add one after the other, if the first one leaves what is
remembered alone. -/
theorem Adds.andThen {step : WriteM α} {next : α → WriteM β} {first second : Bytes} {a : α} {b : β}
    {last : Cache} (h : writer.Adds size origin draft step first a draft.cache)
    (hnext : ∀ after : Writer, after.Represents size origin (draft.append first) →
      after.Adds size origin (draft.append first) (next a) second b last) :
    writer.Adds size origin draft (step >>= next) (first ++ second) b last := by
  rcases h with ⟨middle, run, represents⟩ | ⟨e, after, run, interrupted⟩
  · rw [Adds, bind_of_ok run, ← List.append_assoc]
    rcases hnext middle represents with ⟨after, run, represents⟩ | ⟨e, after, run, interrupted⟩
    · exact .inl ⟨after, run, represents⟩
    · refine .inr ⟨e, after, run, ?_⟩
      rw [Draft.append, ← List.append_assoc]
      exact interrupted
  · refine .inr ⟨e, after, bind_of_error run next, ?_⟩
    rw [Draft.append, ← List.append_assoc]
    exact interrupted.append second

/-- A step that only looks and remembers may follow one that adds bytes. -/
theorem Adds.remembering {step : WriteM α} {next : α → WriteM β} {octets : Bytes} {a : α} {b : β}
    {cache last : Cache} (h : writer.Adds size origin draft step octets a cache)
    (hnext : ∀ after : Writer, after.Represents size origin ⟨draft.octets ++ octets, cache⟩ →
      next a after = .ok b { after with cache := last }) :
    writer.Adds size origin draft (step >>= next) octets b last := by
  rcases h with ⟨middle, run, represents⟩ | ⟨e, after, run, interrupted⟩
  · refine .inl ⟨{ middle with cache := last }, ?_, represents.withCache last⟩
    rw [bind_of_ok run, hnext middle represents]
  · exact .inr ⟨e, after, bind_of_error run next, interrupted⟩

/-- On a reliable sink a step that adds bytes answers. -/
theorem Adds.ok_of_reliable {step : WriteM α} {octets : Bytes} {a : α} {cache : Cache}
    (h : writer.Adds size origin draft step octets a cache) (reliable : origin.Reliable) :
    ∃ after, step writer = .ok a after
      ∧ after.Represents size origin ⟨draft.octets ++ octets, cache⟩ := by
  rcases h with answers | ⟨e, after, -, interrupted⟩
  · exact answers
  · exact absurd reliable interrupted.unreliable

/-- Bytes are added in order. -/
theorem Represents.emitAll (h : writer.Represents size origin draft) (octets : Bytes) :
    writer.Adds size origin draft (emitAll octets) octets () draft.cache := by
  induction octets generalizing writer draft with
  | nil => exact h.remembers (by rw [h.cache_eq.symm]; rfl)
  | cons b rest ih =>
    show writer.Adds size origin draft (Writer.emit b >>= fun _ => Writer.emitAll rest)
      ([b] ++ rest) () draft.cache
    exact (h.emit b).andThen fun after represents => ih represents

/-! ## Writing a command -/

/-- What follows the bytes of a command that has an encoding. -/
theorem command_eq {c : Command} (h : c.violation? = none) :
    command c = (emitAll c.bytes >>= fun _ =>
      match c with
      | .bop _ _ => addPage
      | .postPost _ _ => get >>= fun writer : Writer =>
          emitAll (List.replicate (fillerCount writer.pos) filler)
      | _ => pure ()) := by
  unfold command
  rewrite [h]
  cases c <;> rfl

/-- A command without an encoding is refused, and the writer is left as it was. -/
theorem command_refused {c : Command} {v : Violation} (h : c.violation? = some v)
    (writer : Writer) : command c writer = .error (.violation v) writer := by
  unfold command
  rw [h]
  rfl

/-- A command that has an encoding adds its bytes, and its filler if it has any. -/
theorem Represents.command (h : writer.Represents size origin draft) {c : Command}
    (encodes : c.violation? = none) :
    writer.Adds size origin draft (command c) (c.bytesAt draft.length) ()
      (c.remembered draft.cache) := by
  rw [command_eq encodes, Command.bytesAt]
  refine (h.emitAll c.bytes).andThen fun after represents => ?_
  have cache_eq : after.cache = draft.cache := represents.cache_eq
  cases c with
  | bop counters prev =>
    refine represents.remembers ?_
    show addPage after = _
    rw [Command.remembered, ← cache_eq]
    rfl
  | postPost pointer id =>
    have count : after.pos = draft.length + (Command.postPost pointer id).bytes.length := by
      rw [represents.pos_eq, Draft.length, Draft.append, List.length_append]
      rfl
    refine .of_eq ?_ (represents.emitAll _)
    show Writer.emitAll (List.replicate (fillerCount after.pos) filler) after = _
    rw [count, Command.filling]
  | _ =>
    refine represents.remembers ?_
    show EStateM.Result.ok () after = .ok () { after with cache := draft.cache }
    rw [← cache_eq]

/-! ## Ending a session -/

/-- What is pending goes to the sink: all of it, or the sink fails with a front of the stream. -/
theorem Represents.drain (h : writer.Represents size origin draft) :
    (∃ after, drain writer = .ok () after ∧ after.sink.onFlush = origin.onFlush
        ∧ after.sink.record.octets.toList = origin.record.octets.toList ++ draft.octets)
      ∨ ∃ e after, drain writer = .error (.sink e) after ∧ ¬origin.Reliable
          ∧ ∃ front, front <+: draft.octets
            ∧ after.sink.record.octets.toList = origin.record.octets.toList ++ front := by
  have whole : draft.octets.take writer.buffer.gone ++ (writer.buffer.older ++ writer.buffer.newer)
      = draft.octets := by
    show _ ++ writer.buffer.pending = _
    rw [h.holds.pending_eq, List.take_append_drop]
  have extends_taken (front : Bytes) (isFront : front <+: writer.buffer.older ++ writer.buffer.newer) :
      draft.octets.take writer.buffer.gone ++ front <+: draft.octets := by
    have := (List.prefix_append_right_inj (draft.octets.take writer.buffer.gone)).mpr isFront
    rwa [whole] at this
  -- The older bytes go first, and the newer ones follow from a buffer that has counted them.
  have start : Writer.drain writer = (deliver writer.buffer.older >>= fun _ =>
      modifyBuffer (Buffer.handOn writer.buffer.older.length) >>= fun _ =>
      deliver writer.buffer.newer >>= fun _ =>
      modifyBuffer (Buffer.handOn writer.buffer.newer.length)) writer := rfl
  obtain ⟨n, -, first, firstWrite, firstFlush, firstTaken, outcome⟩ :=
    deliver_cases writer writer.buffer.older
  rw [h.onWrite_eq] at firstWrite
  rw [h.onFlush_eq] at firstFlush
  rw [h.taken, List.append_assoc] at firstTaken
  rcases outcome with ⟨run, all⟩ | ⟨e, run, -, unreliable⟩
  · rw [all, List.take_length] at firstTaken
    let middle : Writer :=
      ⟨writer.buffer.handOn writer.buffer.older.length, writer.cache, first⟩
    have next : Writer.drain writer = (deliver writer.buffer.newer >>= fun _ =>
        modifyBuffer (Buffer.handOn writer.buffer.newer.length)) middle := by
      rw [start, bind_of_ok run]
      rfl
    obtain ⟨m, -, last, -, lastFlush, lastTaken, outcome⟩ :=
      deliver_cases middle writer.buffer.newer
    change _ = first.record.octets.toList ++ _ at lastTaken
    rw [firstTaken, List.append_assoc, List.append_assoc] at lastTaken
    rcases outcome with ⟨run, all⟩ | ⟨e, run, -, unreliable⟩
    · rw [all, List.take_length, whole] at lastTaken
      exact .inl ⟨_, next.trans (bind_of_ok run _), lastFlush.trans firstFlush, lastTaken⟩
    · refine .inr ⟨e, _, next.trans (bind_of_error run _), fun reliable => unreliable {
        takes := firstWrite ▸ reliable.takes
        flushes := firstFlush ▸ reliable.flushes }, _, extends_taken _ ?_, lastTaken⟩
      exact (List.prefix_append_right_inj _).mpr (List.take_prefix _ _)
  · refine .inr ⟨e, _, start.trans (bind_of_error run _), fun reliable => unreliable {
      takes := h.onWrite_eq ▸ reliable.takes
      flushes := h.onFlush_eq ▸ reliable.flushes }, _, extends_taken _ ?_, firstTaken⟩
    exact (List.take_prefix _ _).trans (List.prefix_append _ _)

/-- Ending a session succeeds if the sink takes the whole stream and is then flushed; otherwise the
sink has failed with a front of the stream. -/
theorem Represents.finish_cases (h : writer.Represents size origin draft) :
    (∃ given : Sink, ∃ after,
        given.record.octets.toList = origin.record.octets.toList ++ draft.octets
        ∧ given.flush = (none, after.sink) ∧ finish writer = .ok () after)
      ∨ ∃ e after, finish writer = .error (.sink e) after ∧ ¬origin.Reliable
          ∧ ∃ front, front <+: draft.octets
            ∧ after.sink.record.octets.toList = origin.record.octets.toList ++ front := by
  rcases h.drain with ⟨drained, run, onFlush, taken⟩ | ⟨e, after, run, failed⟩
  · have next : finish writer = flushSink drained := bind_of_ok run _
    rw [next, flushSink]
    rcases flushed : drained.sink.flush with ⟨_ | e, last⟩
    · exact .inl ⟨drained.sink, _, taken, flushed, rfl⟩
    · refine .inr ⟨e, _, rfl, ?_, _, List.prefix_rfl, ?_⟩
      · intro reliable
        rw [Sink.flush, onFlush, reliable.flushes] at flushed
        cases flushed
      · have same := drained.sink.octets_flush
        rw [flushed] at same
        rw [same, taken]
  · exact .inr ⟨e, after, bind_of_error run _, failed⟩

/-- Ending a session on a reliable sink succeeds, and the sink has taken the whole stream. -/
theorem Represents.finish (h : writer.Represents size origin draft) (reliable : origin.Reliable) :
    ∃ after, finish writer = .ok () after
      ∧ after.sink.record.octets.toList = origin.record.octets.toList ++ draft.octets := by
  rcases h.finish_cases with ⟨given, after, taken, flushed, run⟩ | ⟨e, after, -, unreliable, -⟩
  · refine ⟨after, run, ?_⟩
    have same := given.octets_flush
    rw [flushed] at same
    rw [same, taken]
  · exact absurd reliable unreliable

end Writer

end Dvi
