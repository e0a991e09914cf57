/-
# Dvi.Proofs.Writer.Schedule — when a writer hands its bytes on.

On a sink that takes everything at once, a writer asks the sink once for every half that it hands on,
and when it does so depends on one number only, the largest length that the stream has had. What holds
between the bytes is that the next half is due one buffer behind the last one that was handed on, that
the stream was never that long, and that it once reached the middle in between (`Writer.Paced`). One
byte keeps this, and so does taking one back, after which the same place may be crossed again without
anything being due. From this the number of halves follows (`Paced.gone_eq`), and ending the session
hands on what is left in at most two more requests (`flush_schedule`).
-/
import Dvi.Proofs.Writer.Refinement

namespace Dvi

namespace Buffer

/-! ## The cell past the end -/

/-- The cell past the end. -/
def guard? (buffer : Buffer) : Option UInt8 :=
  buffer.cells[buffer.size.bytes]?

/-- The buffer with another byte in the cell past the end. -/
def withGuard (b : UInt8) (buffer : Buffer) : Buffer :=
  { buffer with cells := buffer.cells.setIfInBounds buffer.size.bytes b }

variable {buffer : Buffer} {stream : Bytes}

/-- A byte that there is room for is stored before the cell past the end. -/
theorem Holds.guard?_store (h : buffer.Holds stream) (room : buffer.ptr < buffer.limit) (b : UInt8) :
    (buffer.store b).guard? = buffer.guard? := by
  have inside : buffer.ptr ≠ buffer.size.bytes := by
    have := h.limit_le_bytes
    omega
  exact Array.getElem?_setIfInBounds_ne inside

/-- What is in the cell past the end does not matter to an empty buffer. -/
theorem holds_empty_withGuard (size : BufferSize) (b : UInt8) : ((empty size).withGuard b).Holds [] :=
  { Holds.empty size with
    size_cells := Array.size_setIfInBounds.trans (Holds.empty size).size_cells
    pending_eq := by
      rw [pending, older_of_limit_eq_bytes _ rfl, newer_eq]
      rfl }

end Buffer

namespace Writer

/-- The writer with another byte in the cell past the end of its buffer. -/
def withGuard (b : UInt8) (writer : Writer) : Writer :=
  { writer with buffer := writer.buffer.withGuard b }

/-! ## What every byte maintains -/

section

variable {P : Writer → Prop} (emits : ∀ b, Maintains P (emit b))
  (recalls : ∀ f, Maintains P (modifyCache f))
include emits

theorem maintains_emitAll (octets : Bytes) : Maintains P (emitAll octets) := by
  induction octets with
  | nil => exact maintains_pure ()
  | cons b rest ih => exact (emits b).bind fun _ => ih

include recalls

theorem maintains_command (c : Command) : Maintains P (command c) := by
  cases violates : c.violation? with
  | none =>
    rw [command_eq violates]
    refine (maintains_emitAll emits _).bind fun _ => ?_
    cases c with
    | bop => exact recalls _
    | postPost => exact maintains_get.bind fun _ => maintains_emitAll emits _
    | _ => exact maintains_pure ()
  | some v =>
    intro writer h
    rw [leaves, command_refused violates]
    exact h

/-- What every byte and every change of the cache maintains is maintained by every operation that takes
no byte back. -/
theorem maintains_perform {op : Operation} (adds : ∀ location, op ≠ .bracketPop location) :
    Maintains P op.perform := by
  have answering {step : WriteM Unit} (first : Maintains P step) (answer : Option Nat) :
      Maintains P (step >>= fun _ => pure answer) :=
    first.bind fun _ => maintains_pure answer
  cases op with
  | byte b => exact answering (emits b) _
  | word | signedWord | member => exact answering (maintains_emitAll emits _) _
  | fontDefinition | preamble | command => exact answering (maintains_command emits recalls _) _
  | addPage | setFont | setH | setV => exact answering (recalls _) _
  | moveRight | moveDown =>
    refine answering ?_ _
    exact (maintains_emitAll emits _).bind fun _ => recalls _
  | bracketPop location => exact absurd rfl (adds location)
  | push =>
    have opens : Maintains P push := (emits _).bind fun _ => maintains_get.bind fun _ => maintains_pure _
    exact opens.bind fun _ => maintains_pure _
  | beginPage counters prev =>
    have begins : Maintains P (beginPage counters prev) :=
      maintains_get.bind fun _ => (maintains_command emits recalls _).bind fun _ =>
        (recalls _).bind fun _ => maintains_pure _
    exact begins.bind fun _ => maintains_pure _
  | selectFont number =>
    refine answering ?_ _
    refine maintains_get.bind fun writer => ?_
    split
    · split
      · exact (emits _).bind fun _ => recalls _
      · exact (maintains_emitAll emits _).bind fun _ => recalls _
    · exact maintains_pure _
  | setChar code =>
    refine answering ?_ _
    rw [setChar]
    split
    · exact emits _
    · exact maintains_emitAll emits _

end

/-! ## One byte on a sink that takes everything -/

variable {writer : Writer} {size : BufferSize} {origin : Sink} {draft : Draft} {guard : UInt8}
  {peak : Nat}

theorem Carries.takesAll (h : writer.Carries size origin draft) (takesAll : origin.TakesAll) :
    writer.sink.TakesAll where
  takes := by
    rw [h.onWrite_eq]
    exact takesAll.takes
  flushes := by
    rw [h.onFlush_eq]
    exact takesAll.flushes

/-- Handing bytes over is one request, unless there are none. -/
theorem deliver_takesAll (takesAll : writer.sink.TakesAll) (octets : Bytes) :
    deliver octets writer = .ok ()
      { writer with sink := { writer.sink with record := writer.sink.record.give octets } } := by
  obtain ⟨buffer, cache, sink⟩ := writer
  rw [deliver, takesAll.writeAll]

/-- A half goes to the sink in one request, and the buffer is changed by `f`. -/
theorem handOver_takesAll (takesAll : writer.sink.TakesAll) (half : Bytes) (f : Buffer → Buffer) :
    (deliver half >>= fun _ => modifyBuffer f) writer = .ok ()
      ⟨f writer.buffer, writer.cache,
        { writer.sink with record := writer.sink.record.give half }⟩ := by
  rw [bind_of_ok (deliver_takesAll takesAll half)]
  rfl

/-- What one byte does to the halves: while the stream stays shorter than where the next half is due,
nothing is handed on, and as soon as it is that long, one half is. -/
theorem Represents.emit_takesAll (h : writer.Represents size origin draft)
    (takesAll : origin.TakesAll) (b : UInt8) :
    ∃ after, Writer.emit b writer = .ok () after
      ∧ after.Represents size origin (draft.append [b])
      ∧ after.buffer.guard? = writer.buffer.guard?
      ∧ (writer.pos + 1 < writer.buffer.gone + size.bytes
          ∧ after.buffer.gone = writer.buffer.gone ∧ after.sink = writer.sink
        ∨ writer.pos + 1 = writer.buffer.gone + size.bytes
          ∧ after.buffer.gone = writer.buffer.gone + size.half
          ∧ ∃ half : Bytes, half.length = size.half
            ∧ after.sink = { writer.sink with record := writer.sink.record.give half }) := by
  obtain ⟨after, run, represents⟩ := (h.emit b).ok_of_reliable takesAll.reliable
  have due := h.holds.offset_add_limit
  have room := h.room
  have guard_eq := h.holds.guard?_store h.room b
  have stored := h.store b
  have enough : writer.buffer.size.bytes ≤ (writer.buffer.store b).cells.size := by
    have cells : (writer.buffer.store b).cells.size = writer.buffer.size.bytes + 1 :=
      stored.holds.size_cells
    omega
  rw [h.size_eq] at due
  have pos_eq : writer.pos = writer.buffer.offset + writer.buffer.ptr := rfl
  refine ⟨after, run, represents, ?_⟩
  by_cases full : writer.buffer.ptr + 1 = writer.buffer.limit
  · by_cases atEnd : writer.buffer.limit = writer.buffer.size.bytes
    · rw [emit_of_end full atEnd, handOver_takesAll (stored.takesAll takesAll)] at run
      cases run
      refine ⟨guard_eq, .inr ⟨by omega, ?_, _, ?_, rfl⟩⟩
      · rw [← h.size_eq]
        rfl
      · rw [← h.size_eq]
        exact Buffer.length_lower enough
    · rw [emit_of_middle full atEnd, handOver_takesAll (stored.takesAll takesAll)] at run
      cases run
      refine ⟨guard_eq, .inr ⟨by omega, ?_, _, ?_, rfl⟩⟩
      · rw [← h.size_eq]
        rfl
      · rw [← h.size_eq]
        exact Buffer.length_upper enough
  · rw [emit_of_room full] at run
    cases run
    exact ⟨guard_eq, .inl ⟨by omega, rfl, rfl⟩⟩

/-! ## The pace of a session -/

/-- A writer whose stream was never longer than `peak`, in a session that began on the sink `origin`
with the byte `guard` in the cell past the end. -/
structure Paced (writer : Writer) (size : BufferSize) (origin : Sink) (guard : UInt8) (peak : Nat) :
    Prop where
  represents : ∃ draft, writer.Represents size origin draft
  pos_le : writer.pos ≤ peak
  /-- The next half has not been due yet. -/
  peak_lt : peak < writer.buffer.gone + size.bytes
  /-- The last half was handed on when the stream was one half longer. -/
  reached : writer.buffer.gone = 0 ∨ writer.buffer.gone + size.half ≤ peak
  halves : ∃ n, writer.buffer.gone = size.half * n
    ∧ writer.sink.record.chunks.toList
      = origin.record.chunks.toList ++ List.replicate n size.half
  flushes_eq : writer.sink.record.flushes = origin.record.flushes
  guard_eq : writer.buffer.guard? = some guard

/-- In a new session the cell past the end holds zero, as all cells do. -/
theorem withGuard_zero (size : BufferSize) (sink : Sink) :
    (new sink size).withGuard 0 = new sink size := by
  have cells : (Buffer.empty size).withGuard 0 = Buffer.empty size := by
    simp [Buffer.withGuard, Buffer.empty]
  rw [withGuard, new]
  simp only [cells]

theorem represents_withGuard (size : BufferSize) (sink : Sink) (guard : UInt8) :
    ((new sink size).withGuard guard).Represents size sink {} :=
  { represents_new sink size with holds := Buffer.holds_empty_withGuard size guard }

/-- A session begins with nothing handed on. -/
theorem paced_start (size : BufferSize) (sink : Sink) (guard : UInt8) :
    ((new sink size).withGuard guard).Paced size sink guard 0 where
  represents := ⟨{}, represents_withGuard size sink guard⟩
  pos_le := Nat.le_refl 0
  peak_lt := by
    have := size.half_lt_bytes
    show 0 < 0 + size.bytes
    omega
  reached := .inl rfl
  halves := ⟨0, rfl, (List.append_nil _).symm⟩
  flushes_eq := rfl
  guard_eq := by
    apply Array.getElem?_setIfInBounds_self_of_lt
    show size.bytes < (Array.replicate (size.bytes + 1) 0).size
    rw [Array.size_replicate]
    exact Nat.lt_succ_self _

/-- A byte moves the peak if the stream has never been that long. -/
theorem Paced.emit (h : writer.Paced size origin guard peak) (takesAll : origin.TakesAll) (b : UInt8) :
    ∃ after, Writer.emit b writer = .ok () after ∧ after.pos = writer.pos + 1
      ∧ after.Paced size origin guard (max peak (writer.pos + 1)) := by
  obtain ⟨draft, represents⟩ := h.represents
  obtain ⟨after, run, later, guard_eq, handed⟩ := represents.emit_takesAll takesAll b
  have pos_eq : after.pos = writer.pos + 1 := by
    rw [later.pos_eq, represents.pos_eq]
    simp [Draft.length, Draft.append]
  have below := h.peak_lt
  have bytes : size.bytes = 2 * size.half := rfl
  have positive := size.four_le_half
  obtain ⟨n, gone, chunks⟩ := h.halves
  refine ⟨after, run, pos_eq, ?_⟩
  rcases handed with ⟨early, gone_eq, sink_eq⟩ | ⟨due, gone_eq, half, length, sink_eq⟩
  · exact {
      represents := ⟨_, later⟩
      pos_le := by omega
      peak_lt := by omega
      reached := by
        have := h.reached
        omega
      halves := by
        refine ⟨n, gone_eq.trans gone, ?_⟩
        rw [sink_eq]
        exact chunks
      flushes_eq := by
        rw [sink_eq]
        exact h.flushes_eq
      guard_eq := guard_eq.trans h.guard_eq }
  · exact {
      represents := ⟨_, later⟩
      pos_le := by omega
      peak_lt := by omega
      reached := by omega
      halves := by
        refine ⟨n + 1, ?_, ?_⟩
        · rw [gone_eq, gone, Nat.mul_succ]
        · have request : [size.half].filter (0 < ·) = [size.half] := by
            simp [size.half_pos]
          rw [sink_eq, Sink.Record.chunks_give, length, request, chunks, List.append_assoc,
            List.replicate_succ']
      flushes_eq := by
        rw [sink_eq, Sink.Record.flushes_give]
        exact h.flushes_eq
      guard_eq := guard_eq.trans h.guard_eq }

/-- Taking a byte back leaves the peak where it was, and what was handed on as well. -/
theorem Paced.unstore (h : writer.Paced size origin guard peak) (started : 0 < writer.buffer.ptr) :
    { writer with buffer := writer.buffer.unstore }.Paced size origin guard peak := by
  obtain ⟨draft, represents⟩ := h.represents
  exact { h with
    represents := ⟨_, represents.unstore started⟩
    pos_le := by
      apply Nat.le_trans _ h.pos_le
      show writer.buffer.offset + (writer.buffer.ptr - 1) ≤ writer.buffer.offset + writer.buffer.ptr
      omega }

/-- What is remembered has nothing to do with it. -/
theorem Paced.withCache (h : writer.Paced size origin guard peak) (cache : Cache) :
    { writer with cache }.Paced size origin guard peak := by
  obtain ⟨draft, represents⟩ := h.represents
  exact { h with represents := ⟨_, represents.withCache cache⟩ }

/-! ## Sessions -/

theorem attempt_snd (op : Operation) (writer : Writer) :
    (writer.attempt op).2 = leaves op.perform writer := by
  rw [Writer.attempt, leaves]
  cases op.perform writer <;> rfl

/-- The peak is also the larger of itself and the position. -/
theorem Paced.max_pos (h : writer.Paced size origin guard peak) :
    writer.Paced size origin guard (max peak writer.pos) := by
  rw [Nat.max_eq_left h.pos_le]
  exact h

/-- With the position counted in, one byte after the other maintains the pace. -/
theorem maintains_paced_emit (takesAll : origin.TakesAll) (b : UInt8) :
    Maintains (fun writer => writer.Paced size origin guard (max peak writer.pos)) (emit b) := by
  intro writer h
  obtain ⟨after, run, pos_eq, paced⟩ := h.emit takesAll b
  have same : max (max peak writer.pos) (writer.pos + 1) = max peak after.pos := by omega
  rw [leaves, run]
  rw [same] at paced
  exact paced

/-- Closing a group adds a byte, takes one back or is refused. -/
theorem Paced.bracketPop (h : writer.Paced size origin guard peak) (takesAll : origin.TakesAll)
    (location : Nat) :
    (leaves (Writer.bracketPop location) writer).Paced size origin guard
      (max peak (leaves (Writer.bracketPop location) writer).pos) := by
  cases erasable : (if location = writer.buffer.pos then writer.buffer.last? else none) with
  | none =>
    rw [leaves, bracketPop_of_none erasable]
    exact maintains_paced_emit takesAll _ writer h.max_pos
  | some found =>
    rw [leaves, bracketPop_of_some erasable]
    by_cases isPush : found = Opcode.push.toByte
    · have started : 0 < writer.buffer.ptr := by
        refine Nat.pos_of_ne_zero fun empty => ?_
        rw [Buffer.last?, empty] at erasable
        split at erasable <;> cases erasable
      rw [if_pos isPush]
      exact (h.unstore started).max_pos
    · rw [if_neg isPush]
      exact h.max_pos

/-- One operation. -/
theorem Paced.attempt (h : writer.Paced size origin guard peak) (takesAll : origin.TakesAll)
    (op : Operation) :
    (writer.attempt op).2.Paced size origin guard (max peak (writer.attempt op).2.pos) := by
  rw [attempt_snd]
  rcases op.closes_or_adds with ⟨location, rfl⟩ | adds
  · rw [Operation.perform, leaves_bind_pure]
    exact h.bracketPop takesAll location
  · -- Every other operation consists of bytes and of changes to the cache.
    have recalls (f : Cache → Cache) :
        Maintains (fun writer => writer.Paced size origin guard (max peak writer.pos))
          (modifyCache f) := by
      intro before paced
      exact paced.withCache _
    exact maintains_perform (maintains_paced_emit takesAll) recalls adds writer h.max_pos

/-- The largest position that comes with some answers. An operation adds bytes or takes one back, so
the stream is never longer in the middle of one than before or after it. -/
def peakOf (answers : List (Except WriteError (Option Nat) × Nat)) : Nat :=
  (answers.map Prod.snd).foldl max 0

/-- A whole session. -/
theorem Paced.attemptAll (h : writer.Paced size origin guard peak) (takesAll : origin.TakesAll)
    (ops : List Operation) :
    (attemptAll ops writer).2.Paced size origin guard
      (((attemptAll ops writer).1.map Prod.snd).foldl max peak) := by
  induction ops generalizing writer peak with
  | nil => exact h
  | cons op ops ih => exact ih (h.attempt takesAll op)

/-- How much was handed on follows from the peak. -/
theorem Paced.gone_eq (h : writer.Paced size origin guard peak) :
    writer.buffer.gone = size.half * (max 1 (peak / size.half) - 1) := by
  obtain ⟨n, gone, -⟩ := h.halves
  have positive := size.half_pos
  have below := h.peak_lt
  rw [BufferSize.bytes, gone] at below
  cases n with
  | zero =>
    -- No half was due, so the stream has stayed shorter than two.
    have short : peak / size.half < 2 := by
      rw [Nat.div_lt_iff_lt_mul positive]
      omega
    have none_due : max 1 (peak / size.half) - 1 = 0 := by omega
    rw [gone, none_due]
  | succ n =>
    have reached : size.half * (n + 1) + size.half ≤ peak := by
      have some_gone : writer.buffer.gone ≠ 0 := by
        rw [gone]
        exact Nat.mul_ne_zero (Nat.ne_of_gt positive) (Nat.succ_ne_zero n)
      rw [← gone]
      exact h.reached.resolve_left some_gone
    have quotient : peak / size.half = n + 2 := by
      apply Nat.div_eq_of_lt_le
      · rw [Nat.mul_comm, Nat.mul_succ]
        exact reached
      · rw [Nat.mul_comm, Nat.mul_succ, Nat.mul_succ]
        omega
    have whole : max 1 (n + 2) - 1 = n + 1 := by omega
    rw [gone, quotient, whole]

/-! ## The end of a session -/

/-- The older bytes are one request and the newer ones another. -/
theorem drain_takesAll (takesAll : writer.sink.TakesAll) :
    drain writer = .ok ()
      ⟨(writer.buffer.handOn writer.buffer.older.length).handOn writer.buffer.newer.length,
        writer.cache,
        { writer.sink with
          record := (writer.sink.record.give writer.buffer.older).give writer.buffer.newer }⟩ := by
  let middle : Writer :=
    ⟨writer.buffer.handOn writer.buffer.older.length, writer.cache,
      { writer.sink with record := writer.sink.record.give writer.buffer.older }⟩
  have middle_takesAll : middle.sink.TakesAll := ⟨takesAll.takes, takesAll.flushes⟩
  show (deliver writer.buffer.older >>= fun _ =>
    modifyBuffer (Buffer.handOn writer.buffer.older.length) >>= fun _ =>
    deliver writer.buffer.newer >>= fun _ =>
    modifyBuffer (Buffer.handOn writer.buffer.newer.length)) writer = _
  rw [bind_of_ok (deliver_takesAll takesAll _)]
  exact handOver_takesAll middle_takesAll writer.buffer.newer _

theorem flushSink_takesAll (takesAll : writer.sink.TakesAll) :
    flushSink writer = .ok ()
      { writer with sink.record.flushes := writer.sink.record.flushes + 1 } := by
  obtain ⟨buffer, cache, sink⟩ := writer
  rw [flushSink, Sink.flush, takesAll.flushes]

/-- A session ends with at most two requests and one flush, and all bytes are handed on. -/
theorem Represents.finish_takesAll (h : writer.Represents size origin draft)
    (takesAll : origin.TakesAll) :
    ∃ finished, Writer.finish writer = .ok () finished
      ∧ finished.buffer = { writer.buffer with gone := writer.pos }
      ∧ (∃ last : List Nat, last.length ≤ 2 ∧ last.foldl (· + ·) writer.buffer.gone = writer.pos
        ∧ finished.sink.record.chunks.toList = writer.sink.record.chunks.toList ++ last)
      ∧ finished.sink.record.flushes = writer.sink.record.flushes + 1 := by
  have sink_takesAll := h.takesAll takesAll
  let drained : Writer :=
    ⟨(writer.buffer.handOn writer.buffer.older.length).handOn writer.buffer.newer.length,
      writer.cache,
      { writer.sink with
        record := (writer.sink.record.give writer.buffer.older).give writer.buffer.newer }⟩
  have run : Writer.finish writer = flushSink drained :=
    bind_of_ok (drain_takesAll sink_takesAll) _
  have drained_takesAll : drained.sink.TakesAll := ⟨sink_takesAll.takes, sink_takesAll.flushes⟩
  rw [flushSink_takesAll drained_takesAll] at run
  have left_over := h.holds.gone_add_pending
  refine ⟨_, run, ?_, ⟨[writer.buffer.older.length].filter (0 < ·)
    ++ [writer.buffer.newer.length].filter (0 < ·), ?_, ?_, ?_⟩, ?_⟩
  · show { writer.buffer with
      gone := writer.buffer.gone + writer.buffer.older.length + writer.buffer.newer.length } = _
    rw [left_over]
    rfl
  · rw [← List.filter_append]
    exact List.length_filter_le _ _
  · have counted (start n : Nat) : ([n].filter (0 < ·)).foldl (· + ·) start = start + n := by
      cases n <;> simp
    rw [List.foldl_append, counted, counted]
    exact left_over
  · show ((writer.sink.record.give _).give _).chunks.toList = _
    rw [Sink.Record.chunks_give, Sink.Record.chunks_give, List.append_assoc]
  · show ((writer.sink.record.give _).give _).flushes + 1 = _
    rw [Sink.Record.flushes_give, Sink.Record.flushes_give]

/-- Where a session stands before it ends, if its stream was `peak` bytes long when it was longest. -/
structure OnSchedule (writer : Writer) (size : BufferSize) (origin : Sink) (peak : Nat) : Prop where
  gone_eq : writer.buffer.gone = size.half * (max 1 (peak / size.half) - 1)
  /-- Every half was handed on in a request of its own. -/
  chunks_eq : writer.sink.record.chunks.toList = origin.record.chunks.toList
    ++ List.replicate (writer.buffer.gone / size.half) size.half
  flushes_eq : writer.sink.record.flushes = origin.record.flushes
  gone_le_pos : writer.buffer.gone ≤ writer.pos
  pos_lt : writer.pos < writer.buffer.gone + size.bytes
  ptr_lt_limit : writer.buffer.ptr < writer.buffer.limit
  limit_eq : writer.buffer.limit = size.half ∨ writer.buffer.limit = size.bytes
  aligned : size.bytes ∣ writer.buffer.offset

theorem Paced.onSchedule (h : writer.Paced size origin guard peak) :
    writer.OnSchedule size origin peak := by
  obtain ⟨draft, represents⟩ := h.represents
  obtain ⟨n, gone, chunks⟩ := h.halves
  have positive := size.half_pos
  have count : writer.buffer.gone / size.half = n := by
    rw [gone, Nat.mul_div_cancel_left n positive]
  exact {
    gone_eq := h.gone_eq
    chunks_eq := by
      rw [count]
      exact chunks
    flushes_eq := h.flushes_eq
    gone_le_pos := by
      rw [represents.pos_eq]
      exact represents.holds.gone_le_length
    pos_lt := Nat.lt_of_le_of_lt h.pos_le h.peak_lt
    ptr_lt_limit := represents.room
    limit_eq := by
      rw [← represents.size_eq]
      exact represents.holds.phase.imp And.left And.left
    aligned := by
      rw [← represents.size_eq]
      exact represents.holds.aligned }

/-- When bytes are handed on to a sink that takes everything. During a session the sink has received one
request of half a buffer for every half that was due, and no flush; how many these are follows from the
largest length that the stream has had, also where bytes were taken back and the same place was crossed
again. Whatever stands in the cell past the end of the buffer is neither looked at nor written. Ending
the session takes at most two more requests and one flush, and brings the rest of the stream. -/
theorem flush_schedule (size : BufferSize) (sink : Sink) (takesAll : sink.TakesAll)
    (ops : List Operation) :
    let answers := (attemptAll ops (new sink size)).1
    let writer := (attemptAll ops (new sink size)).2
    writer.OnSchedule size sink (peakOf answers)
      ∧ (∀ guard, (attemptAll ops ((new sink size).withGuard guard)).1 = answers
        ∧ (attemptAll ops ((new sink size).withGuard guard)).2.buffer.guard? = some guard)
      ∧ ∃ finished, finish writer = .ok () finished
        ∧ finished.buffer = { writer.buffer with gone := writer.pos }
        ∧ (∃ last : List Nat, last.length ≤ 2 ∧ last.foldl (· + ·) writer.buffer.gone = writer.pos
          ∧ finished.sink.record.chunks.toList = writer.sink.record.chunks.toList ++ last)
        ∧ finished.sink.record.octets.size = sink.record.octets.size + writer.pos
        ∧ finished.sink.record.flushes = sink.record.flushes + 1 := by
  intro answers writer
  have start := paced_start size sink 0
  rw [withGuard_zero] at start
  have paced := start.attemptAll takesAll ops
  obtain ⟨expected, represents⟩ := (represents_new sink size).attemptAll takesAll.reliable ops
  obtain ⟨finished, run, buffer_eq, requests, flushes⟩ := represents.finish_takesAll takesAll
  obtain ⟨other, same, taken⟩ := represents.finish takesAll.reliable
  rw [run] at same
  cases same
  refine ⟨paced.onSchedule, ?_, finished, run, buffer_eq, requests, ?_, ?_⟩
  · intro guard
    obtain ⟨alike, -⟩ := (represents_withGuard size sink guard).attemptAll takesAll.reliable ops
    exact ⟨alike.trans expected.symm, ((paced_start size sink guard).attemptAll takesAll ops).guard_eq⟩
  · have length := congrArg List.length taken
    rw [List.length_append, Array.length_toList, Array.length_toList] at length
    rw [length, represents.pos_eq]
    rfl
  · rw [flushes, paced.flushes_eq]

/-- With a buffer of eight bytes: the `push` that makes the second half due is taken back, and the byte
in its place makes nothing due. Ending the session hands on the lower half, and then there is no more. -/
theorem flush_schedule_across_a_group :
    let session := attemptAll [.word 1, .word 2, .byte 3, .byte 4, .byte 5, .push, .bracketPop 12,
      .byte 6] (new .unbounded ⟨4, Nat.le_refl 4⟩)
    Sink.unbounded.TakesAll
      ∧ session.1.map Prod.snd = [4, 8, 9, 10, 11, 12, 11, 12]
      ∧ session.2.buffer.gone = 8
      ∧ session.2.sink.record.chunks.toList = [4, 4]
      ∧ ∃ finished, finish session.2 = .ok () finished
        ∧ finished.sink.record.octets.size = 12
        ∧ finished.sink.record.flushes = 1 := by
  intro session
  -- On the plain list the positions and the length can be computed at once.
  obtain ⟨answers, represents⟩ := (represents_new .unbounded ⟨4, Nat.le_refl 4⟩).attemptAll
    Sink.reliable_unbounded [.word 1, .word 2, .byte 3, .byte 4, .byte 5, .push, .bracketPop 12,
      .byte 6]
  have positions : session.1.map Prod.snd = [4, 8, 9, 10, 11, 12, 11, 12] :=
    congrArg (List.map Prod.snd) answers
  have pos_eq : session.2.pos = 12 := represents.pos_eq
  obtain ⟨schedule, -, finished, run, -, -, octets, flushes⟩ := flush_schedule ⟨4, Nat.le_refl 4⟩
    .unbounded Sink.takesAll_unbounded [.word 1, .word 2, .byte 3, .byte 4, .byte 5, .push,
      .bracketPop 12, .byte 6]
  have gone : session.2.buffer.gone = 4 * (max 1 (peakOf session.1 / 4) - 1) := schedule.gone_eq
  rw [peakOf, positions] at gone
  have chunks := schedule.chunks_eq
  rw [gone] at chunks
  refine ⟨Sink.takesAll_unbounded, positions, gone, chunks, finished, run, ?_, flushes⟩
  rw [octets, pos_eq]
  rfl

end Writer

end Dvi
