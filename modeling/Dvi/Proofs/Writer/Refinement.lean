/-
# Dvi.Proofs.Writer.Refinement — a buffered writer does what is done to a plain list of bytes.

Every operation of a writer that represents a draft ends in one of three ways (`perform_cases`): it
answers what the same operation answers on the draft, and represents the draft that this leaves; it
is refused, and nothing at all has changed; or the sink has failed. On a reliable sink only the first
two are left, so whole sessions on a writer and on a plain list agree answer by answer, and the sink
ends up with the bytes of the list (`attemptAll_refines`).
-/
import Dvi.Proofs.Writer.Emission

namespace Dvi

namespace Writer

variable {α β : Type} {writer : Writer} {size : BufferSize} {origin : Sink} {draft : Draft}

/-! ## Operations that add bytes -/

/-- The answer of a step that adds bytes may be turned into another one. -/
theorem Adds.answering {step : WriteM α} {octets : Bytes} {a : α} {cache : Cache}
    (h : writer.Adds size origin draft step octets a cache) (f : α → β) :
    writer.Adds size origin draft (step >>= fun a => pure (f a)) octets (f a) cache :=
  h.remembering fun after represents => by
    have cache_eq : after.cache = cache := represents.cache_eq
    show EStateM.Result.ok (f a) after = .ok (f a) { after with cache }
    rw [← cache_eq]

/-- A change of what is remembered may follow a step that adds bytes. -/
theorem Adds.updating {step : WriteM α} {octets : Bytes} {a : α} {cache : Cache}
    (h : writer.Adds size origin draft step octets a cache) (f : Cache → Cache) :
    writer.Adds size origin draft (step >>= fun _ => modifyCache f) octets () (f cache) :=
  h.remembering fun after represents => by
    have cache_eq : after.cache = cache := represents.cache_eq
    show EStateM.Result.ok () { after with cache := f after.cache } = _
    rw [cache_eq]

/-- A change of what is remembered adds nothing by itself. -/
theorem Represents.modifyCache (h : writer.Represents size origin draft) (f : Cache → Cache) :
    writer.Adds size origin draft (modifyCache f) [] () (f draft.cache) :=
  h.remembers (by rw [← h.cache_eq]; rfl)

theorem Represents.push (h : writer.Represents size origin draft) :
    writer.Adds size origin draft push [Opcode.push.toByte] (draft.length + 1) draft.cache :=
  (h.emit _).remembering fun after represents => by
    have cache_eq : after.cache = draft.cache := represents.cache_eq
    show EStateM.Result.ok after.pos after = _
    rw [represents.pos_eq, ← cache_eq, Draft.length, List.length_append]
    rfl

theorem Represents.beginPage (h : writer.Represents size origin draft)
    (counters : Vector Int32 10) (prev : Int32) :
    writer.Adds size origin draft (beginPage counters prev)
      ((Command.bop counters prev).bytesAt draft.length) draft.length
      { pages := draft.cache.pages + 1, font := none, h := 0, v := 0 } := by
  refine .of_eq ?_ (((h.command rfl).updating
    fun cache => { cache with h := 0, v := 0, font := none }).answering fun _ => draft.length)
  rw [← h.pos_eq, bind_assoc]
  rfl

/-- A font that is current is not selected again; any other is selected in its shortest form. -/
theorem Represents.selectFont (h : writer.Represents size origin draft) (number : UInt32) :
    writer.Adds size origin draft (selectFont number)
      ((Operation.selectFont number).written draft.cache draft.length) ()
      { draft.cache with font := some number } := by
  by_cases current : draft.cache.font = some number
  · have keeps : { draft.cache with font := some number } = draft.cache := by rw [← current]
    have silent : (Operation.selectFont number).written draft.cache draft.length = [] := by
      simp only [Operation.written, Operation.command?, if_pos current]
    rw [keeps, silent]
    refine h.remembers ?_
    show (if writer.cache.font ≠ some number then _ else pure () : WriteM Unit) writer = _
    rw [h.cache_eq, if_neg (not_not_intro current), ← h.cache_eq]
    rfl
  · by_cases small : number < 64
    · have short : (Operation.selectFont number).command? draft.cache =
          some (.fontNum number.toUInt8) := by
        rw [Operation.command?, if_neg current, if_pos small]
      rw [Operation.written_of_command? short]
      refine .of_eq ?_ ((h.emit (Opcode.fontNum number.toUInt8).toByte).updating
        fun cache => { cache with font := some number })
      show (if writer.cache.font ≠ some number then
        (if number < 64 then _ else _ : WriteM Unit) else pure ()) writer = _
      rw [h.cache_eq, if_pos current, if_pos small]
      rfl
    · have long : (Operation.selectFont number).command? draft.cache =
          some (.selectFont (.ofUnsigned number) number.toInt32) := by
        rw [Operation.command?, if_neg current, if_neg small]
      rw [Operation.written_of_command? long, Command.bytesAt_of_not_ends rfl]
      refine .of_eq ?_ ((h.emitAll _).updating fun cache => { cache with font := some number })
      show (if writer.cache.font ≠ some number then
        (if number < 64 then _ else _ : WriteM Unit) else pure ()) writer = _
      rw [h.cache_eq, if_pos current, if_neg small]
      rfl

/-- A character below 128 is its own opcode; any other is an operand. -/
theorem Represents.setChar (h : writer.Represents size origin draft) (code : UInt32) :
    writer.Adds size origin draft (setChar code)
      ((Operation.setChar code).written draft.cache draft.length) () draft.cache := by
  by_cases small : code < 128
  · have short : (Operation.setChar code).command? draft.cache =
        some (.setChar code.toUInt8) := if_pos small
    rw [Operation.written_of_command? short]
    refine .of_eq ?_ (h.emit code.toUInt8)
    rw [Writer.setChar, if_pos small]
  · have long : (Operation.setChar code).command? draft.cache =
        some (.set (.ofUnsigned code) code.toInt32) := if_neg small
    rw [Operation.written_of_command? long, Command.bytesAt_of_not_ends rfl]
    refine .of_eq ?_ (h.emitAll _)
    rw [Writer.setChar, if_neg small]
    rfl

/-- A movement adds its command before the position is updated. -/
theorem Represents.move (h : writer.Represents size origin draft) (axis : Axis) (d : Int32)
    (f : Cache → Cache) :
    writer.Adds size origin draft
      (signedMember (Opcode.moveBase axis) d >>= fun _ => Writer.modifyCache f)
      ((Command.move axis (.ofSigned d) d).bytesAt draft.length) () (f draft.cache) := by
  rw [Command.bytesAt_of_not_ends rfl]
  exact (h.emitAll _).updating f

/-! ## Every operation -/

/-- An operation that is not refused, other than closing a group, adds what it says. -/
theorem Represents.perform (h : writer.Represents size origin draft) {op : Operation}
    (adds : ∀ location, op ≠ .bracketPop location)
    (encodes : ∀ c ∈ op.command? draft.cache, c.violation? = none) :
    writer.Adds size origin draft op.perform (op.written draft.cache draft.length)
      (op.answer draft.length) (op.remembered draft.cache) := by
  cases op with
  | byte b => exact (h.emit b).answering _
  | word x => exact (h.emitAll _).answering _
  | signedWord x => exact (h.emitAll _).answering _
  | member base x => exact (h.emitAll _).answering _
  | bracketPop location => exact absurd rfl (adds location)
  | push => exact h.push.answering _
  | beginPage counters prev => exact (h.beginPage counters prev).answering _
  | moveRight d => exact (h.move .horizontal d _).answering _
  | moveDown d => exact (h.move .vertical d _).answering _
  | selectFont number => exact (h.selectFont number).answering _
  | setChar code => exact (h.setChar code).answering _
  | fontDefinition | preamble | command => exact (h.command (encodes _ rfl)).answering _
  | addPage | setFont | setH | setV => exact (h.modifyCache _).answering _

/-! ## Closing a group -/

/-- The byte that a writer would take back is the one that the draft would take back. -/
theorem Represents.erasable?_eq (h : writer.Represents size origin draft) (location : Nat) :
    (if location = writer.buffer.pos then writer.buffer.last? else none)
      = draft.erasable? size location := by
  have here : writer.buffer.pos = draft.length := h.pos_eq
  rw [here, Draft.erasable?]
  by_cases found : location = draft.length
  · rw [if_pos found, h.holds.last?_eq h.room, h.size_eq]
    by_cases aligned : draft.length % size.bytes = 0
    · have kept : ¬(location = draft.length ∧ draft.length % size.bytes ≠ 0) :=
        fun both => both.2 aligned
      rw [if_neg kept]
      exact if_pos aligned
    · rw [if_pos (And.intro found aligned)]
      exact if_neg aligned
  · have kept : ¬(location = draft.length ∧ draft.length % size.bytes ≠ 0) :=
      fun both => found both.1
    rw [if_neg found, if_neg kept]

/-- Taking back the last byte never reaches into what the sink has. -/
theorem Represents.unstore (h : writer.Represents size origin draft)
    (started : 0 < writer.buffer.ptr) :
    { writer with buffer := writer.buffer.unstore }.Represents size origin
      { draft with octets := draft.octets.dropLast } := by
  have holds := h.holds.unstore started
  exact {
    size_eq := h.size_eq
    holds
    room := Nat.lt_of_le_of_lt (Nat.sub_le _ _) h.room
    cache_eq := h.cache_eq
    onWrite_eq := h.onWrite_eq
    onFlush_eq := h.onFlush_eq
    taken := by
      have below : writer.buffer.gone ≤ draft.octets.length - 1 := by
        rw [← List.length_dropLast]
        exact holds.gone_le_length
      show _ = _ ++ draft.octets.dropLast.take writer.buffer.gone
      rw [List.dropLast_eq_take, List.take_take, Nat.min_eq_left below]
      exact h.taken }

/-- Where no byte may be taken back, closing a group adds a `pop`. -/
theorem bracketPop_of_none {location : Nat}
    (h : (if location = writer.buffer.pos then writer.buffer.last? else none) = none) :
    bracketPop location writer = Writer.emit Opcode.pop.toByte writer := by
  have here : (get : WriteM Writer) writer = .ok writer writer := rfl
  unfold bracketPop
  rw [bind_of_ok here, h]

/-- Where a byte may be taken back, it is if it is a `push`, and it is reported otherwise. -/
theorem bracketPop_of_some {location : Nat} {found : UInt8}
    (h : (if location = writer.buffer.pos then writer.buffer.last? else none) = some found) :
    bracketPop location writer =
      (if found = Opcode.push.toByte then modifyBuffer Buffer.unstore
        else throw (.violation (.unmatchedPop found)) : WriteM Unit) writer := by
  have here : (get : WriteM Writer) writer = .ok writer writer := rfl
  unfold bracketPop
  rw [bind_of_ok here, h]

/-- Closing a group ends on the writer as it ends on the draft, unless the sink fails. -/
theorem Represents.bracketPop (h : writer.Represents size origin draft) (location : Nat) :
    (∃ after last, bracketPop location writer = .ok () after
        ∧ draft.bracketPop size location = (.ok none, last) ∧ after.Represents size origin last)
      ∨ (∃ v, bracketPop location writer = .error (.violation v) writer
          ∧ draft.bracketPop size location = (.error (.violation v), draft))
      ∨ ∃ e after, bracketPop location writer = .error (.sink e) after
          ∧ after.Interrupted size origin (draft.append [Opcode.pop.toByte]) := by
  have looks := h.erasable?_eq location
  rw [Draft.bracketPop]
  cases erasable : draft.erasable? size location with
  | none =>
    rw [bracketPop_of_none (looks.trans erasable)]
    rcases h.emit Opcode.pop.toByte with ⟨after, run, represents⟩ | ⟨e, after, run, interrupted⟩
    · exact .inl ⟨after, _, run, rfl, represents⟩
    · exact .inr (.inr ⟨e, after, run, interrupted⟩)
  | some found =>
    rw [bracketPop_of_some (looks.trans erasable)]
    by_cases isPush : found = Opcode.push.toByte
    · have started : 0 < writer.buffer.ptr := by
        rw [h.holds.ptr_eq_mod h.room, h.size_eq]
        refine Nat.pos_of_ne_zero fun aligned => ?_
        rw [Draft.erasable?, if_neg fun both => both.2 aligned] at erasable
        cases erasable
      refine .inl ⟨{ writer with buffer := writer.buffer.unstore }, _, ?_, if_pos isPush,
        h.unstore started⟩
      rw [if_pos isPush]
      rfl
    · refine .inr (.inl ⟨.unmatchedPop found, ?_, if_neg isPush⟩)
      rw [if_neg isPush]
      rfl

/-- On a reliable sink, closing a group succeeds on a writer if it does on the draft. -/
theorem Represents.closes {last : Draft} {location : Nat} (h : writer.Represents size origin draft)
    (reliable : origin.Reliable) (closes : draft.bracketPop size location = (.ok none, last)) :
    ∃ after, Writer.bracketPop location writer = .ok () after
      ∧ after.Represents size origin last := by
  rcases h.bracketPop location with ⟨after, other, run, same, represents⟩ | ⟨v, -, refused⟩
    | ⟨e, after, -, interrupted⟩
  · rw [closes] at same
    cases same
    exact ⟨after, run, represents⟩
  · rw [closes] at refused
    cases refused
  · exact absurd reliable interrupted.unreliable

/-! ## Sessions -/

/-- An operation ends on a writer as it ends on the draft: with the same answer, or refused with
nothing changed, unless the sink fails. -/
theorem Represents.perform_cases (h : writer.Represents size origin draft) (op : Operation) :
    (∃ answer after last, op.perform writer = .ok answer after
        ∧ draft.attempt size op = (.ok answer, last) ∧ after.Represents size origin last)
      ∨ (∃ v, op.perform writer = .error (.violation v) writer
          ∧ draft.attempt size op = (.error (.violation v), draft))
      ∨ ∃ e after, op.perform writer = .error (.sink e) after
          ∧ after.Interrupted size origin
              (draft.append (op.written draft.cache draft.length)) := by
  rcases op.closes_or_adds with ⟨location, rfl⟩ | adds
  · rcases h.bracketPop location with ⟨after, last, run, closes, represents⟩ | ⟨v, run, closes⟩
      | ⟨e, after, run, interrupted⟩
    · exact .inl ⟨none, after, last, bind_of_ok run _, closes, represents⟩
    · exact .inr (.inl ⟨v, bind_of_error run _, closes⟩)
    · exact .inr (.inr ⟨e, after, bind_of_error run _, interrupted⟩)
  · rw [Draft.attempt_of_adds adds]
    cases refused : (op.command? draft.cache).bind Command.violation? with
    | none =>
      have encodes : ∀ c ∈ op.command? draft.cache, c.violation? = none :=
        Option.bind_eq_none_iff.mp refused
      rcases h.perform adds encodes with ⟨after, run, represents⟩ | ⟨e, after, run, interrupted⟩
      · exact .inl ⟨_, after, _, run, rfl, represents⟩
      · exact .inr (.inr ⟨e, after, run, interrupted⟩)
    | some v =>
      obtain ⟨c, short, violates⟩ := Option.bind_eq_some_iff.mp refused
      refine .inr (.inl ⟨v, ?_, rfl⟩)
      rw [Operation.refusable short violates, bind_of_error (command_refused violates writer)]

/-- On a reliable sink an operation ends on a writer as it ends on the draft. -/
theorem Represents.attempt (h : writer.Represents size origin draft) (reliable : origin.Reliable)
    (op : Operation) :
    (writer.attempt op).1 = (draft.attempt size op).1
      ∧ (writer.attempt op).2.Represents size origin (draft.attempt size op).2 := by
  rw [Writer.attempt]
  rcases h.perform_cases op with ⟨answer, after, last, run, attempts, represents⟩
    | ⟨v, run, attempts⟩ | ⟨e, after, run, interrupted⟩
  · rw [run, attempts]
    exact ⟨rfl, represents⟩
  · rw [run, attempts]
    exact ⟨rfl, h⟩
  · exact absurd reliable interrupted.unreliable

/-- On a reliable sink a session ends on a writer as it ends on the draft. -/
theorem Represents.attemptAll (h : writer.Represents size origin draft) (reliable : origin.Reliable)
    (ops : List Operation) :
    (attemptAll ops writer).1 = (draft.attemptAll size ops).1
      ∧ (attemptAll ops writer).2.Represents size origin (draft.attemptAll size ops).2 := by
  induction ops generalizing writer draft with
  | nil => exact ⟨rfl, h⟩
  | cons op ops ih =>
    obtain ⟨answer, represents⟩ := h.attempt reliable op
    obtain ⟨answers, last⟩ := ih represents
    refine ⟨?_, last⟩
    show ((writer.attempt op).1, (writer.attempt op).2.pos)
        :: (Writer.attemptAll ops (writer.attempt op).2).1
      = ((draft.attempt size op).1, (draft.attempt size op).2.length)
        :: (Draft.attemptAll size ops (draft.attempt size op).2).1
    rw [answer, answers, represents.pos_eq]

/-- A buffered writer on a reliable sink refines one plain list of bytes: whatever operations are
performed, each answers what it answers on the list and leaves the writer at the position that is the
length of the list, and ending the session leaves the sink with the bytes of the list and no
others. -/
theorem attemptAll_refines (size : BufferSize) (sink : Sink) (reliable : sink.Reliable)
    (ops : List Operation) :
    let (answers, writer) := attemptAll ops (new sink size)
    let (expected, draft) := Draft.attemptAll size ops {}
    answers = expected ∧ writer.pos = draft.length
      ∧ ∃ finished, finish writer = .ok () finished
        ∧ finished.sink.record.octets.toList = sink.record.octets.toList ++ draft.octets := by
  obtain ⟨answers, represents⟩ := (represents_new sink size).attemptAll reliable ops
  exact ⟨answers, represents.pos_eq, represents.finish reliable⟩

/-- With a buffer of eight bytes: a `push` is taken back and so leaves no trace, a byte that is no
`push` is reported and stays, and the `push` that fills the second half can no longer be taken back. -/
theorem attemptAll_refines_around_the_buffer :
    Sink.unbounded.Reliable
      ∧ (attemptAll [.push, .bracketPop 1, .byte 65, .bracketPop 1, .word 0, .byte 7, .byte 7, .push,
            .bracketPop 8] (new .unbounded ⟨4, Nat.le_refl 4⟩)).1
          = [(.ok (some 1), 1), (.ok none, 0), (.ok none, 1),
            (.error (.violation (.unmatchedPop 65)), 1), (.ok none, 5), (.ok none, 6), (.ok none, 7),
            (.ok (some 8), 8), (.ok none, 9)]
      ∧ ∃ finished, finish (attemptAll [.push, .bracketPop 1, .byte 65, .bracketPop 1, .word 0,
            .byte 7, .byte 7, .push, .bracketPop 8] (new .unbounded ⟨4, Nat.le_refl 4⟩)).2
          = .ok () finished
        ∧ finished.sink.record.octets.toList = [65, 0, 0, 0, 0, 7, 7, 141, 142] := by
  obtain ⟨answers, -, finished, run, taken⟩ := attemptAll_refines ⟨4, Nat.le_refl 4⟩ .unbounded
    Sink.reliable_unbounded [.push, .bracketPop 1, .byte 65, .bracketPop 1, .word 0, .byte 7,
      .byte 7, .push, .bracketPop 8]
  refine ⟨Sink.reliable_unbounded, answers.trans ?_, finished, run, taken.trans ?_⟩
  · rfl
  · rfl

end Writer

end Dvi
