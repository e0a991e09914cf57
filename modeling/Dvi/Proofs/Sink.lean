/-
# Dvi.Proofs.Sink — what a sink has taken after it was given bytes.

Giving bytes to a sink adds a front of them to its record, whatever the sink answers, and it is all
of them exactly when no failure is reported (`octets_offer`). A sink is reliable when it always takes
something of what it is offered and can always be flushed; giving bytes to such a sink never fails
(`Reliable.offer_fst`). If it even takes everything at once, what it is given is one request
(`TakesAll.writeAll`). A sink is limited when it takes so many bytes and no more; what it has taken is
then a front of all that it was given, and it fails as soon as this is longer (`Limited.writePieces`).
-/
import Dvi.Sink

namespace Dvi

namespace Sink

/-- A sink that never fails: it takes at least one byte of any offer, and it can be flushed. -/
structure Reliable (sink : Sink) : Prop where
  takes : ∀ record octets, octets ≠ [] → ∃ n, sink.onWrite record octets = .takes (n + 1)
  flushes : ∀ record, sink.onFlush record = none

theorem reliable_unbounded : unbounded.Reliable where
  takes _ octets some := ⟨octets.length - 1, by
    show Reply.takes octets.length = .takes (octets.length - 1 + 1)
    rw [Nat.sub_add_cancel (List.length_pos_iff.mpr some)]⟩
  flushes _ := rfl

@[simp]
theorem Record.octets_take (record : Record) (chunk : Bytes) :
    (record.take chunk).octets.toList = record.octets.toList ++ chunk := by
  simp [Record.take]

/-- A sink takes a front of what it is given, and all of it exactly if it reports no failure. -/
theorem octets_offer (onWrite : Record → Bytes → Reply) (record : Record) (octets : Bytes) :
    ∃ n ≤ octets.length,
      (offer onWrite record octets).2.octets.toList = record.octets.toList ++ octets.take n
        ∧ ((offer onWrite record octets).1 = none ↔ n = octets.length) := by
  fun_induction offer onWrite record octets with
  | case1 record => exact ⟨0, Nat.le_refl _, by simp⟩
  | case2 record b rest e answer => exact ⟨0, Nat.zero_le _, by simp⟩
  | case3 record b rest answer => exact ⟨0, Nat.zero_le _, by simp⟩
  | case4 record b rest n answer ih =>
    obtain ⟨m, bound, taken, complete⟩ := ih
    rw [List.length_drop] at bound complete
    by_cases short : n ≤ rest.length
    · refine ⟨n + 1 + m, by rw [List.length_cons]; omega, ?_, ?_⟩
      · rw [taken, Record.octets_take, List.append_assoc, List.take_add, List.take_succ_cons,
          List.drop_succ_cons]
      · rw [complete, List.length_cons]
        omega
    · have all : rest.drop n = [] := List.drop_of_length_le (by omega)
      refine ⟨rest.length + 1, Nat.le_refl _, ?_, ?_⟩
      · rw [taken, Record.octets_take, all, List.take_nil, List.append_nil, List.take_succ_cons,
          List.take_of_length_le (by omega), List.take_length]
      · rw [complete]
        simp
        omega

/-- Flushing brings no bytes. -/
theorem octets_flush (sink : Sink) : sink.flush.2.record.octets = sink.record.octets := by
  unfold flush
  split <;> rfl

variable {sink : Sink}

/-- Giving bytes to a reliable sink does not fail. -/
theorem Reliable.offer_fst (h : sink.Reliable) (record : Record) (octets : Bytes) :
    (offer sink.onWrite record octets).1 = none := by
  fun_induction offer sink.onWrite record octets with
  | case1 record => rfl
  | case2 record b rest e answer =>
    obtain ⟨n, taken⟩ := h.takes record (b :: rest) (List.cons_ne_nil _ _)
    rw [answer] at taken
    cases taken
  | case3 record b rest answer =>
    obtain ⟨n, taken⟩ := h.takes record (b :: rest) (List.cons_ne_nil _ _)
    rw [answer] at taken
    cases taken
  | case4 record b rest n answer ih => exact ih

/-- A reliable sink takes all that it is given and stays reliable. -/
theorem Reliable.writeAll (h : sink.Reliable) (octets : Bytes) :
    ∃ after, sink.writeAll octets = (none, after) ∧ after.Reliable
      ∧ after.record.octets.toList = sink.record.octets.toList ++ octets := by
  obtain ⟨onWrite, onFlush, record⟩ := sink
  obtain ⟨n, -, taken, complete⟩ := octets_offer onWrite record octets
  have unfailing : (offer onWrite record octets).1 = none := h.offer_fst record octets
  rcases answer : offer onWrite record octets with ⟨failure, last⟩
  rw [answer] at taken complete unfailing
  rw [complete.mp unfailing, List.take_length] at taken
  cases unfailing
  refine ⟨⟨onWrite, onFlush, last⟩, ?_, ⟨h.takes, h.flushes⟩, taken⟩
  rw [Sink.writeAll, answer]

/-! ## Several pieces -/

/-- Gives pieces to a sink one after the other, up to the first that it does not take. -/
def writePieces : List Bytes → Sink → Option IoError × Sink
  | [], sink => (none, sink)
  | piece :: rest, sink =>
    match sink.writeAll piece with
    | (none, after) => after.writePieces rest
    | (some e, after) => (some e, after)

/-- Pieces that follow others are given to the sink as those have left it, unless one of them failed. -/
theorem writePieces_append (sink : Sink) (first second : List Bytes) :
    sink.writePieces (first ++ second) =
      match sink.writePieces first with
      | (none, after) => after.writePieces second
      | (some e, after) => (some e, after) := by
  induction first generalizing sink with
  | nil => rfl
  | cons piece rest ih =>
    rw [List.cons_append, writePieces, writePieces]
    rcases sink.writeAll piece with ⟨_ | e, after⟩
    · exact ih after
    · rfl

/-- A reliable sink takes all pieces. -/
theorem Reliable.writePieces (h : sink.Reliable) (pieces : List Bytes) :
    ∃ after, sink.writePieces pieces = (none, after) ∧ after.Reliable
      ∧ after.record.octets.toList = sink.record.octets.toList ++ pieces.flatten := by
  induction pieces generalizing sink with
  | nil => exact ⟨sink, rfl, h, by simp⟩
  | cons piece rest ih =>
    obtain ⟨middle, first, stays, taken⟩ := h.writeAll piece
    obtain ⟨after, run, last, all⟩ := ih stays
    refine ⟨after, ?_, last, ?_⟩
    · rw [Sink.writePieces, first]
      exact run
    · rw [all, taken, List.flatten_cons, List.append_assoc]

/-! ## Everything at once -/

/-- A sink that takes all that it is offered at once, and can be flushed. -/
structure TakesAll (sink : Sink) : Prop where
  takes : ∀ (record : Record) (octets : Bytes), octets ≠ [] →
    ∃ n, octets.length ≤ n ∧ sink.onWrite record octets = .takes n
  flushes : ∀ record, sink.onFlush record = none

theorem takesAll_unbounded : unbounded.TakesAll where
  takes _ octets _ := ⟨octets.length, Nat.le_refl _, rfl⟩
  flushes _ := rfl

theorem TakesAll.reliable (h : sink.TakesAll) : sink.Reliable where
  takes record octets some := by
    obtain ⟨n, all, taken⟩ := h.takes record octets some
    have positive := List.length_pos_iff.mpr some
    refine ⟨n - 1, ?_⟩
    rw [taken, Nat.sub_add_cancel (by omega)]
  flushes := h.flushes

/-- The record after bytes were taken at once. If there are none, nothing was asked for. -/
def Record.give (record : Record) (octets : Bytes) : Record :=
  if octets = [] then record else record.take octets

theorem Record.chunks_give (record : Record) (octets : Bytes) :
    (record.give octets).chunks.toList
      = record.chunks.toList ++ [octets.length].filter (0 < ·) := by
  rw [give]
  split
  · next none => simp [none]
  · next some => simp [Record.take, List.length_pos_iff.mpr some]

theorem Record.flushes_give (record : Record) (octets : Bytes) :
    (record.give octets).flushes = record.flushes := by
  rw [give]
  split <;> rfl

/-- What such a sink is given is one request, unless there is nothing to ask for. -/
theorem TakesAll.writeAll (h : sink.TakesAll) (octets : Bytes) :
    sink.writeAll octets = (none, { sink with record := sink.record.give octets }) := by
  obtain ⟨onWrite, onFlush, record⟩ := sink
  have offered : offer onWrite record octets = (none, record.give octets) := by
    cases octets with
    | nil =>
      rw [offer]
      rfl
    | cons b rest =>
      obtain ⟨n, all, taken⟩ := h.takes record (b :: rest) (List.cons_ne_nil b rest)
      cases n with
      | zero => exact absurd all (Nat.not_succ_le_zero _)
      | succ n =>
        change onWrite record (b :: rest) = _ at taken
        have whole : rest.length ≤ n := Nat.le_of_succ_le_succ all
        rw [offer, taken]
        dsimp only
        rw [List.take_of_length_le whole, List.drop_of_length_le whole, offer]
        rfl
  rw [Sink.writeAll, offered]

/-! ## Limited room -/

/-- A sink that takes what it is offered, in pieces of any size, until it has taken `capacity` bytes in
all, and refuses whatever it is offered then. -/
structure Limited (sink : Sink) (capacity : Nat) : Prop where
  takes : ∀ (record : Record) (octets : Bytes), octets ≠ [] → record.octets.size < capacity →
    ∃ n, sink.onWrite record octets = .takes (n + 1)
      ∧ record.octets.size + min (n + 1) octets.length ≤ capacity
  refuses : ∀ (record : Record) (octets : Bytes), octets ≠ [] → capacity ≤ record.octets.size →
    sink.onWrite record octets = .takes 0 ∨ ∃ e, sink.onWrite record octets = .fails e

variable {capacity : Nat}

/-- A sink that fills up its room and then refuses is limited, however it refuses. -/
theorem limited_of_fillUp {whenFull : Reply} (fills : sink.onWrite = fillUp capacity whenFull)
    (refuses : whenFull = .takes 0 ∨ ∃ e, whenFull = .fails e) : sink.Limited capacity where
  takes := by
    intro record octets some room
    have := List.length_pos_iff.mpr some
    rw [fills, fillUp]
    cases given : min octets.length (capacity - record.octets.size) with
    | zero => omega
    | succ n => exact ⟨n, rfl, by omega⟩
  refuses := by
    intro record octets _ full
    have none_left : min octets.length (capacity - record.octets.size) = 0 := by omega
    rw [fills, fillUp, none_left]
    exact refuses

theorem limited_bounded (capacity : Nat) : (bounded capacity).Limited capacity :=
  limited_of_fillUp rfl (.inr ⟨_, rfl⟩)

/-- A limited sink that takes nothing has no room left. -/
theorem Limited.full (h : sink.Limited capacity) {record : Record} {octets : Bytes}
    (some : octets ≠ []) (refused : ∀ n, sink.onWrite record octets ≠ .takes (n + 1)) :
    capacity ≤ record.octets.size := by
  apply Nat.le_of_not_lt
  intro room
  obtain ⟨n, taken, -⟩ := h.takes record octets some room
  exact refused n taken

/-- What a limited sink takes of an offer fits the room that it had. -/
theorem Limited.fits (h : sink.Limited capacity) {record : Record} {octets : Bytes} {n : Nat}
    (some : octets ≠ []) (taken : sink.onWrite record octets = .takes (n + 1)) :
    record.octets.size + min (n + 1) octets.length ≤ capacity := by
  have room : record.octets.size < capacity := by
    apply Nat.lt_of_not_le
    intro full
    rcases h.refuses record octets some full with nothing | ⟨e, fails⟩
    · rw [taken] at nothing
      cases nothing
    · rw [taken] at fails
      cases fails
  obtain ⟨m, same, fits⟩ := h.takes record octets some room
  rw [taken] at same
  cases same
  exact fits

/-- A limited sink keeps a front of what it is given, as long as there is room, and reports no failure
exactly if there is room for all of it. -/
theorem Limited.offer (h : sink.Limited capacity) (record : Record) (octets : Bytes)
    (inside : record.octets.size ≤ capacity) :
    (Sink.offer sink.onWrite record octets).2.octets.toList
        = (record.octets.toList ++ octets).take capacity
      ∧ ((Sink.offer sink.onWrite record octets).1 = none
          ↔ record.octets.size + octets.length ≤ capacity) := by
  fun_induction Sink.offer sink.onWrite record octets with
  | case1 record =>
    rw [List.append_nil, List.take_of_length_le (by rwa [Array.length_toList])]
    exact ⟨rfl, iff_of_true rfl inside⟩
  | case2 record b rest e answer =>
    have full : capacity ≤ record.octets.size := by
      apply h.full (List.cons_ne_nil b rest)
      simp [answer]
    rw [List.take_left' (by rw [Array.length_toList]; omega)]
    simp
    omega
  | case3 record b rest answer =>
    have full : capacity ≤ record.octets.size := by
      apply h.full (List.cons_ne_nil b rest)
      simp [answer]
    rw [List.take_left' (by rw [Array.length_toList]; omega)]
    simp
    omega
  | case4 record b rest n answer ih =>
    have fits := h.fits (List.cons_ne_nil b rest) answer
    have size : (record.take (b :: rest.take n)).octets.size
        = record.octets.size + min (n + 1) (b :: rest).length := by
      rw [← Array.length_toList, Record.octets_take]
      simp
    obtain ⟨kept, complete⟩ := ih (by omega)
    constructor
    · rw [kept, Record.octets_take, List.append_assoc, List.cons_append, List.take_append_drop]
    · rw [complete, size]
      simp
      omega

/-- The same of all that it is given at once, after which it is still limited. -/
theorem Limited.writeAll (h : sink.Limited capacity) (inside : sink.record.octets.size ≤ capacity)
    (octets : Bytes) :
    ∃ failure after, sink.writeAll octets = (failure, after) ∧ after.Limited capacity
      ∧ after.record.octets.toList = (sink.record.octets.toList ++ octets).take capacity
      ∧ (failure = none ↔ sink.record.octets.size + octets.length ≤ capacity) := by
  obtain ⟨onWrite, onFlush, record⟩ := sink
  obtain ⟨kept, complete⟩ := h.offer record octets inside
  exact ⟨_, _, rfl, ⟨h.takes, h.refuses⟩, kept, complete⟩

/-- A limited sink keeps a front of several pieces as it does of one. -/
theorem Limited.writePieces (h : sink.Limited capacity)
    (inside : sink.record.octets.size ≤ capacity) (pieces : List Bytes) :
    ∃ failure after, sink.writePieces pieces = (failure, after) ∧ after.Limited capacity
      ∧ after.record.octets.toList = (sink.record.octets.toList ++ pieces.flatten).take capacity
      ∧ (failure = none ↔ sink.record.octets.size + pieces.flatten.length ≤ capacity) := by
  induction pieces generalizing sink with
  | nil =>
    refine ⟨none, sink, rfl, h, ?_, iff_of_true rfl inside⟩
    rw [List.flatten_nil, List.append_nil, List.take_of_length_le]
    rw [Array.length_toList]
    exact inside
  | cons piece rest ih =>
    obtain ⟨failure, middle, first, stays, kept, complete⟩ := h.writeAll inside piece
    have length : (sink.record.octets.toList ++ piece).length
        = sink.record.octets.size + piece.length := by simp
    rw [Sink.writePieces, first, List.flatten_cons, ← List.append_assoc, List.length_append]
    cases failure with
    | none =>
      have fits := complete.mp rfl
      rw [List.take_of_length_le (by omega)] at kept
      have size := congrArg List.length kept
      rw [Array.length_toList, length] at size
      obtain ⟨failure, after, run, last, all, whole⟩ := ih stays (by omega)
      rw [kept] at all
      refine ⟨failure, after, run, last, all, whole.trans ?_⟩
      omega
    | some e =>
      have beyond : ¬sink.record.octets.size + piece.length ≤ capacity := by
        intro fits
        cases complete.mpr fits
      have filled : capacity ≤ (sink.record.octets.toList ++ piece).length := by omega
      refine ⟨some e, middle, rfl, stays, ?_, iff_of_false (Option.some_ne_none e) (by omega)⟩
      rw [kept, List.take_append_of_le_length filled]

end Sink

end Dvi
