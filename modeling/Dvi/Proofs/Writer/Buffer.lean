/-
# Dvi.Proofs.Writer.Buffer — which stream a buffer holds the end of.

Four cursors and an array of cells stand for one stream of bytes. `Buffer.Holds` says how: the bytes
still to be handed on are those of the stream from the cursor `gone` on, the cell that comes next is
the length of the stream counted from the last multiple of the size of the buffer, and the limit
tells in which of two phases the cursors are. Each change of the buffer is then a change of the
stream: `store` adds a byte (`Holds.store`), `unstore` takes the last one back (`Holds.unstore`), and
handing a half on leaves the stream alone while the half that goes is the front of what was pending
(`Holds.startOver`, `Holds.goOn`).

Nothing here speaks of a sink; what becomes of the bytes handed on is said in
`Dvi.Proofs.Writer.Emission`.
-/
import Dvi.Writer.Buffer

namespace Dvi

theorem BufferSize.half_lt_bytes (size : BufferSize) : size.half < size.bytes := by
  have := size.four_le_half
  rw [BufferSize.bytes]
  omega

theorem BufferSize.half_pos (size : BufferSize) : 0 < size.half :=
  Nat.lt_of_lt_of_le (by decide) size.four_le_half

namespace Buffer

/-- A buffer that holds the end of a stream, the part that was not handed on. -/
structure Holds (buffer : Buffer) (stream : Bytes) : Prop where
  size_cells : buffer.cells.size = buffer.size.bytes + 1
  ptr_le_limit : buffer.ptr ≤ buffer.limit
  /-- With the limit at the middle the upper half is still pending; with the limit at the end
  nothing before cell 0 is. -/
  phase : buffer.limit = buffer.size.half ∧ buffer.gone + buffer.size.half = buffer.offset
    ∨ buffer.limit = buffer.size.bytes ∧ buffer.gone = buffer.offset
  aligned : buffer.size.bytes ∣ buffer.offset
  length_stream : stream.length = buffer.pos
  pending_eq : buffer.pending = stream.drop buffer.gone

/-! ## Slices of the cells -/

theorem slice_eq (buffer : Buffer) (start stop : Nat) :
    buffer.slice start stop = (buffer.cells.toList.drop start).take (stop - start) := by
  rw [slice, Array.toList_extract, List.extract_eq_take_drop]

theorem newer_eq (buffer : Buffer) : buffer.newer = buffer.cells.toList.take buffer.ptr := by
  rw [newer, slice_eq, List.drop_zero, Nat.sub_zero]

theorem lower_append_upper (buffer : Buffer) :
    buffer.lower ++ buffer.upper = buffer.cells.toList.take buffer.size.bytes := by
  have total : buffer.size.bytes = buffer.size.half + (buffer.size.bytes - buffer.size.half) := by
    have := buffer.size.half_lt_bytes
    omega
  rw [lower, upper, slice_eq, slice_eq, List.drop_zero, Nat.sub_zero, total, Nat.add_sub_cancel_left,
    ← List.take_add]

/-- A half has as many bytes as the size says, once there are cells enough. -/
theorem length_lower {buffer : Buffer} (h : buffer.size.bytes ≤ buffer.cells.size) :
    buffer.lower.length = buffer.size.half := by
  have := buffer.size.half_lt_bytes
  rw [lower, slice_eq, List.length_take, List.length_drop, Array.length_toList]
  omega

theorem length_upper {buffer : Buffer} (h : buffer.size.bytes ≤ buffer.cells.size) :
    buffer.upper.length = buffer.size.half := by
  have := buffer.size.half_lt_bytes
  rw [upper, slice_eq, List.length_take, List.length_drop, Array.length_toList]
  simp only [BufferSize.bytes] at *
  omega

/-! ## The two phases -/

theorem older_of_limit_eq_half (buffer : Buffer) (h : buffer.limit = buffer.size.half) :
    buffer.older = buffer.upper :=
  if_pos h

theorem older_of_limit_eq_bytes (buffer : Buffer) (h : buffer.limit = buffer.size.bytes) :
    buffer.older = [] := by
  have := buffer.size.half_lt_bytes
  exact if_neg (by omega)

variable {buffer : Buffer} {stream : Bytes}

namespace Holds

theorem limit_le_bytes (h : buffer.Holds stream) : buffer.limit ≤ buffer.size.bytes := by
  have := buffer.size.half_lt_bytes
  rcases h.phase with ⟨limit, -⟩ | ⟨limit, -⟩ <;> omega

/-- The limit is where the next half is due, one buffer behind the last one that was handed on. -/
theorem offset_add_limit (h : buffer.Holds stream) :
    buffer.offset + buffer.limit = buffer.gone + buffer.size.bytes := by
  have bytes : buffer.size.bytes = 2 * buffer.size.half := rfl
  rcases h.phase with ⟨limit, gone⟩ | ⟨limit, gone⟩ <;> omega

/-- The limit is inside the buffer, so the cell at the cursor is always there to be filled. -/
theorem ptr_lt_size_cells (h : buffer.Holds stream) : buffer.ptr < buffer.cells.size := by
  have room := h.ptr_le_limit
  have cells := h.size_cells
  have inside := h.limit_le_bytes
  omega

theorem length_newer (h : buffer.Holds stream) : buffer.newer.length = buffer.ptr := by
  have := h.ptr_lt_size_cells
  rw [newer_eq, List.length_take, Array.length_toList]
  omega

/-- All that was handed on was handed on before the buffer last started at cell 0. -/
theorem gone_le_offset (h : buffer.Holds stream) : buffer.gone ≤ buffer.offset := by
  rcases h.phase with ⟨-, gone⟩ | ⟨-, gone⟩ <;> omega

theorem gone_le_length (h : buffer.Holds stream) : buffer.gone ≤ stream.length := by
  have := h.gone_le_offset
  rw [h.length_stream, pos]
  omega

/-- What was handed on and what is pending make up the stream. -/
theorem gone_add_pending (h : buffer.Holds stream) :
    buffer.gone + buffer.older.length + buffer.newer.length = buffer.pos := by
  have pending := congrArg List.length h.pending_eq
  have inside := h.gone_le_length
  have whole := h.length_stream
  rw [Buffer.pending, List.length_append, List.length_drop] at pending
  omega

/-- The bytes since cell 0 are the end of the stream. -/
theorem newer_eq_drop (h : buffer.Holds stream) : buffer.newer = stream.drop buffer.offset := by
  have pending := h.pending_eq
  -- What is older is pending too: it fills the gap between `gone` and the offset.
  have older : buffer.older.length = buffer.offset - buffer.gone := by
    rcases h.phase with ⟨limit, gone⟩ | ⟨limit, gone⟩
    · rw [older_of_limit_eq_half _ limit, length_upper (by rw [h.size_cells]; omega)]
      omega
    · rw [older_of_limit_eq_bytes _ limit, List.length_nil]
      omega
  calc buffer.newer = buffer.pending.drop buffer.older.length := by
        rw [Buffer.pending, List.drop_left]
    _ = stream.drop (buffer.gone + (buffer.offset - buffer.gone)) := by
        rw [pending, older, List.drop_drop]
    _ = stream.drop buffer.offset := by
        rw [Nat.add_sub_cancel' h.gone_le_offset]

/-! ## What a change of the buffer does to the stream -/

/-- An empty buffer holds the empty stream. -/
theorem empty (size : BufferSize) : (Buffer.empty size).Holds [] where
  size_cells := Array.size_replicate
  ptr_le_limit := Nat.zero_le _
  phase := .inr ⟨rfl, rfl⟩
  aligned := Nat.dvd_zero _
  length_stream := rfl
  pending_eq := by
    rw [pending, older_of_limit_eq_bytes _ rfl, newer_eq]
    rfl

/-- Filling a cell adds a byte to the stream. -/
theorem store (h : buffer.Holds stream) (room : buffer.ptr < buffer.limit) (b : UInt8) :
    (buffer.store b).Holds (stream ++ [b]) where
  size_cells := by
    rw [Buffer.store, Array.size_setIfInBounds]
    exact h.size_cells
  ptr_le_limit := room
  phase := h.phase
  aligned := h.aligned
  length_stream := by
    rw [List.length_append, h.length_stream]
    rfl
  pending_eq := by
    have inside : buffer.ptr < buffer.cells.toList.length := by
      rw [Array.length_toList]
      exact h.ptr_lt_size_cells
    have newer : (buffer.store b).newer = buffer.newer ++ [b] := by
      rw [newer_eq, newer_eq, Buffer.store, Array.toList_setIfInBounds, ← List.take_append_getElem
        (by rwa [List.length_set]), List.take_set_of_le (Nat.le_refl _), List.getElem_set_self]
    -- The upper half pends only while the cursor is below it, so the new byte does not touch it.
    have older : (buffer.store b).older = buffer.older := by
      rcases h.phase with ⟨limit, -⟩ | ⟨limit, -⟩
      · rw [older_of_limit_eq_half _ limit, older_of_limit_eq_half (buffer.store b) limit,
          upper, upper, slice_eq, slice_eq, Buffer.store, Array.toList_setIfInBounds,
          List.drop_set_of_lt (limit ▸ room)]
      · rw [older_of_limit_eq_bytes _ limit, older_of_limit_eq_bytes (buffer.store b) limit]
    calc (buffer.store b).pending = buffer.pending ++ [b] := by
          rw [pending, older, newer, ← List.append_assoc, ← pending]
      _ = (stream ++ [b]).drop buffer.gone := by
          rw [h.pending_eq, List.drop_append_of_le_length h.gone_le_length]

/-- Taking the last byte back takes it off the stream, if it was stored since cell 0. -/
theorem unstore (h : buffer.Holds stream) (started : 0 < buffer.ptr) :
    buffer.unstore.Holds stream.dropLast where
  size_cells := h.size_cells
  ptr_le_limit := Nat.le_trans (Nat.sub_le _ _) h.ptr_le_limit
  phase := h.phase
  aligned := h.aligned
  length_stream := by
    rw [List.length_dropLast, h.length_stream, pos, pos]
    exact Nat.add_sub_assoc started _
  pending_eq := by
    have newer : buffer.unstore.newer = buffer.newer.dropLast := by
      rw [List.dropLast_eq_take, h.length_newer, newer_eq, newer_eq, List.take_take,
        Nat.min_eq_left (Nat.sub_le _ _)]
      rfl
    have some_newer : buffer.newer ≠ [] := by
      rw [← List.length_pos_iff, h.length_newer]
      exact started
    calc buffer.unstore.pending = buffer.pending.dropLast := by
          rw [pending, newer, pending, List.dropLast_append_of_ne_nil some_newer]
          rfl
      _ = stream.dropLast.drop buffer.gone := by
          rw [h.pending_eq, List.dropLast_eq_take, List.dropLast_eq_take, List.length_drop,
            List.drop_take, Nat.sub_right_comm]

/-- A buffer that is full to its limit hands a half on: the half is the front of what was pending,
and what is still pending is the rest. The stream stays as it is. -/
theorem startOver (h : buffer.Holds stream) (full : buffer.ptr = buffer.limit)
    (atEnd : buffer.limit = buffer.size.bytes) :
    buffer.lower = buffer.pending.take buffer.size.half ∧ buffer.startOver.Holds stream := by
  have enough : buffer.size.bytes ≤ buffer.cells.size := by rw [h.size_cells]; omega
  have split : buffer.pending = buffer.lower ++ buffer.upper := by
    rw [pending, older_of_limit_eq_bytes _ atEnd, newer_eq, full, atEnd, lower_append_upper]
    rfl
  refine ⟨by rw [split, ← length_lower enough, List.take_left], ?_⟩
  have gone : buffer.gone = buffer.offset := by
    have := buffer.size.half_lt_bytes
    rcases h.phase with ⟨limit, -⟩ | ⟨-, gone⟩
    · omega
    · exact gone
  exact {
    size_cells := h.size_cells
    ptr_le_limit := Nat.zero_le _
    phase := by
      -- Only the lower half is handed on, so `gone` stays a half behind the new offset.
      refine .inl ⟨rfl, ?_⟩
      show buffer.gone + buffer.size.half + buffer.size.half = buffer.offset + buffer.size.bytes
      rw [gone, BufferSize.bytes]
      omega
    aligned := Nat.dvd_add h.aligned (Nat.dvd_refl _)
    length_stream := by
      rw [h.length_stream, pos, full, atEnd]
      rfl
    pending_eq := by
      have newer : buffer.startOver.newer = [] := by
        rw [newer_eq]
        rfl
      rw [pending, older_of_limit_eq_half _ rfl, newer, List.append_nil]
      show buffer.upper = stream.drop (buffer.gone + buffer.size.half)
      rw [← List.drop_drop, ← h.pending_eq, split, ← length_lower enough, List.drop_left] }

theorem goOn (h : buffer.Holds stream) (full : buffer.ptr = buffer.limit)
    (atMiddle : buffer.limit ≠ buffer.size.bytes) :
    buffer.upper = buffer.pending.take buffer.size.half ∧ buffer.goOn.Holds stream := by
  obtain ⟨limit, gone⟩ := h.phase.resolve_right fun top => atMiddle top.1
  have enough : buffer.size.bytes ≤ buffer.cells.size := by rw [h.size_cells]; omega
  have split : buffer.pending = buffer.upper ++ buffer.newer := by
    rw [pending, older_of_limit_eq_half _ limit]
  refine ⟨by rw [split, ← length_upper enough, List.take_left], ?_⟩
  exact {
    size_cells := h.size_cells
    ptr_le_limit := by
      have := buffer.size.half_lt_bytes
      show buffer.ptr ≤ buffer.size.bytes
      omega
    phase := .inr ⟨rfl, gone⟩
    aligned := h.aligned
    length_stream := h.length_stream
    pending_eq := by
      rw [pending, older_of_limit_eq_bytes _ rfl]
      show buffer.newer = stream.drop (buffer.gone + buffer.size.half)
      rw [← List.drop_drop, ← h.pending_eq, split, ← length_upper enough, List.drop_left] }

/-! ## The end of the stream seen from the cursor -/

/-- With room left, the cursor is the length of the stream counted from the last multiple of the
size. -/
theorem ptr_eq_mod (h : buffer.Holds stream) (room : buffer.ptr < buffer.limit) :
    buffer.ptr = stream.length % buffer.size.bytes := by
  have inside : buffer.ptr < buffer.size.bytes := Nat.lt_of_lt_of_le room h.limit_le_bytes
  obtain ⟨rounds, offset⟩ := h.aligned
  rw [h.length_stream, pos, offset, Nat.mul_add_mod, Nat.mod_eq_of_lt inside]

/-- The last byte of the stream is at hand unless the stream ends at a multiple of the size. -/
theorem last?_eq (h : buffer.Holds stream) (room : buffer.ptr < buffer.limit) :
    buffer.last? =
      if stream.length % buffer.size.bytes = 0 then none else stream.getLast? := by
  rw [← h.ptr_eq_mod room]
  cases ptr : buffer.ptr with
  | zero => rw [last?, ptr]; rfl
  | succ last =>
    have inside : last < buffer.cells.toList.length := by
      have := h.ptr_lt_size_cells
      rw [Array.length_toList]
      omega
    have long : ¬stream.length ≤ buffer.offset := by
      rw [h.length_stream, pos, ptr]
      omega
    rw [if_neg (Nat.succ_ne_zero last), last?, ptr]
    show buffer.cells[last]? = stream.getLast?
    -- The cell before the cursor is the last of the bytes since cell 0.
    have newer := h.newer_eq_drop
    rw [newer_eq, ptr] at newer
    calc buffer.cells[last]? = (buffer.cells.toList.take (last + 1)).getLast? := by
          rw [← List.take_append_getElem inside, List.getLast?_concat, ← Array.getElem?_toList,
            List.getElem?_eq_getElem inside]
      _ = stream.getLast? := by
          rw [newer, List.getLast?_drop, if_neg long]

end Holds

end Buffer

end Dvi
