/-
# Dvi.Proofs.Writer.Groups — sessions that open and close groups around whole commands.

A session whose operations write whole commands, or none, writes commands only: those that it asked
for (`Session.script`), except that closing a group at once takes its `push` back. What holds between
the steps is that the stream consists of the commands that are left after such pairs were taken out,
that the locations which the session remembers are those of the `push`es of the open groups, and that
a pair was kept only where the buffer had started over (`Session.Keeps`). Each kind of step keeps this,
so closing a group never finds a byte that opens none, and a session that closes all its groups comes
to its end (`Session.Keeps.steps`). A number that is written as a member of a family of commands counts
as a whole command as well: it is the command that is left of the member (`Command.Family.perform_eq`).
-/
import Dvi.Proofs.Command.Cancellation
import Dvi.Proofs.Command.RoundTrip
import Dvi.Proofs.Writer.Refinement
import Dvi.Proofs.Writer.Stream

namespace Dvi

open Command (bytesOf)

/-- A command that is read as it was written, and after which the stream goes on. -/
structure Command.Lasting (c : Command) : Prop where
  encodes : c.violation? = none
  fits : c.Fits
  going : c.ends = false

/-- A lasting command that neither opens nor closes a group. -/
structure Command.Plain (c : Command) : Prop extends c.Lasting where
  opens_none : c ≠ .push
  closes_none : c ≠ .pop

namespace Operation

/-- An operation that writes one whole command, or none, and no bracket of a group: anything but
single bytes and numbers and the brackets themselves. -/
def Whole : Operation → Prop
  | command c => c.Plain
  | fontDefinition _ _ _ _ area name => area.length ≤ 255 ∧ name.length ≤ 255
  | preamble _ comment => comment.length ≤ 255
  | beginPage _ _ | moveRight _ | moveDown _ | selectFont _ | setChar _ => True
  | addPage | setFont _ | setH _ | setV _ => True
  | byte _ | word _ | signedWord _ | member _ _ | bracketPop _ | push => False

variable {op : Operation} {cache : Cache} {c : Command}

theorem Whole.adds (h : op.Whole) (location : Nat) : op ≠ .bracketPop location := by
  rintro rfl
  exact h

/-- The number of a font that is defined in its short form fits one byte. -/
theorem fitsUnsigned_ofNat (number : UInt8) :
    Width.one.FitsUnsigned (Int32.ofNat number.toNat) := by
  have small := number.toNat_lt
  have patterns : Width.one.patterns = 256 := rfl
  have word : Int32.size = 4294967296 := rfl
  have value : (Int32.ofNat number.toNat).toInt = number.toNat := by
    rw [← Int32.ofInt_eq_ofNat]
    exact Width.toInt_ofInt_of_bounds (by omega) (by omega)
  right
  omega

/-- What a whole operation is short for neither opens nor closes a group. -/
theorem Whole.plain (h : op.Whole) (short : op.command? cache = some c) : c.Plain := by
  cases op with
  | command c =>
    cases short
    exact h
  | fontDefinition number checksum scale designSize area name =>
    cases short
    refine ⟨⟨?_, fitsUnsigned_ofNat number, rfl⟩, Command.noConfusion, Command.noConfusion⟩
    rw [Command.violation?, if_neg (Nat.not_lt.mpr h.1), if_neg (Nat.not_lt.mpr h.2)]
  | preamble mag comment =>
    cases short
    exact ⟨⟨if_pos h, trivial, rfl⟩, Command.noConfusion, Command.noConfusion⟩
  | beginPage counters prev =>
    cases short
    exact ⟨⟨rfl, trivial, rfl⟩, Command.noConfusion, Command.noConfusion⟩
  | moveRight d | moveDown d =>
    cases short
    exact ⟨⟨rfl, Width.fitsSigned_ofSigned d, rfl⟩, Command.noConfusion, Command.noConfusion⟩
  | selectFont number =>
    rw [command?] at short
    split at short
    · cases short
    · split at short
      · next small =>
        cases short
        exact ⟨⟨if_pos (toUInt8_lt (UInt32.lt_iff_toNat_lt.mp small)), trivial, rfl⟩,
          Command.noConfusion, Command.noConfusion⟩
      · cases short
        exact ⟨⟨rfl, Width.fitsUnsigned_ofUnsigned number, rfl⟩, Command.noConfusion,
          Command.noConfusion⟩
  | setChar code =>
    rw [command?] at short
    split at short
    · next small =>
      cases short
      exact ⟨⟨if_pos (toUInt8_lt (UInt32.lt_iff_toNat_lt.mp small)), trivial, rfl⟩,
        Command.noConfusion, Command.noConfusion⟩
    · cases short
      exact ⟨⟨rfl, Width.fitsUnsigned_ofUnsigned code, rfl⟩, Command.noConfusion,
        Command.noConfusion⟩
  | addPage | setFont | setH | setV => cases short
  | byte | word | signedWord | member | bracketPop | push => exact h.elim

theorem Whole.encodes (h : op.Whole) : ∀ c ∈ op.command? cache, c.violation? = none := by
  intro c short
  exact (h.plain short).encodes

/-- A whole operation adds the bytes of the command that it is short for, and none otherwise. -/
theorem Whole.written_eq (h : op.Whole) (cache : Cache) (start : Nat) :
    op.written cache start = bytesOf (op.command? cache).toList := by
  cases short : op.command? cache with
  | some c =>
    rw [written_of_command? short, Command.bytesAt_of_not_ends (h.plain short).going]
    exact (List.append_nil _).symm
  | none =>
    cases op with
    | byte | word | signedWord | member | bracketPop | push => exact h.elim
    | fontDefinition | preamble | command | beginPage | moveRight | moveDown => cases short
    | addPage | setFont | setH | setV => rfl
    | selectFont | setChar => rw [written, short] <;> simp

end Operation

/-! ## Members of a family -/

/-- The families of commands whose only operand takes one to four bytes, by their one-byte members. -/
inductive Command.Family : UInt8 → (Width → Int32 → Command) → Prop
  | set : Family Opcode.setBase set
  | put : Family Opcode.putBase put
  | move (axis : Axis) : Family (Opcode.moveBase axis) (move axis)
  | space (spacing : Spacing) : Family (Opcode.spaceBase spacing) (space spacing)
  | selectFont : Family Opcode.fontBase selectFont

namespace Command.Family

variable {base : UInt8} {family : Width → Int32 → Command}

/-- What is left of a member of a family is a whole command, and no bracket of a group. -/
theorem plain (h : Family base family) (size : Width) (x : Int32) :
    (family size x).readBack.Plain := by
  have encodes : (family size x).violation? = none := by
    cases h <;> rfl
  obtain ⟨again, -, fits⟩ := readBack_spec encodes
  have going : (family size x).readBack.ends = false := by
    cases h <;> rfl
  refine ⟨⟨again, fits, going⟩, ?_, ?_⟩
  · cases h <;> exact Command.noConfusion
  · cases h <;> exact Command.noConfusion

/-- Writing a number as a member of a family is writing the command that is left of it. -/
theorem perform_eq (h : Family base family) (x : Int32) :
    (Operation.member base x).perform
      = (Operation.command (family (.ofSigned x) x).readBack).perform := by
  have encodes : (family (.ofSigned x) x).violation? = none := by
    cases h <;> rfl
  obtain ⟨again, bytes, -⟩ := readBack_spec encodes
  show (Writer.signedMember base x >>= fun _ => pure none)
    = (Writer.command (family (.ofSigned x) x).readBack >>= fun _ => pure none)
  rw [Writer.command_eq again, bytes, bind_assoc]
  cases h <;> rfl

end Command.Family

namespace Action

/-- The commands that a step of a session asks for. -/
def commands (cache : Cache) : Action → List Command
  | perform op => (op.command? cache).toList
  | openGroup => [.push]
  | closeGroup => [.pop]

/-- What is remembered after a step. -/
def remembered (cache : Cache) : Action → Cache
  | perform op => op.remembered cache
  | openGroup | closeGroup => cache

/-- How many groups are open after a step, of `n` before it. -/
def depth (n : Nat) : Action → Nat
  | perform _ => n
  | openGroup => n + 1
  | closeGroup => n - 1

/-- A step that writes whole commands only. -/
def Whole : Action → Prop
  | perform op => op.Whole
  | openGroup | closeGroup => True

end Action

namespace Session

/-- The commands that a session asks for, with the brackets of every group. -/
def script (cache : Cache) : List Action → List Command
  | [] => []
  | action :: rest => action.commands cache ++ script (action.remembered cache) rest

/-- Every step that closes a group finds one open, of which there are `n` before the first step, and
none is open after the last one. -/
def Balanced : Nat → List Action → Prop
  | n, [] => n = 0
  | n, .perform _ :: rest => Balanced n rest
  | n, .openGroup :: rest => Balanced (n + 1) rest
  | 0, .closeGroup :: _ => False
  | n + 1, .closeGroup :: rest => Balanced n rest

theorem Balanced.first {n : Nat} {action : Action} {rest : List Action}
    (h : Balanced n (action :: rest)) :
    (action = .closeGroup → n ≠ 0) ∧ Balanced (action.depth n) rest := by
  cases action with
  | perform => exact ⟨nofun, h⟩
  | openGroup => exact ⟨nofun, h⟩
  | closeGroup =>
    cases n with
    | zero => exact h.elim
    | succ n => exact ⟨fun _ => Nat.succ_ne_zero n, h⟩

/-- Takes steps in order, up to the first that fails. -/
def steps : List Action → SessionM Unit
  | [] => return
  | action :: rest => do
    let _ ← step action
    steps rest

/-- What a session keeps to: it has written `out`, which is what is left of the commands `full` that
it asked for. -/
structure Keeps (session : Session) (size : BufferSize) (origin : Sink) (cache : Cache)
    (full out : List Command) : Prop where
  represents : session.writer.Represents size origin ⟨bytesOf out, cache⟩
  lasting : ∀ c ∈ out, c.Lasting
  cancels : Cancels full out
  opens : OpenAt out session.groups
  aligned : PairsAligned size out

variable {session : Session} {size : BufferSize} {origin : Sink} {cache : Cache}
  {full out : List Command} {location : Nat} {outer : List Nat}

theorem keeps_new (size : BufferSize) (sink : Sink) :
    Keeps ⟨Writer.new sink size, []⟩ size sink {} [] [] where
  represents := Writer.represents_new sink size
  lasting c none := by cases none
  cancels := .refl
  opens := .none fun none => by cases none
  aligned := pairsAligned_nil

/-- Nothing that a session has written ends its stream. -/
theorem Keeps.going (h : session.Keeps size origin cache full out) : ∀ c ∈ out, c.ends = false :=
  fun c member => (h.lasting c member).going

theorem onWriter_of_ok {α : Type} {operation : WriteM α} {writer after : Writer} {a : α}
    (h : operation writer = .ok a after) (groups : List Nat) :
    onWriter operation ⟨writer, groups⟩ = .ok a ⟨after, groups⟩ := by
  rw [onWriter, h]

theorem lasting_push : Command.push.Lasting := ⟨rfl, trivial, rfl⟩

theorem lasting_pop : Command.pop.Lasting := ⟨rfl, trivial, rfl⟩

/-- A lasting command is added to those that were written. -/
theorem lasting_concat {last : Command} (h : ∀ c ∈ out, c.Lasting) (lasting : last.Lasting) :
    ∀ c ∈ out ++ [last], c.Lasting := by
  intro c member
  rcases List.mem_append.mp member with earlier | same
  · exact h c earlier
  · rw [List.mem_singleton.mp same]
    exact lasting

/-- An operation that writes a whole command, or none. -/
theorem Keeps.perform (h : session.Keeps size origin cache full out) (reliable : origin.Reliable)
    {op : Operation} (whole : op.Whole) :
    ∃ after, step (.perform op) session =
        .ok ((op.answer (bytesOf out).length).elim .done .position) after
      ∧ after.groups = session.groups
      ∧ after.Keeps size origin (op.remembered cache) (full ++ (op.command? cache).toList)
          (out ++ (op.command? cache).toList) := by
  obtain ⟨writer, run, represents⟩ :=
    (h.represents.perform whole.adds whole.encodes).ok_of_reliable reliable
  rw [whole.written_eq, ← Command.bytesOf_append] at represents
  have step_eq : step (.perform op) session =
      .ok ((op.answer (bytesOf out).length).elim .done .position) ⟨writer, session.groups⟩ := by
    have first := onWriter_of_ok run session.groups
    change onWriter op.perform session = .ok (op.answer (bytesOf out).length) _ at first
    cases answer : op.answer (bytesOf out).length with
    | none =>
      rw [answer] at first
      exact bind_of_ok first _
    | some n =>
      rw [answer] at first
      exact bind_of_ok first _
  refine ⟨_, step_eq, rfl, ?_⟩
  -- An operation that is short for no command leaves the stream alone, but not always the cache.
  cases short : op.command? cache with
  | none =>
    rw [short] at represents
    simp only [Option.toList_none, List.append_nil] at represents ⊢
    exact { h with represents }
  | some c =>
    have plain := whole.plain short
    have lasting : ∀ other ∈ out ++ [c], other.Lasting := lasting_concat h.lasting plain.toLasting
    rw [short] at represents
    exact {
      represents
      lasting
      cancels := h.cancels.append [c]
      opens := h.opens.append (List.getLast?_singleton) plain.opens_none
      aligned := h.aligned.concat fun closes => absurd closes plain.closes_none }

/-- A group is opened. -/
theorem Keeps.openGroup (h : session.Keeps size origin cache full out) (reliable : origin.Reliable) :
    ∃ location after, step .openGroup session = .ok (.position location) after
      ∧ after.groups = location :: session.groups
      ∧ after.Keeps size origin cache (full ++ [.push]) (out ++ [.push]) := by
  obtain ⟨writer, run, represents⟩ := h.represents.push.ok_of_reliable reliable
  refine ⟨(bytesOf out).length + 1, ⟨writer, ((bytesOf out).length + 1) :: session.groups⟩,
    bind_of_ok (onWriter_of_ok run session.groups) _, rfl, ?_⟩
  exact {
    represents := by
      rw [Command.bytesOf_append]
      exact represents
    lasting := lasting_concat h.lasting lasting_push
    cancels := h.cancels.append [.push]
    opens := h.opens.opens
    aligned := h.aligned.concat Command.noConfusion }

/-- The innermost group is closed: its `push` is taken back, or a `pop` is added. -/
theorem Keeps.closeGroup (h : session.Keeps size origin cache full out) (reliable : origin.Reliable)
    (groups : session.groups = location :: outer) :
    ∃ after kept, step .closeGroup session = .ok .done after
      ∧ after.groups = outer
      ∧ Continues out [.pop] kept
      ∧ after.Keeps size origin cache (full ++ [.pop]) kept := by
  have opens : OpenAt out (location :: outer) := groups ▸ h.opens
  have step_eq {writer : Writer} (run : Writer.bracketPop location session.writer = .ok () writer) :
      step .closeGroup session = .ok .done ⟨writer, outer⟩ := by
    obtain ⟨before, remembered⟩ := session
    cases groups
    exact bind_of_ok (onWriter_of_ok run outer) _
  -- A `push` is taken back only if it ends the stream away from the edges of the buffer.
  by_cases erasable : location = (bytesOf out).length ∧ (bytesOf out).length % size.bytes ≠ 0
  · rcases opens.innermost with ⟨before, rfl, -, outside⟩ | ⟨elsewhere, -⟩
    · have bytes : bytesOf (before ++ [.push]) = bytesOf before ++ [Opcode.push.toByte] :=
        Command.bytesOf_append _ _
      have takes : Draft.bracketPop size location ⟨bytesOf (before ++ [.push]), cache⟩
          = (.ok none, ⟨bytesOf before, cache⟩) := by
        rw [bytes] at erasable ⊢
        exact Draft.bracketPop_takes erasable.1 erasable.2
      obtain ⟨writer, run, represents⟩ := h.represents.closes reliable takes
      refine ⟨_, before, step_eq run, rfl, .takes rfl, ?_⟩
      exact {
        represents
        lasting := fun c member => h.lasting c (List.mem_append_left _ member)
        cancels := h.cancels.continues (.takes rfl)
        opens := outside
        aligned := h.aligned.front }
    · exact absurd erasable.1 elsewhere
  · have adds : Draft.bracketPop size location ⟨bytesOf out, cache⟩
        = (.ok none, ⟨bytesOf (out ++ [.pop]), cache⟩) := by
      rw [Command.bytesOf_append]
      exact Draft.bracketPop_adds erasable
    obtain ⟨writer, run, represents⟩ := h.represents.closes reliable adds
    refine ⟨_, out ++ [.pop], step_eq run, rfl, .adds _, ?_⟩
    exact {
      represents
      lasting := lasting_concat h.lasting lasting_pop
      cancels := h.cancels.append [.pop]
      opens := opens.closes
      -- A `push` just before would have been taken back, had the stream not ended at an edge.
      aligned := h.aligned.concat fun _ last => by
        rcases opens.innermost with ⟨before, -, here, -⟩ | ⟨-, other⟩
        · refine Nat.dvd_of_mod_eq_zero (Decidable.byContradiction fun inside => ?_)
          exact erasable ⟨here, inside⟩
        · exact absurd last other }

/-- A step that writes whole commands is taken if it finds a group to close, or closes none. -/
theorem Keeps.step (h : session.Keeps size origin cache full out) (reliable : origin.Reliable)
    {action : Action} (whole : action.Whole) (closes : action = .closeGroup → session.groups ≠ []) :
    ∃ outcome after kept, Session.step action session = .ok outcome after
      ∧ after.groups.length = action.depth session.groups.length
      ∧ Continues out (action.commands cache) kept
      ∧ after.Keeps size origin (action.remembered cache) (full ++ action.commands cache) kept := by
  cases action with
  | perform op =>
    obtain ⟨after, run, groups, keeps⟩ := h.perform reliable whole
    exact ⟨_, after, _, run, congrArg List.length groups, .adds _, keeps⟩
  | openGroup =>
    obtain ⟨location, after, run, groups, keeps⟩ := h.openGroup reliable
    exact ⟨_, after, _, run, congrArg List.length groups, .adds _, keeps⟩
  | closeGroup =>
    obtain ⟨location, outer, groups⟩ := List.exists_cons_of_ne_nil (closes rfl)
    obtain ⟨after, kept, run, left, goes, keeps⟩ := h.closeGroup reliable groups
    refine ⟨_, after, kept, run, ?_, goes, keeps⟩
    rw [left, groups]
    rfl

/-- A session that writes whole commands and closes all its groups comes to its end, and what it
asked for was written, except for groups that were taken back. -/
theorem Keeps.steps (h : session.Keeps size origin cache full out) (reliable : origin.Reliable)
    {actions : List Action} (whole : ∀ action ∈ actions, action.Whole)
    (balanced : Balanced session.groups.length actions) :
    ∃ after last kept, steps actions session = .ok () after
      ∧ after.groups = []
      ∧ after.Keeps size origin last (full ++ script cache actions) kept := by
  induction actions generalizing session cache full out with
  | nil =>
    refine ⟨session, cache, out, rfl, List.eq_nil_of_length_eq_zero balanced, ?_⟩
    rw [script, List.append_nil]
    exact h
  | cons action rest ih =>
    obtain ⟨closes, balanced⟩ := balanced.first
    have some (closing : action = .closeGroup) : session.groups ≠ [] := fun none =>
      closes closing (congrArg List.length none)
    obtain ⟨outcome, middle, kept, run, groups, -, keeps⟩ :=
      h.step reliable (whole action List.mem_cons_self) some
    have later : ∀ action ∈ rest, action.Whole := fun other member =>
      whole other (List.mem_cons_of_mem _ member)
    obtain ⟨after, last, kept, rest_run, groups, keeps⟩ := ih keeps later (groups ▸ balanced)
    refine ⟨after, last, kept, ?_, groups, ?_⟩
    · rw [Session.steps, bind_of_ok run, rest_run]
    · rw [script, ← List.append_assoc]
      exact keeps

end Session

end Dvi
