/-
# Dvi.Proofs.Writer.Attempts — sessions that go on after refusals.

A session need not close its groups, may ask for what cannot be encoded, and may try to close a group
when none is open. On a reliable sink it goes on whatever comes of a step: a step that is refused, or
that finds nothing to close, leaves all as it was, and any other one does what `Session.Keeps` says of
it. So after every such session the stream consists of the commands that were accepted
(`Session.askedAll`), less groups that were closed with nothing inside (`Session.Keeps.attemptAll`).
-/
import Dvi.Proofs.Writer.Groups

namespace Dvi

namespace Operation

/-- An operation that is short for a command without an encoding. -/
def Refused : Operation → Prop
  | command c => ∃ v, c.violation? = some v
  | fontDefinition _ _ _ _ area name => 255 < area.length ∨ 255 < name.length
  | preamble _ comment => 255 < comment.length
  | _ => False

/-- An operation that writes one whole command and no bracket of a group, or nothing at all. -/
def Orderly (op : Operation) : Prop :=
  op.Whole ∨ op.Refused

variable {op : Operation}

theorem Refused.violation (h : op.Refused) (cache : Cache) :
    ∃ c v, op.command? cache = some c ∧ c.violation? = some v := by
  cases op with
  | command c =>
    obtain ⟨v, violates⟩ := h
    exact ⟨c, v, rfl, violates⟩
  | fontDefinition number checksum scale designSize area name =>
    -- If both strings are too long, the area is what is reported.
    by_cases long : 255 < area.length
    · exact ⟨_, _, rfl, if_pos long⟩
    · exact ⟨_, _, rfl, (if_neg long).trans (if_pos (h.resolve_left long))⟩
  | preamble mag comment => exact ⟨_, _, rfl, if_neg (Nat.not_le.mpr h)⟩
  | _ => exact h.elim

/-- A font definition is refused or writes one whole command, whatever its arguments. -/
theorem orderly_fontDefinition (number : UInt8) (checksum : UInt32) (scale designSize : Int32)
    (area name : Bytes) : (fontDefinition number checksum scale designSize area name).Orderly := by
  by_cases fits : area.length ≤ 255 ∧ name.length ≤ 255
  · exact .inl fits
  · refine .inr ?_
    rw [Refused]
    omega

theorem orderly_preamble (mag : UInt32) (comment : Bytes) : (preamble mag comment).Orderly := by
  rcases Nat.lt_or_ge 255 comment.length with long | fits
  · exact .inr long
  · exact .inl fits

/-- What is refused is not remembered either. -/
theorem Refused.remembered_eq (h : op.Refused) (cache : Cache) : op.remembered cache = cache := by
  cases op with
  | command c =>
    obtain ⟨v, violates⟩ := h
    cases c with
    | bop => cases violates
    | _ => rfl
  | fontDefinition | preamble => rfl
  | _ => exact h.elim

end Operation

namespace Action

/-- A step that writes whole commands, or nothing. -/
def Orderly : Action → Prop
  | perform op => op.Orderly
  | openGroup | closeGroup => True

end Action

namespace Session

/-- Takes a step and goes on, whatever comes of it. -/
def attempt (session : Session) (action : Action) : Session :=
  match step action session with
  | .ok _ after | .error _ after => after

/-- Takes steps in order, going on after those that fail. -/
def attemptAll (session : Session) (actions : List Action) : Session :=
  actions.foldl attempt session

/-- The commands that a step adds to those that were asked for before it: none if it is refused, or
if it finds no group to close. -/
def asked (session : Session) : Action → List Command
  | .perform op => (op.command? session.writer.cache).toList.filter (·.violation?.isNone)
  | .openGroup => [.push]
  | .closeGroup => if session.groups = [] then [] else [.pop]

/-- The commands that a session asks for, with the brackets of every group. -/
def askedAll (session : Session) : List Action → List Command
  | [] => []
  | action :: rest => session.asked action ++ (session.attempt action).askedAll rest

variable {session : Session} {size : BufferSize} {origin : Sink} {cache : Cache}
  {full out : List Command}

theorem Keeps.cache_eq (h : session.Keeps size origin cache full out) :
    session.writer.cache = cache :=
  h.represents.cache_eq

theorem attempt_of_ok {action : Action} {outcome : Outcome} {after : Session}
    (h : step action session = .ok outcome after) : session.attempt action = after := by
  rw [attempt, h]

theorem attempt_of_error {action : Action} {e : WriteError} {after : Session}
    (h : step action session = .error e after) : session.attempt action = after := by
  rw [attempt, h]

theorem asked_of_whole {action : Action} (whole : action.Whole)
    (closes : action = .closeGroup → session.groups ≠ []) :
    session.asked action = action.commands session.writer.cache := by
  cases action with
  | perform op =>
    refine List.filter_eq_self.mpr fun c member => ?_
    rw [(Operation.Whole.plain whole (Option.mem_toList.mp member)).encodes]
    rfl
  | openGroup => rfl
  | closeGroup => exact if_neg (closes rfl)

theorem asked_of_refused {op : Operation} (refused : op.Refused) :
    session.asked (.perform op) = [] := by
  obtain ⟨c, v, short, violates⟩ := refused.violation session.writer.cache
  rw [asked, short, Option.toList_some]
  exact List.filter_cons_of_neg (by rw [violates]; exact Bool.false_ne_true)

/-- An operation asks for what it is short for, unless it is refused. -/
theorem asked_cases (session : Session) {op : Operation} (orderly : op.Orderly) :
    session.asked (.perform op) = (op.command? session.writer.cache).toList
      ∨ op.Refused ∧ session.asked (.perform op) = [] := by
  rcases orderly with whole | refused
  · exact .inl (asked_of_whole whole nofun)
  · exact .inr ⟨refused, asked_of_refused refused⟩

/-- An operation that is refused leaves the session as it is. -/
theorem attempt_of_refused {op : Operation} (refused : op.Refused) :
    session.attempt (.perform op) = session := by
  obtain ⟨c, v, short, violates⟩ := refused.violation session.writer.cache
  have run : op.perform session.writer = .error (.violation v) session.writer := by
    rw [Operation.refusable short violates]
    exact bind_of_error (Writer.command_refused violates session.writer) _
  have stops : onWriter op.perform session = .error (.violation v) session := by
    rw [onWriter, run]
  exact attempt_of_error (bind_of_error stops _)

/-- A step that writes whole commands, and finds a group if it closes one. -/
theorem Keeps.attempt_of_whole (h : session.Keeps size origin cache full out)
    (reliable : origin.Reliable) {action : Action} (whole : action.Whole)
    (closes : action = .closeGroup → session.groups ≠ []) :
    ∃ kept, Continues out (session.asked action) kept
      ∧ (session.attempt action).Keeps size origin (action.remembered cache)
          (full ++ session.asked action) kept
      ∧ (session.attempt action).groups.length = action.depth session.groups.length := by
  obtain ⟨outcome, after, kept, run, groups, goes, keeps⟩ := h.step reliable whole closes
  rw [attempt_of_ok run, asked_of_whole whole closes, h.cache_eq]
  exact ⟨kept, goes, keeps, groups⟩

/-- Whatever comes of a step, the session goes on from what it keeps to. -/
theorem Keeps.attempt (h : session.Keeps size origin cache full out) (reliable : origin.Reliable)
    {action : Action} (orderly : action.Orderly) :
    ∃ kept, Continues out (session.asked action) kept
      ∧ (session.attempt action).Keeps size origin (action.remembered cache)
          (full ++ session.asked action) kept
      ∧ (session.attempt action).groups.length = action.depth session.groups.length := by
  have nothing : Continues out [] out := by
    simpa using (Continues.adds [] : Continues out [] (out ++ []))
  cases action with
  | perform op =>
    rcases orderly with whole | refused
    · exact h.attempt_of_whole reliable whole nofun
    · rw [attempt_of_refused refused, asked_of_refused refused, List.append_nil, Action.remembered,
        refused.remembered_eq]
      exact ⟨out, nothing, h, rfl⟩
  | openGroup => exact h.attempt_of_whole reliable trivial nofun
  | closeGroup =>
    by_cases groups : session.groups = []
    · have run : Session.step .closeGroup session = .ok .nothingOpen session := by
        obtain ⟨writer, remembered⟩ := session
        cases groups
        rfl
      rw [attempt_of_ok run, asked, if_pos groups, List.append_nil, groups]
      exact ⟨out, nothing, h, rfl⟩
    · exact h.attempt_of_whole reliable trivial fun _ => groups

/-- What is remembered after a step follows from what was remembered before it. -/
theorem Keeps.cache_attempt (h : session.Keeps size origin cache full out)
    (reliable : origin.Reliable) {action : Action} (orderly : action.Orderly) :
    (session.attempt action).writer.cache = action.remembered session.writer.cache := by
  obtain ⟨kept, -, keeps, -⟩ := h.attempt reliable orderly
  rw [keeps.cache_eq, h.cache_eq]

/-! ## Whole sessions -/

theorem attemptAll_concat (session : Session) (actions : List Action) (action : Action) :
    session.attemptAll (actions ++ [action]) = (session.attemptAll actions).attempt action :=
  List.foldl_append

theorem askedAll_concat (session : Session) (actions : List Action) (action : Action) :
    session.askedAll (actions ++ [action]) =
      session.askedAll actions ++ (session.attemptAll actions).asked action := by
  induction actions generalizing session with
  | nil => exact List.append_nil _
  | cons first rest ih =>
    rw [List.cons_append, askedAll, askedAll, ih, List.append_assoc]
    rfl

/-- What a whole session asked for was written, except for refused steps and for groups that were
taken back. -/
theorem Keeps.attemptAll (h : session.Keeps size origin cache full out) (reliable : origin.Reliable)
    {actions : List Action} (orderly : ∀ action ∈ actions, action.Orderly) :
    ∃ kept, (session.attemptAll actions).Keeps size origin (actions.foldl Action.remembered cache)
      (full ++ session.askedAll actions) kept := by
  induction actions generalizing session cache full out with
  | nil => exact ⟨out, by rwa [askedAll, List.append_nil]⟩
  | cons action rest ih =>
    obtain ⟨kept, -, keeps, -⟩ := h.attempt reliable (orderly action List.mem_cons_self)
    have later : ∀ other ∈ rest, other.Orderly := fun other member =>
      orderly other (List.mem_cons_of_mem _ member)
    rw [askedAll, ← List.append_assoc]
    exact ih keeps later

end Session

end Dvi
