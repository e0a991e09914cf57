/-
# Dvi.Proofs.Machine.Execution — what a command does to a machine.

A trace reports what it does while it does it, in pieces, and its sink may fail with any of them. If
it takes them all, what is left of a command is whether the machine refuses it (`Machine.refusal?`) and,
if it does not, what becomes of the registers, the groups and the fonts (`Machine.execute`); neither
depends on what the sink has taken before. That a trace does just this is said once for each kind of
step and then for all commands, on any sink (`step_pieces`) and on a reliable one, which takes every
piece (`step_spec`); a replay is then a fold over the commands (`replay_spec`). What a command leaves
alone is said of machines, without a trace.
-/
import Dvi.Machine.Trace
import Dvi.Proofs.Sink
import Dvi.Proofs.Steps

namespace Dvi

namespace Command

/-- The font that a command defines. -/
def font? : Command → Option Font
  | fontDef _ font => some font
  | _ => none

/-- A command that begins a page or selects a font. -/
def Selects : Command → Prop
  | bop _ _ | fontNum _ | selectFont _ _ => True
  | _ => False

/-- A command that moves the position on the page. -/
def Moves : Command → Prop
  | setChar _ | set _ _ | setRule _ _ | move _ _ _ | again _ | space _ _ _ => True
  | _ => False

end Command

namespace Machine

/-- Why a machine does not make a font current, if it does not. -/
def undefined? (machine : Machine) (number : Int32) : Option RunError :=
  match machine.fonts.find? number with
  | none => some (.undefinedFont number)
  | some _ => none

/-- Why a machine refuses a command, if it does. -/
def refusal? (machine : Machine) : Command → Option RunError
  | .pop => if machine.depth = 0 then some .unbalancedPop else none
  | .fontNum number => machine.undefined? (Int32.ofNat number.toNat)
  | .selectFont _ number => machine.undefined? number
  | _ => none

/-- What a command does to a machine that does not refuse it. -/
def execute (machine : Machine) : Command → Machine
  | .pre _ units _ => machine.setUnits units
  | .bop _ _ => machine.beginPage
  | .push => machine.save
  | .pop => machine.restore
  | .setChar code =>
    machine.move .horizontal (machine.charWidth machine.currentFont (Int32.ofNat code.toNat))
  | .set _ code => machine.move .horizontal (machine.charWidth machine.currentFont code)
  | .setRule _ width => machine.move .horizontal width
  | .move axis _ amount => machine.move axis amount
  | .again spacing => machine.move spacing.axis (machine.registers.spacing spacing)
  | .space spacing _ amount => (machine.remember spacing amount).move spacing.axis amount
  | .fontNum number => machine.selectFont (Int32.ofNat number.toNat)
  | .selectFont _ number => machine.selectFont number
  | .fontDef _ font => machine.defineFont font
  | .eop | .nop | .put _ _ | .putRule _ _ | .special _ _ | .post _ | .postPost _ _ => machine

/-- The machine after a command. One that is refused changes nothing. -/
def after (machine : Machine) (c : Command) : Machine :=
  match machine.refusal? c with
  | none => machine.execute c
  | some _ => machine

variable {machine : Machine} {c : Command}

theorem after_of_accepts (h : machine.refusal? c = none) : machine.after c = machine.execute c := by
  rw [after, h]

theorem after_of_refuses {e : RunError} (h : machine.refusal? c = some e) :
    machine.after c = machine := by
  rw [after, h]

/-- What holds of a machine, and of what it makes of a command that it accepts, holds after the command. -/
theorem after_induction {motive : Machine → Prop}
    (accepts : machine.refusal? c = none → motive (machine.execute c)) (refuses : motive machine) :
    motive (machine.after c) := by
  cases decision : machine.refusal? c with
  | none =>
    rw [after_of_accepts decision]
    exact accepts decision
  | some e =>
    rw [after_of_refuses decision]
    exact refuses

/-- A font that is defined may be selected. -/
theorem undefined?_eq_none {number : Int32} (found : machine.fonts.find? number ≠ none) :
    machine.undefined? number = none := by
  rw [undefined?]
  split
  · next missing => exact absurd missing found
  · rfl

/-- Only a `pop` and the selection of a font are ever refused, the one where no group is open and the
other where the font is not defined. -/
theorem refusal?_eq_some {e : RunError} (h : machine.refusal? c = some e) :
    c = .pop ∧ machine.depth = 0 ∧ e = .unbalancedPop
      ∨ c.Selects ∧ ∃ number, machine.fonts.find? number = none ∧ e = .undefinedFont number := by
  have undefined {number : Int32} (h : machine.undefined? number = some e) :
      ∃ number, machine.fonts.find? number = none ∧ e = .undefinedFont number := by
    rw [undefined?] at h
    split at h
    · next missing =>
      cases h
      exact ⟨number, missing, rfl⟩
    · cases h
  cases c with
  | pop =>
    rw [refusal?] at h
    split at h
    · next none_open =>
      cases h
      exact .inl ⟨rfl, none_open, rfl⟩
    · cases h
  | fontNum | selectFont => exact .inr ⟨trivial, undefined h⟩
  | _ => cases h

theorem refusal?_of_not_selects (quiet : ¬c.Selects) (closes_none : c ≠ .pop) :
    machine.refusal? c = none := by
  cases decision : machine.refusal? c with
  | none => rfl
  | some e =>
    rcases refusal?_eq_some decision with ⟨closes, -⟩ | ⟨selects, -⟩
    · exact absurd closes closes_none
    · exact absurd selects quiet

/-- A machine refuses none of the commands, except for closings of groups. -/
def Accepts : Machine → List Command → Prop
  | _, [] => True
  | machine, c :: cs => (c ≠ .pop → machine.refusal? c = none) ∧ Accepts (machine.after c) cs

theorem accepts_singleton (h : c ≠ .pop → machine.refusal? c = none) : machine.Accepts [c] :=
  ⟨h, trivial⟩

theorem Accepts.append {before later : List Command} (h : machine.Accepts before)
    (hlater : (before.foldl after machine).Accepts later) : machine.Accepts (before ++ later) := by
  induction before generalizing machine with
  | nil => exact hlater
  | cons c before ih => exact ⟨h.1, ih h.2 hlater⟩

/-! ## What a command leaves alone -/

/-- Only a definition changes the table of fonts, and it adds one. -/
theorem fonts_after (machine : Machine) (c : Command) :
    (machine.after c).fonts = c.font?.elim machine.fonts machine.fonts.define := by
  cases decision : machine.refusal? c with
  | none =>
    rw [after_of_accepts decision]
    cases c <;> rfl
  | some e =>
    rw [after_of_refuses decision]
    cases c with
    | fontDef => cases decision
    | _ => rfl

/-- A font that is defined stays so. -/
theorem find?_after {number : Int32} (h : machine.fonts.find? number ≠ none) (c : Command) :
    (machine.after c).fonts.find? number ≠ none := by
  rw [fonts_after]
  cases c.font? with
  | none => exact h
  | some font =>
    show (machine.fonts.define font).find? number ≠ none
    rw [FontTable.find?_define]
    split
    · exact Option.some_ne_none font
    · exact h

theorem font_after (quiet : ¬c.Selects) : (machine.after c).font = machine.font := by
  refine after_induction (motive := fun last => last.font = machine.font) ?_ rfl
  intro _
  cases c with
  | bop | fontNum | selectFont => exact absurd trivial quiet
  | _ => rfl

/-- A command that does not move leaves the registers alone, except that a page begins with all of
them zero and closing a group brings saved ones back. -/
theorem registers_after (quiet : ¬c.Moves) (begins_none : ∀ counters prev, c ≠ .bop counters prev)
    (closes_none : c ≠ .pop) : (machine.after c).registers = machine.registers := by
  refine after_induction (motive := fun last => last.registers = machine.registers) ?_ rfl
  intro _
  cases c with
  | setChar | set | setRule | move | again | space => exact absurd trivial quiet
  | bop counters prev => exact absurd rfl (begins_none counters prev)
  | pop => exact absurd rfl closes_none
  | _ => rfl

end Machine

namespace Tracer

variable {α β : Type}

/-- From a machine, a step reports `pieces` one after the other, comes to `result` and leaves the machine
`last`. If the sink does not take one of the pieces, the step fails with it and reports nothing more;
what it has done to the machine by then is not said. -/
def Reports (step : RunM α) (machine : Machine) (pieces : List Bytes) (result : Except RunError α)
    (last : Machine) : Prop :=
  ∀ trace : Sink,
    match trace.writePieces pieces with
    | (none, after) => step ⟨machine, trace⟩ = match result with
      | .ok a => .ok a ⟨last, after⟩
      | .error e => .error e ⟨last, after⟩
    | (some e, after) => ∃ broken, step ⟨machine, trace⟩ = .error (.sink e) ⟨broken, after⟩

/-- The same of some pieces, where it does not matter which. -/
def Leaves (step : RunM α) (machine : Machine) (result : Except RunError α) (last : Machine) : Prop :=
  ∃ pieces, Reports step machine pieces result last

section Steps

variable {machine middle last : Machine} {step : RunM α} {next : α → RunM β} {pieces : List Bytes}

/-! ## Sequences of steps -/

theorem leaves_pure (a : α) (machine : Machine) : Leaves (pure a) machine (.ok a) machine :=
  ⟨[], fun _ => rfl⟩

theorem reports_throw (e : RunError) (machine : Machine) :
    Reports (throw e : RunM α) machine [] (.error e) machine :=
  fun _ => rfl

theorem leaves_update (f : Machine → Machine) (machine : Machine) :
    Leaves (update f) machine (.ok ()) (f machine) :=
  ⟨[], fun _ => rfl⟩

/-- A text is reported in one piece. -/
theorem leaves_say (text : String) (machine : Machine) :
    Leaves (say text) machine (.ok ()) machine := by
  refine ⟨[Utf8.encode text], ?_⟩
  intro trace
  rw [Sink.writePieces]
  rcases taken : trace.writeAll (Utf8.encode text) with ⟨_ | e, after⟩
  · show say text ⟨machine, trace⟩ = _
    rw [say, taken]
  · refine ⟨machine, ?_⟩
    rw [say, taken]

theorem leaves_sayLine (text : String) (machine : Machine) :
    Leaves (sayLine text) machine (.ok ()) machine :=
  leaves_say _ machine

/-- Two steps report their pieces one after the other. -/
theorem Leaves.andThen {a : α} {result : Except RunError β} (h : Leaves step machine (.ok a) middle)
    (hnext : Leaves (next a) middle result last) : Leaves (step >>= next) machine result last := by
  obtain ⟨first, reports⟩ := h
  obtain ⟨second, rest⟩ := hnext
  refine ⟨first ++ second, ?_⟩
  intro trace
  have run := reports trace
  rw [Sink.writePieces_append]
  rcases given : trace.writePieces first with ⟨_ | e, between⟩
  · rw [given] at run
    have goes := rest between
    simp only [bind_of_ok run]
    exact goes
  · rw [given] at run
    obtain ⟨broken, stops⟩ := run
    exact ⟨broken, bind_of_error stops next⟩

/-- After a step that fails nothing is reported. -/
theorem Reports.andThen_error {e : RunError} (h : Reports step machine pieces (.error e) last) :
    Reports (step >>= next) machine pieces (.error e) last := by
  intro trace
  have run := h trace
  rcases given : trace.writePieces pieces with ⟨_ | e, after⟩
  · rw [given] at run
    exact bind_of_error run next
  · rw [given] at run
    obtain ⟨broken, stops⟩ := run
    exact ⟨broken, bind_of_error stops next⟩

/-- A step may look at the machine. What it would see of the sink must not matter. -/
theorem Reports.reading {f : Tracer → RunM α} {result : Except RunError α}
    (same : ∀ trace, f ⟨machine, trace⟩ = f ⟨machine, .unbounded⟩)
    (h : Reports (f ⟨machine, .unbounded⟩) machine pieces result last) :
    Reports (get >>= f) machine pieces result last := by
  intro trace
  have run := h trace
  rw [← same trace] at run
  exact run

theorem Leaves.reading {f : Tracer → RunM α} {result : Except RunError α}
    (same : ∀ trace, f ⟨machine, trace⟩ = f ⟨machine, .unbounded⟩)
    (h : Leaves (f ⟨machine, .unbounded⟩) machine result last) :
    Leaves (get >>= f) machine result last := by
  obtain ⟨pieces, reports⟩ := h
  exact ⟨pieces, reports.reading same⟩

/-! ## Commands -/

theorem leaves_sayLevel (level : Nat) (machine : Machine) :
    Leaves (sayLevel level) machine (.ok ()) machine :=
  .reading (fun _ => rfl) (leaves_sayLine _ machine)

theorem leaves_travel (axis : Axis) (amount : Int32) (written : Int32 → String) (machine : Machine) :
    Leaves (travel axis amount written) machine (.ok ()) (machine.move axis amount) :=
  .reading (fun _ => rfl) <| (leaves_update _ machine).andThen <|
    .reading (fun _ => rfl) (leaves_sayLine _ _)

theorem leaves_advance (code : Int32) (machine : Machine) :
    Leaves (advance code) machine (.ok ())
      (machine.move .horizontal (machine.charWidth machine.currentFont code)) :=
  .reading (fun _ => rfl) (leaves_travel _ _ _ machine)

/-- The selection of a font that is defined makes it current. -/
theorem leaves_select_of_defined {number : Int32} (h : machine.undefined? number = none) :
    ∃ font, Leaves (select number) machine (.ok font) (machine.selectFont number) := by
  rw [Machine.undefined?] at h
  split at h
  · cases h
  · next font found =>
    refine ⟨font, .reading (fun _ => rfl) ?_⟩
    simp only [found]
    exact (leaves_update _ machine).andThen (leaves_pure font _)

/-- The selection of any other font is refused. -/
theorem reports_select_of_undefined {number : Int32} {e : RunError}
    (h : machine.undefined? number = some e) :
    Reports (select number) machine [] (.error e) machine := by
  rw [Machine.undefined?] at h
  split at h
  · next found =>
    cases h
    refine .reading (fun _ => rfl) ?_
    simp only [found]
    exact reports_throw _ machine
  · cases h

/-- A command that is accepted is executed. -/
theorem leaves_run_of_accepts {c : Command} (h : machine.refusal? c = none) :
    Leaves (run c) machine (.ok ()) (machine.execute c) := by
  cases c with
  | pre id units comment =>
    exact (leaves_sayLine _ machine).andThen <| (leaves_update _ machine).andThen <|
      .reading (fun _ => rfl) <| (leaves_sayLine _ _).andThen (leaves_sayLine _ _)
  | bop counters prev =>
    exact (leaves_update _ machine).andThen <| .reading (fun _ => rfl) (leaves_sayLine _ _)
  | push =>
    exact (leaves_sayLine _ machine).andThen <| (leaves_update _ machine).andThen <|
      .reading (fun _ => rfl) (leaves_sayLevel _ _)
  | pop =>
    have some : machine.depth ≠ 0 := fun none => by
      rw [Machine.refusal?, if_pos none] at h
      cases h
    refine .reading (fun _ => rfl) ?_
    rw [if_neg some]
    exact (leaves_sayLine _ machine).andThen <| (leaves_update _ machine).andThen <|
      .reading (fun _ => rfl) (leaves_sayLevel _ _)
  | setChar | set => exact (leaves_say _ machine).andThen (leaves_advance _ machine)
  | setRule | move => exact (leaves_say _ machine).andThen (leaves_travel _ _ _ machine)
  | again spacing =>
    exact (leaves_say _ machine).andThen <| .reading (fun _ => rfl) (leaves_travel _ _ _ machine)
  | space spacing size amount =>
    exact (leaves_update _ machine).andThen <| (leaves_say _ _).andThen (leaves_travel _ _ _ _)
  | fontNum | selectFont =>
    obtain ⟨font, selects⟩ := leaves_select_of_defined h
    exact selects.andThen (leaves_sayLine _ _)
  | fontDef size font => exact (leaves_sayLine _ machine).andThen (leaves_update _ machine)
  | eop | nop | put | putRule | special | post | postPost => exact leaves_sayLine _ machine

/-- A command that is refused reports nothing and leaves the machine as it is. -/
theorem reports_run_of_refuses {c : Command} {e : RunError} (h : machine.refusal? c = some e) :
    Reports (run c) machine [] (.error e) machine := by
  cases c with
  | pop =>
    rw [Machine.refusal?] at h
    split at h
    · next none =>
      cases h
      refine .reading (fun _ => rfl) ?_
      rw [if_pos none]
      exact (reports_throw _ machine).andThen_error
    · cases h
  | fontNum | selectFont => exact (reports_select_of_undefined h).andThen_error
  | _ => cases h

end Steps

/-! ## Replays -/

theorem step_of_ok {c : Command} {tracer after : Tracer} (h : run c tracer = .ok () after) :
    tracer.step c = (none, after) := by
  rw [Tracer.step, h]

theorem step_of_error {c : Command} {tracer after : Tracer} {e : RunError}
    (h : run c tracer = .error e after) : tracer.step c = (some e, after) := by
  rw [Tracer.step, h]

/-- Whether a command is refused, the machine after it and the pieces that it reports follow from the
machine, and it reports none if it is refused. On any sink it fails otherwise only with a piece that the
sink does not take. -/
theorem step_pieces (c : Command) (machine : Machine) :
    ∃ pieces, (machine.refusal? c ≠ none → pieces = []) ∧ ∀ trace : Sink,
      match trace.writePieces pieces with
      | (none, after) =>
        Tracer.step ⟨machine, trace⟩ c = (machine.refusal? c, ⟨machine.after c, after⟩)
      | (some e, after) =>
        ∃ broken, Tracer.step ⟨machine, trace⟩ c = (some (.sink e), ⟨broken, after⟩) := by
  cases decision : machine.refusal? c with
  | none =>
    obtain ⟨pieces, reports⟩ := leaves_run_of_accepts decision
    refine ⟨pieces, fun refused => absurd rfl refused, ?_⟩
    intro trace
    have run := reports trace
    rw [Machine.after_of_accepts decision]
    rcases given : trace.writePieces pieces with ⟨_ | e, after⟩
    · rw [given] at run
      exact step_of_ok run
    · rw [given] at run
      obtain ⟨broken, stops⟩ := run
      exact ⟨broken, step_of_error stops⟩
  | some e =>
    refine ⟨[], fun _ => rfl, ?_⟩
    intro trace
    rw [Machine.after_of_refuses decision]
    exact step_of_error (reports_run_of_refuses decision trace)

/-- On a reliable sink, whether a command is refused, the machine after it and what is reported follow
from the machine. -/
theorem step_spec (c : Command) (machine : Machine) :
    ∃ text, ∀ trace : Sink, trace.Reliable → ∃ after : Sink, after.Reliable
      ∧ after.record.octets.toList = trace.record.octets.toList ++ text
      ∧ Tracer.step ⟨machine, trace⟩ c = (machine.refusal? c, ⟨machine.after c, after⟩) := by
  obtain ⟨pieces, -, steps⟩ := step_pieces c machine
  refine ⟨pieces.flatten, ?_⟩
  intro trace reliable
  obtain ⟨after, run, stays, taken⟩ := reliable.writePieces pieces
  have step := steps trace
  rw [run] at step
  exact ⟨after, stays, taken, step⟩

/-- On a reliable sink a command comes to what the machine makes of it, and the sink stays reliable. -/
theorem step_of_reliable {tracer : Tracer} (reliable : tracer.trace.Reliable) (c : Command) :
    ∃ after : Sink, after.Reliable
      ∧ tracer.step c = (tracer.machine.refusal? c, ⟨tracer.machine.after c, after⟩) := by
  obtain ⟨text, reports⟩ := step_spec c tracer.machine
  obtain ⟨after, stays, -, step⟩ := reports tracer.trace reliable
  exact ⟨after, stays, step⟩

/-- A command that is refused changes nothing, not even the trace. -/
theorem step_of_refuses {machine : Machine} {c : Command} {e : RunError}
    (h : machine.refusal? c = some e) (trace : Sink) :
    Tracer.step ⟨machine, trace⟩ c = (some e, ⟨machine, trace⟩) :=
  step_of_error (reports_run_of_refuses h trace)

/-- On a reliable sink a command that fails is one that is refused. -/
theorem step_of_fails {tracer after : Tracer} {c : Command} {e : RunError}
    (reliable : tracer.trace.Reliable) (h : tracer.step c = (some e, after)) : after = tracer := by
  obtain ⟨trace, -, step⟩ := step_of_reliable reliable c
  rw [h] at step
  have refused : tracer.machine.refusal? c = some e := (congrArg Prod.fst step).symm
  have unchanged := step_of_refuses refused tracer.trace
  exact congrArg Prod.snd (h.symm.trans unchanged)

/-- A replay on a reliable sink takes the machine through the commands. -/
theorem replay_spec {tracer : Tracer} (reliable : tracer.trace.Reliable) (cs : List Command) :
    (tracer.replay cs).machine = cs.foldl Machine.after tracer.machine := by
  induction cs generalizing tracer with
  | nil => rfl
  | cons c cs ih =>
    obtain ⟨after, stays, step⟩ := step_of_reliable reliable c
    have rest : (Tracer.replay ⟨tracer.machine.after c, after⟩ cs).machine
        = cs.foldl Machine.after (tracer.machine.after c) := ih stays
    show (Tracer.replay (tracer.step c).2 cs).machine = _
    rw [step, rest, List.foldl_cons]

/-- A reliable sink stays so through a replay. -/
theorem reliable_replay {tracer : Tracer} (reliable : tracer.trace.Reliable) (cs : List Command) :
    (tracer.replay cs).trace.Reliable := by
  induction cs generalizing tracer with
  | nil => exact reliable
  | cons c cs ih =>
    obtain ⟨after, stays, step⟩ := step_of_reliable reliable c
    show (Tracer.replay (tracer.step c).2 cs).trace.Reliable
    rw [step]
    exact ih stays

/-- What comes of each command of a replay: why it failed, if it did, and the tracer after it. -/
def turns : Tracer → List Command → List (Option RunError × Tracer)
  | _, [] => []
  | tracer, c :: cs => tracer.step c :: turns (tracer.step c).2 cs

end Tracer

end Dvi
