/-
# Dvi.Proofs.Machine.History — what a machine owes to the commands before.

The groups that are open, the number of the page, the fonts that are defined and the one that is selected
are told from the log of a replay alone: the commands in order, each with whether it was refused. Two spans
of the log matter. The fonts and the number of the page come from all of it; the groups and the selection
come from the part since the last page began (`Log.page`), because a page begins with none. Each of these
is a law about one more command at the end of the log, and `Machine.history_induction` makes of it a law
about every run. The main statements are `groups_follow_brackets` and `fonts_follow_definitions`.
-/
import Dvi.Proofs.Machine.Frame
import Mathlib.Data.List.DropRight
import Mathlib.Data.List.Induction

namespace Dvi

/-- Commands with what came of them: why each of them was refused, if it was. -/
abbrev Log := List (Command × Option RunError)

namespace Command

/-- Whether a command begins a page. -/
def beginsPage : Command → Bool
  | bop _ _ => true
  | _ => false

/-- The last definition of a font number among commands. -/
def lastDefinition (cs : List Command) (number : Int32) : Option Font :=
  ((cs.filterMap font?).filter fun font => font.number = number).getLast?

theorem beginsPage_eq_false {c : Command} (h : c.beginsPage = false) :
    ∀ counters prev, c ≠ bop counters prev := by
  rintro counters prev rfl
  cases h

/-- There is no last definition exactly if no command defines the number, in whatever width. -/
theorem lastDefinition_eq_none_iff {cs : List Command} {number : Int32} :
    lastDefinition cs number = none ↔ ∀ size font, .fontDef size font ∈ cs → font.number ≠ number := by
  simp only [lastDefinition, List.getLast?_eq_none_iff, List.filter_eq_nil_iff, List.mem_filterMap,
    decide_eq_true_eq]
  constructor
  · intro undefined size font member
    exact undefined font ⟨_, member, rfl⟩
  · rintro undefined font ⟨c, member, defines⟩
    cases c with
    | fontDef size other =>
      cases defines
      exact undefined size _ member
    | _ => cases defines

end Command

namespace Log

/-- The part of a log since the last page began. -/
def page (log : Log) : Log :=
  log.rtakeWhile fun turn => !turn.1.beginsPage

/-- How many groups were opened. -/
def opened (log : Log) : Nat :=
  log.countP fun turn => turn.1 = .push

/-- How many groups were closed: a `pop` that is refused closes none. -/
def closed (log : Log) : Nat :=
  log.count (.pop, none)

/-- The fonts that were selected, in order: a selection that is refused does not count. -/
def selections (log : Log) : List Int32 :=
  log.filterMap fun
    | (c, none) => c.selected?
    | (_, some _) => none

@[simp] theorem opened_append (before later : Log) :
    opened (before ++ later) = opened before + opened later :=
  List.countP_append

@[simp] theorem closed_append (before later : Log) :
    closed (before ++ later) = closed before + closed later :=
  List.count_append

@[simp] theorem selections_append (before later : Log) :
    selections (before ++ later) = selections before ++ selections later :=
  List.filterMap_append

theorem page_concat_of_begins {c : Command} (h : c.beginsPage = true) (log : Log)
    (result : Option RunError) : page (log ++ [(c, result)]) = [] := by
  simp [page, h]

theorem page_concat {c : Command} (h : c.beginsPage = false) (log : Log) (result : Option RunError) :
    page (log ++ [(c, result)]) = page log ++ [(c, result)] := by
  simp [page, h]

end Log

namespace Machine

variable {machine start : Machine} {c : Command}

/-- What comes of some commands. -/
def log (machine : Machine) (cs : List Command) : Log :=
  cs.zip (machine.refusals cs)

theorem length_refusals (machine : Machine) (cs : List Command) :
    (machine.refusals cs).length = cs.length := by
  induction cs generalizing machine with
  | nil => rfl
  | cons c cs ih => simp [refusals, ih]

theorem log_concat (machine : Machine) (cs : List Command) (c : Command) :
    machine.log (cs ++ [c]) = machine.log cs ++ [(c, (cs.foldl after machine).refusal? c)] := by
  rw [log, refusals_append, List.zip_append (machine.length_refusals cs).symm]
  rfl

/-- Induction along a run: what holds at the start, and is kept by one more command at the end of the log,
holds after every run. -/
theorem history_induction {motive : List Command → Log → Machine → Prop} (nil : motive [] [] start)
    (concat : ∀ cs log machine c, motive cs log machine →
      motive (cs ++ [c]) (log ++ [(c, machine.refusal? c)]) (machine.after c))
    (cs : List Command) : motive cs (start.log cs) (cs.foldl after start) := by
  induction cs using List.reverseRecOn with
  | nil => exact nil
  | append_singleton cs c ih =>
    rw [log_concat, List.foldl_concat]
    exact concat _ _ _ c ih

/-! ## Groups and pages -/

/-- The register stack: the levels that groups have saved, and the registers in use on top of them. -/
def levels (machine : Machine) : Array Registers :=
  machine.saved.push machine.registers

/-- The beginning of a page is never refused. -/
theorem after_of_begins (h : c.beginsPage = true) : machine.after c = machine.beginPage := by
  cases c with
  | bop counters prev => rfl
  | _ => cases h

/-- A group is closed unless none is open. -/
theorem refusal?_pop (machine : Machine) :
    machine.refusal? .pop = if machine.depth = 0 then some .unbalancedPop else none := rfl

/-- Within a page, the groups that a command opens and closes are accounted for. -/
theorem depth_after (machine : Machine) (within : c.beginsPage = false) :
    (machine.after c).depth + Log.closed [(c, machine.refusal? c)] =
      machine.depth + Log.opened [(c, machine.refusal? c)] := by
  by_cases opening : c = .push
  · subst opening
    rw [after_of_accepts rfl]
    simp [depth, execute, save, Log.opened, Log.closed]
  · by_cases closing : c = .pop
    · subst closing
      by_cases none_open : machine.depth = 0
      · have refused : machine.refusal? .pop = some .unbalancedPop := by
          rw [refusal?_pop, if_pos none_open]
        rw [after_of_refuses refused, refused]
        simp [Log.opened, Log.closed]
      · have accepted : machine.refusal? .pop = none := by
          rw [refusal?_pop, if_neg none_open]
        rw [after_of_accepts accepted, accepted]
        have fewer : machine.restore.depth = machine.depth - 1 := Array.size_pop ..
        show machine.restore.depth + Log.closed _ = _
        rw [fewer]
        simp [Log.opened, Log.closed]
        omega
    · have same : (machine.after c).saved = machine.saved :=
        saved_after opening closing (Command.beginsPage_eq_false within)
      simp [depth, same, Log.opened, Log.closed, opening, closing]

/-- The groups that are open are those that were opened since the page began and not closed. -/
theorem depth_history (fresh : start.depth = 0) (cs : List Command) :
    (cs.foldl after start).depth + (start.log cs).page.closed = (start.log cs).page.opened := by
  refine history_induction
    (motive := fun _ log machine => machine.depth + log.page.closed = log.page.opened) ?_ ?_ cs
  · simpa [Log.page, Log.closed, Log.opened] using fresh
  · intro _ log machine c ih
    cases begins : c.beginsPage with
    | true =>
      rw [Log.page_concat_of_begins begins, after_of_begins begins]
      rfl
    | false =>
      have step := depth_after machine begins
      rw [Log.page_concat begins, Log.closed_append, Log.opened_append]
      omega

/-- The number of the page is how many have begun. -/
theorem page_history (fresh : start.page = 0) (cs : List Command) :
    (cs.foldl after start).page = cs.countP Command.beginsPage := by
  refine history_induction
    (motive := fun cs _ machine => machine.page = cs.countP Command.beginsPage) fresh ?_ cs
  intro cs _ machine c ih
  rw [List.countP_append]
  cases begins : c.beginsPage with
  | true =>
    rw [after_of_begins begins]
    simp [beginPage, ih, begins]
  | false =>
    rw [page_after (Command.beginsPage_eq_false begins)]
    simp [ih, begins]

/-! ## Fonts -/

/-- A font number stands for its last definition. -/
theorem fonts_history (fresh : start.fonts = []) (cs : List Command) (number : Int32) :
    (cs.foldl after start).fonts.find? number = Command.lastDefinition cs number := by
  rw [fonts_foldl_after, FontTable.find?_foldl_define, fresh]
  exact Option.or_none

/-- The selected font is the last one that was selected since the page began. -/
theorem font_history (fresh : start.font = none) (cs : List Command) :
    (cs.foldl after start).font = (start.log cs).page.selections.getLast? := by
  refine history_induction
    (motive := fun _ log machine => machine.font = log.page.selections.getLast?) fresh ?_ cs
  intro _ log machine c ih
  cases begins : c.beginsPage with
  | true =>
    rw [Log.page_concat_of_begins begins, after_of_begins begins]
    rfl
  | false =>
    have step : (machine.after c).font =
        ((Command.selections [c] [machine.refusal? c]).getLast?).or machine.font :=
      font_after_eq (Command.beginsPage_eq_false begins)
    rw [step, Log.page_concat begins, Log.selections_append, List.getLast?_append, ih]
    rfl

/-- A selection is refused exactly if the number is not defined. -/
theorem refusal?_of_selects {number : Int32} (selects : c.selected? = some number) :
    machine.refusal? c = machine.undefined? number := by
  cases c with
  | fontNum | selectFont =>
    cases selects
    rfl
  | _ => cases selects

end Machine

namespace Tracer

/-- What comes of the commands of a replay. -/
def log (tracer : Tracer) (cs : List Command) : Log :=
  cs.zip ((tracer.turns cs).map Prod.fst)

theorem log_spec {tracer : Tracer} (reliable : tracer.trace.Reliable) (cs : List Command) :
    tracer.log cs = tracer.machine.log cs := by
  rw [log, turns_spec reliable]
  rfl

/-- On a reliable sink a command is refused or not as the machine has it; a refusal leaves the machine and
the trace alone. -/
theorem step_spec_of_reliable {tracer : Tracer} (reliable : tracer.trace.Reliable) (c : Command) :
    (tracer.step c).1 = tracer.machine.refusal? c
      ∧ (tracer.step c).2.machine = tracer.machine.after c
      ∧ ∀ e, tracer.machine.refusal? c = some e → tracer.step c = (some e, tracer) := by
  obtain ⟨after, -, step⟩ := step_of_reliable reliable c
  refine ⟨by rw [step], by rw [step], ?_⟩
  intro e refused
  exact step_of_refuses refused tracer.trace

/-- After any commands the groups and the number of the page are told from the log. The register stack has
one level more than there are open groups, and these are the groups that were opened since the last page
began and not closed by a `pop` that succeeded. That the stack is never empty holds for every machine, by the
way a machine is made: the registers in use are a field of their own beside those that are saved, so `levels`
has a top whatever was saved. What a `pop` could run out of are the levels that are saved, and it takes none
where there is none: it fails exactly if no group is open, and no other command fails for this reason; it
then changes neither the machine nor the trace. As many pages have begun as commands say so. A page begins
with no group open, all registers zero and no font selected, whatever groups were open before. -/
theorem groups_follow_brackets (resolution : Float) (charWidth : CharWidth) {sink : Sink}
    (reliable : sink.Reliable) (cs : List Command) :
    let start : Tracer := ⟨{ resolution, charWidth }, sink⟩
    let now := start.replay cs
    let page := (start.log cs).page
    now.machine.levels ≠ #[] ∧ now.machine.levels.size = now.machine.depth + 1
      ∧ page.closed ≤ page.opened ∧ now.machine.depth = page.opened - page.closed
      ∧ now.machine.page = cs.countP Command.beginsPage
      ∧ (∀ c, (now.step c).1 = some .unbalancedPop ↔ c = .pop ∧ now.machine.depth = 0)
      ∧ (∀ c, (now.step c).1 = some .unbalancedPop → (now.step c).2 = now)
      ∧ ∀ counters prev,
          let begun := (now.step (.bop counters prev)).2.machine
          begun.depth = 0 ∧ begun.registers = {} ∧ begun.font = none := by
  intro start now page
  have machine : now.machine = cs.foldl Machine.after start.machine := replay_spec reliable cs
  have stays : now.trace.Reliable := reliable_replay reliable cs
  have depth : now.machine.depth + page.closed = page.opened := by
    rw [machine]
    show _ + (start.log cs).page.closed = (start.log cs).page.opened
    rw [log_spec reliable]
    exact Machine.depth_history rfl cs
  refine ⟨?_, Array.size_push .., by omega, by omega, ?_, ?_, ?_, ?_⟩
  · exact Array.push_ne_empty
  · rw [machine]
    exact Machine.page_history rfl cs
  · intro c
    rw [(step_spec_of_reliable stays c).1]
    constructor
    · intro refused
      rcases Machine.refusal?_eq_some refused with ⟨closes, none_open, -⟩ | ⟨-, number, -, other⟩
      · exact ⟨closes, none_open⟩
      · cases other
    · rintro ⟨rfl, none_open⟩
      rw [Machine.refusal?_pop, if_pos none_open]
  · intro c fails
    obtain ⟨result, -, unchanged⟩ := step_spec_of_reliable stays c
    rw [result] at fails
    rw [unchanged _ fails]
  · intro counters prev begun
    have begins : begun = now.machine.beginPage := (step_spec_of_reliable stays (.bop counters prev)).2.1
    rw [begins]
    exact ⟨rfl, rfl, rfl⟩

/-- A `pop` fails after another one, does not count, and fails again on the next page although the page
before has left a group open. -/
theorem groups_follow_brackets_over_a_page_break :
    let start : Tracer := ⟨{}, .unbounded⟩
    let bop : Command := .bop (.replicate 10 0) (-1)
    let cs : List Command := [.push, .pop, .pop, .push, .push, bop, .pop, .push,
      .move .horizontal .one 7, .push, .pop]
    let now := start.replay cs
    Sink.unbounded.Reliable
      ∧ (start.log cs).page.map Prod.snd = [some .unbalancedPop, none, none, none, none]
      ∧ now.machine.depth = 1 ∧ now.machine.page = 1
      ∧ (now.step .pop).1 ≠ some .unbalancedPop := by
  intro start bop cs now
  have reliable : Sink.unbounded.Reliable := Sink.reliable_unbounded
  obtain ⟨-, -, -, depth, page, fails, -⟩ :=
    groups_follow_brackets standardResolution .ofCode reliable cs
  have log : (start.log cs).page = [(.pop, some .unbalancedPop), (.push, none),
      (.move .horizontal .one 7, none), (.push, none), (.pop, none)] := by
    rw [log_spec reliable]
    decide +kernel
  change now.machine.depth = (start.log cs).page.opened - (start.log cs).page.closed at depth
  rw [log] at depth
  have one : now.machine.depth = 1 := depth.trans (by decide)
  refine ⟨reliable, ?_, one, ?_, ?_⟩
  · rw [log]
    rfl
  · rw [page]
    rfl
  · rw [Ne, fails, one]
    simp

/-- After any commands the fonts are told from the log. A font number stands for its last definition among
all commands. The selection of a number fails exactly if no command has defined it, and then changes neither
the machine nor the trace; otherwise it succeeds. The font in use is what the number that was selected last
since the page began stands for now, so a later definition of it takes effect at once; if no selection has
succeeded since the page began, there is none. -/
theorem fonts_follow_definitions (resolution : Float) (charWidth : CharWidth) {sink : Sink}
    (reliable : sink.Reliable) (cs : List Command) (number : Int32) :
    let start : Tracer := ⟨{ resolution, charWidth }, sink⟩
    let now := start.replay cs
    let undefined := ∀ size font, .fontDef size font ∈ cs → font.number ≠ number
    now.machine.fonts.find? number = Command.lastDefinition cs number
      ∧ (∀ c, c.selected? = some number → undefined → now.step c = (some (.undefinedFont number), now))
      ∧ (∀ c, c.selected? = some number → ¬undefined → (now.step c).1 = none)
      ∧ now.machine.currentFont =
          (start.log cs).page.selections.getLast?.bind (Command.lastDefinition cs) := by
  intro start now undefined
  have machine : now.machine = cs.foldl Machine.after start.machine := replay_spec reliable cs
  have stays : now.trace.Reliable := reliable_replay reliable cs
  have fonts : ∀ n, now.machine.fonts.find? n = Command.lastDefinition cs n := by
    intro n
    rw [machine]
    exact Machine.fonts_history rfl cs n
  have unknown : undefined ↔ now.machine.fonts.find? number = none := by
    rw [fonts, Command.lastDefinition_eq_none_iff]
  refine ⟨fonts number, ?_, ?_, ?_⟩
  · intro c selects missing
    apply (step_spec_of_reliable stays c).2.2
    rw [Machine.refusal?_of_selects selects, Machine.undefined?, unknown.mp missing]
  · intro c selects defined
    rw [(step_spec_of_reliable stays c).1, Machine.refusal?_of_selects selects]
    exact Machine.undefined?_eq_none fun missing => defined (unknown.mpr missing)
  · have font : now.machine.font = (start.log cs).page.selections.getLast? := by
      rw [machine, log_spec reliable]
      exact Machine.font_history rfl cs
    rw [Machine.currentFont, font, funext fonts]

/-- A font is defined in a group and selected there, a selection fails, and another definition of the
number follows after the group. -/
theorem fonts_follow_definitions_into_a_group :
    let first : Font := { number := 9, checksum := 0, scale := 1, designSize := 1, area := [], name := [99] }
    let second : Font := { first with name := [100] }
    let start : Tracer := ⟨{}, .unbounded⟩
    let cs : List Command := [.push, .fontDef .one first, .fontNum 9, .selectFont .one 4, .pop,
      .fontDef .four second]
    let now := start.replay cs
    Sink.unbounded.Reliable
      ∧ now.machine.fonts.find? 9 = some second
      ∧ now.machine.currentFont = some second
      ∧ now.step (.selectFont .two 4) = (some (.undefinedFont 4), now) := by
  intro first second start cs now
  have reliable : Sink.unbounded.Reliable := Sink.reliable_unbounded
  obtain ⟨nine, -, -, current⟩ := fonts_follow_definitions standardResolution .ofCode reliable cs 9
  obtain ⟨-, fails, -⟩ := fonts_follow_definitions standardResolution .ofCode reliable cs 4
  change now.machine.currentFont = (start.log cs).page.selections.getLast?.bind _ at current
  rw [log_spec reliable] at current
  refine ⟨reliable, ?_, ?_, ?_⟩
  · rw [nine]
    decide
  · rw [current]
    decide +kernel
  · apply fails
    · rfl
    · intro size font member
      simp [cs] at member
      rcases member with ⟨-, rfl⟩ | ⟨-, rfl⟩ <;> decide

end Tracer

end Dvi
