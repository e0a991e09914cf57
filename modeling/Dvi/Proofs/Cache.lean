/-
# Dvi.Proofs.Cache — what a writer remembers is what a replay arrives at.

A writer remembers the current font and the position on the page, and does not select a font again
that is current. A machine that replays the output has a font and a position of its own, which it
resets, saves and changes by other rules. Between the steps of a session the two agree: the machine has
the font that is remembered, and finds every font that was defined, so that it refuses no selection
(`Agrees`); and as long as nothing moves but what the writer follows, it also stands where the writer
thinks it does (`Stands`). Each kind of step keeps both with respect to what it asked for, and a replay
of what was written arrives at the same machine (`cache_agrees_with_replay`).
-/
import Mathlib.Data.List.Induction
import Dvi.Proofs.Elision
import Dvi.Proofs.Writer.Attempts

namespace Dvi

open Command (bytesOf)

/-! ## Steps that a writer follows -/

/-- An operation whose effect on the font a writer follows: pages are begun and fonts are selected by
operations of their own, not as plain commands. -/
def Operation.Tracked : Operation → Prop
  | command c => c.Plain ∧ ¬c.Selects
  | fontDefinition _ _ _ _ _ _ | preamble _ _ => True
  | beginPage _ _ | moveRight _ | moveDown _ | selectFont _ | setChar _ => True
  | addPage | setFont _ | setH _ | setV _ => False
  | byte _ | word _ | signedWord _ | member _ _ | bracketPop _ | push => False

/-- An operation whose effect on the position a writer follows as well. It knows no widths of
characters, and plain commands pass it by. -/
def Operation.Still : Operation → Prop
  | command c => ¬c.Moves
  | setChar _ => False
  | _ => True

namespace Action

/-- A step whose effect on the font a writer follows. -/
def Tracked : Action → Prop
  | perform op => op.Tracked
  | openGroup | closeGroup => True

/-- A step whose effect on the position a writer follows as well. It opens no group, because closing
one would bring back the position before it. -/
def Still : Action → Prop
  | perform op => op.Still
  | openGroup => False
  | closeGroup => True

/-- A step that writes a definition of the font with a number. -/
def Defines (number : Int32) : Action → Prop
  | perform (.fontDefinition short _ _ _ area name) =>
    Int32.ofNat short.toNat = number ∧ area.length ≤ 255 ∧ name.length ≤ 255
  | perform (.command c) => ∃ font, c.font? = some font ∧ font.number = number
  | _ => False

end Action

variable {op : Operation} {action : Action} {number : Int32}

theorem Operation.Tracked.orderly (h : op.Tracked) : op.Orderly := by
  cases op with
  | command c => exact .inl h.1
  | fontDefinition => exact orderly_fontDefinition ..
  | preamble => exact orderly_preamble ..
  | beginPage | moveRight | moveDown | selectFont | setChar => exact .inl trivial
  | _ => exact h.elim

theorem Action.Tracked.orderly (h : action.Tracked) : action.Orderly := by
  cases action with
  | perform op => exact Operation.Tracked.orderly h
  | openGroup | closeGroup => trivial

/-- Only the beginning of a page is remembered of a plain command. -/
theorem Command.remembered_eq {c : Command} (quiet : ¬c.Selects) (cache : Cache) :
    c.remembered cache = cache := by
  cases c with
  | bop => exact absurd trivial quiet
  | _ => rfl

/-- The short form of a selection has the same number as the long one. -/
theorem ofNat_toUInt8 {number : UInt32} (small : number < 64) :
    Int32.ofNat number.toUInt8.toNat = number.toInt32 := by
  have bound : number.toNat < 64 := UInt32.lt_iff_toNat_lt.mp small
  rw [UInt32.toNat_toUInt8, Nat.mod_eq_of_lt (by omega), ← UInt32.toInt32_ofNat',
    UInt32.ofNat_toNat]

/-! ## Fonts -/

/-- What is remembered agrees with a machine after the steps `done`: the current font is the same, and
the machine finds it and every other font that was defined. -/
structure Agrees (cache : Cache) (machine : Machine) (done : List Action) : Prop where
  font_eq : machine.font = cache.font.map UInt32.toInt32
  known : ∀ earlier ∈ done, ∀ number, earlier.Defines number → machine.fonts.find? number ≠ none
  found : ∀ number, machine.font = some number → machine.fonts.find? number ≠ none

variable {cache next : Cache} {machine : Machine} {done : List Action} {session : Session}
  {c : Command}

/-- A step that writes nothing, and defines nothing. -/
theorem Agrees.idle (h : Agrees cache machine done) (same : next.font = cache.font)
    (defines_none : ∀ number, ¬action.Defines number) : Agrees next machine (done ++ [action]) where
  font_eq := same ▸ h.font_eq
  known earlier member number defines := by
    rcases List.mem_append.mp member with before | here
    · exact h.known earlier before number defines
    · rw [List.mem_singleton.mp here] at defines
      exact absurd defines (defines_none number)
  found := h.found

/-- A step that writes one command, with what this does to the fonts of the machine. -/
theorem Agrees.execute (h : Agrees cache machine done)
    (defines : ∀ number, action.Defines number → ∃ font, c.font? = some font ∧ font.number = number)
    (font_eq : (machine.after c).font = next.font.map UInt32.toInt32)
    (found : ∀ number, (machine.after c).font = some number → machine.fonts.find? number ≠ none) :
    Agrees next (machine.after c) (done ++ [action]) where
  font_eq
  known earlier member number defined := by
    rcases List.mem_append.mp member with before | here
    · exact Machine.find?_after (h.known earlier before number defined) c
    · rw [List.mem_singleton.mp here] at defined
      obtain ⟨font, written, rfl⟩ := defines number defined
      rw [Machine.fonts_after, written]
      show (machine.fonts.define font).find? font.number ≠ none
      rw [FontTable.find?_define, if_pos rfl]
      exact Option.some_ne_none font
  found number current := Machine.find?_after (found number current) c

/-- A step that writes one command which leaves the current font alone. -/
theorem Agrees.quiet (h : Agrees cache machine done) (quiet : ¬c.Selects)
    (same : next.font = cache.font)
    (defines : ∀ number, action.Defines number → ∃ font, c.font? = some font ∧ font.number = number) :
    machine.Accepts [c] ∧ Agrees next (machine.after c) (done ++ [action]) := by
  have stays : (machine.after c).font = machine.font := Machine.font_after quiet
  refine ⟨Machine.accepts_singleton (Machine.refusal?_of_not_selects quiet), h.execute defines ?_ ?_⟩
  · rw [stays, same]
    exact h.font_eq
  · intro number current
    exact h.found number (stays ▸ current)

/-- A step that selects a font which was defined. -/
theorem Agrees.select (h : Agrees cache machine done) {font : UInt32}
    (found : machine.fonts.find? font.toInt32 ≠ none) (accepts : machine.refusal? c = none)
    (selects : machine.execute c = machine.selectFont font.toInt32)
    (defines_none : ∀ number, ¬action.Defines number) :
    machine.Accepts [c]
      ∧ Agrees { cache with font := some font } (machine.after c) (done ++ [action]) := by
  have moves : machine.after c = machine.selectFont font.toInt32 :=
    (Machine.after_of_accepts accepts).trans selects
  refine ⟨Machine.accepts_singleton fun _ => accepts, h.execute ?_ ?_ ?_⟩
  · intro number defines
    exact absurd defines (defines_none number)
  · rw [moves]
    rfl
  · intro number current
    rw [moves] at current
    cases current
    exact found

/-- An operation that is not refused keeps the fonts in agreement. -/
theorem Agrees.perform (h : Agrees cache machine done) (tracked : op.Tracked)
    (defined : ∀ font, op = .selectFont font → ∃ earlier ∈ done, earlier.Defines font.toInt32) :
    machine.Accepts (op.command? cache).toList
      ∧ Agrees (op.remembered cache) ((op.command? cache).toList.foldl Machine.after machine)
          (done ++ [.perform op]) := by
  cases op with
  | command c =>
    have same : c.remembered cache = cache := Command.remembered_eq tracked.2 cache
    exact h.quiet tracked.2 (congrArg Cache.font same) fun number => id
  | fontDefinition short checksum scale designSize area name =>
    refine h.quiet (c := .fontDef _ _) id rfl ?_
    rintro number ⟨same, -, -⟩
    exact ⟨_, rfl, same⟩
  | beginPage counters prev =>
    refine ⟨Machine.accepts_singleton (c := .bop counters prev) fun _ => rfl,
      h.execute (c := .bop counters prev) (fun number => False.elim) rfl ?_⟩
    intro number current
    cases current
  | selectFont font =>
    obtain ⟨earlier, member, defines⟩ := defined font rfl
    have found := h.known earlier member _ defines
    rw [Operation.command?]
    split
    · next current =>
      -- The font is current already, so nothing is written.
      exact ⟨trivial, h.idle current.symm fun number => id⟩
    · split
      · next small =>
        refine h.select found ?_ ?_ fun number => id
        · rw [Machine.refusal?, ofNat_toUInt8 small, Machine.undefined?_eq_none found]
        · rw [Machine.execute, ofNat_toUInt8 small]
      · exact h.select found (Machine.undefined?_eq_none found) rfl fun number => id
  | setChar code =>
    rw [Operation.command?]
    split
    · exact h.quiet (c := .setChar code.toUInt8) id rfl fun number => False.elim
    · exact h.quiet (c := .set (.ofUnsigned code) code.toInt32) id rfl fun number => False.elim
  | moveRight d | moveDown d =>
    exact h.quiet (c := .move _ (.ofSigned d) d) id rfl fun number => False.elim
  | preamble mag comment => exact h.quiet (c := .pre _ _ comment) id rfl fun number => False.elim
  | _ => exact tracked.elim

/-- What is refused defines no font. -/
theorem not_defines_of_refused (tracked : op.Tracked) (refused : op.Refused) :
    ¬(Action.perform op).Defines number := by
  intro defines
  cases op with
  | command c =>
    obtain ⟨v, violates⟩ := refused
    rw [tracked.1.encodes] at violates
    cases violates
  | fontDefinition short checksum scale designSize area name =>
    obtain ⟨-, area_fits, name_fits⟩ := defines
    rw [Operation.Refused] at refused
    omega
  | _ => exact defines.elim

/-- A step of a session keeps the fonts in agreement: the machine refuses nothing that the step asks
for, except for a group to be closed. -/
theorem Agrees.attempt (h : Agrees session.writer.cache machine done) (tracked : action.Tracked)
    (defined : ∀ font, action = .perform (.selectFont font) →
      ∃ earlier ∈ done, earlier.Defines font.toInt32) :
    machine.Accepts (session.asked action)
      ∧ Agrees (action.remembered session.writer.cache)
          ((session.asked action).foldl Machine.after machine) (done ++ [action]) := by
  cases action with
  | perform op =>
    rcases session.asked_cases (Operation.Tracked.orderly tracked) with asks | ⟨refused, asks⟩
    · rw [asks]
      exact h.perform tracked fun font same => defined font (congrArg Action.perform same)
    · rw [asks]
      refine ⟨trivial, h.idle ?_ fun number => not_defines_of_refused tracked refused⟩
      rw [Action.remembered, refused.remembered_eq]
  | openGroup => exact h.quiet (c := .push) id rfl fun number => False.elim
  | closeGroup =>
    rw [Session.asked]
    split
    · exact ⟨trivial, h.idle rfl fun number => id⟩
    · exact h.quiet (c := .pop) id rfl fun number => False.elim

/-- The current font of the machine is the one that is remembered. -/
theorem Agrees.currentFont (h : Agrees cache machine done) :
    machine.currentFont.map Font.number = cache.font.map UInt32.toInt32 := by
  rw [← h.font_eq, Machine.currentFont]
  cases current : machine.font with
  | none => rfl
  | some number =>
    obtain ⟨font, found⟩ := Option.ne_none_iff_exists'.mp (h.found number current)
    rw [Option.bind_some, found, Option.map_some, FontTable.number_of_find? found]

/-! ## Positions -/

/-- The machine stands where the writer remembers to stand. -/
structure Stands (cache : Cache) (machine : Machine) : Prop where
  h_eq : machine.registers.h = cache.h
  v_eq : machine.registers.v = cache.v

/-- A command that changes no register leaves machine and writer where they stand. -/
theorem Stands.quiet (h : Stands cache machine) (stays : (machine.after c).registers = machine.registers)
    (h_eq : next.h = cache.h) (v_eq : next.v = cache.v) : Stands next (machine.after c) :=
  ⟨by rw [stays, h_eq, h.h_eq], by rw [stays, v_eq, h.v_eq]⟩

/-- An operation that is not refused moves the machine as the writer remembers. -/
theorem Stands.perform (h : Stands cache machine) (tracked : op.Tracked) (still : op.Still) :
    Stands (op.remembered cache) ((op.command? cache).toList.foldl Machine.after machine) := by
  cases op with
  | command c =>
    have same : c.remembered cache = cache := Command.remembered_eq tracked.2 cache
    have stays : (machine.after c).registers = machine.registers := by
      refine Machine.registers_after still ?_ tracked.1.closes_none
      rintro counters prev rfl
      exact tracked.2 trivial
    exact h.quiet stays (congrArg Cache.h same) (congrArg Cache.v same)
  | fontDefinition short checksum scale designSize area name =>
    exact h.quiet (c := .fontDef .one _) rfl rfl rfl
  | preamble mag comment => exact h.quiet (c := .pre Writer.formatId _ comment) rfl rfl rfl
  | beginPage counters prev => exact ⟨rfl, rfl⟩
  | moveRight d => exact ⟨congrArg (· + d) h.h_eq, h.v_eq⟩
  | moveDown d => exact ⟨h.h_eq, congrArg (· + d) h.v_eq⟩
  | selectFont font =>
    rw [Operation.command?]
    split
    · exact ⟨h.h_eq, h.v_eq⟩
    · split
      all_goals
        refine h.quiet (Machine.registers_after id ?_ ?_) rfl rfl
        · exact fun _ _ => Command.noConfusion
        · exact Command.noConfusion
  | setChar => exact still.elim
  | _ => exact tracked.elim

/-- Without an open group, such a step opens none. -/
theorem Action.Still.depth_zero (still : action.Still) : action.depth 0 = 0 := by
  cases action with
  | perform | closeGroup => rfl
  | openGroup => exact still.elim

/-- A step that is followed moves the machine as the writer remembers, when no group is open. -/
theorem Stands.attempt (h : Stands session.writer.cache machine) (tracked : action.Tracked)
    (still : action.Still) (outside : session.groups = []) :
    Stands (action.remembered session.writer.cache)
      ((session.asked action).foldl Machine.after machine) := by
  cases action with
  | perform op =>
    rcases session.asked_cases (Operation.Tracked.orderly tracked) with asks | ⟨refused, asks⟩
    · rw [asks]
      exact h.perform tracked still
    · rw [asks, Action.remembered, refused.remembered_eq]
      exact h
  | openGroup => exact still.elim
  | closeGroup =>
    rw [Session.asked, if_pos outside]
    exact h

/-! ## Sessions -/

variable {size : BufferSize} {origin : Sink} {full out : List Command} {actions : List Action}

/-- Every font that a session selects was defined by an earlier step. -/
def DefinesFirst (actions : List Action) : Prop :=
  ∀ before font after, actions = before ++ .perform (.selectFont font) :: after →
    ∃ earlier ∈ before, earlier.Defines font.toInt32

theorem DefinesFirst.front {before after : List Action} (h : DefinesFirst (before ++ after)) :
    DefinesFirst before := by
  rintro earlier font later rfl
  exact h earlier font (later ++ after) (List.append_assoc ..)

/-- A session keeps the fonts in agreement. -/
theorem Agrees.attemptAll (h : Agrees session.writer.cache machine [])
    (keeps : session.Keeps size origin cache full out) (reliable : origin.Reliable)
    (tracked : ∀ action ∈ actions, action.Tracked) (defined : DefinesFirst actions) :
    machine.Accepts (session.askedAll actions)
      ∧ Agrees (session.attemptAll actions).writer.cache
          ((session.askedAll actions).foldl Machine.after machine) actions := by
  -- By its last step, since what may be selected there depends on all the steps before.
  induction actions using List.reverseRecOn with
  | nil => exact ⟨trivial, h⟩
  | append_singleton actions action ih =>
    have earlier : ∀ other ∈ actions, other.Tracked := fun other member =>
      tracked other (List.mem_append_left _ member)
    have last : action.Tracked := tracked action List.mem_concat_self
    obtain ⟨accepts, agrees⟩ := ih earlier defined.front
    obtain ⟨kept, keeps⟩ := keeps.attemptAll reliable fun other member =>
      (earlier other member).orderly
    obtain ⟨later, agrees⟩ := agrees.attempt last fun font same => by
      subst same
      exact defined actions font [] rfl
    rw [Session.askedAll_concat, Session.attemptAll_concat, keeps.cache_attempt reliable last.orderly,
      List.foldl_append]
    exact ⟨accepts.append later, agrees⟩

/-- A session that only moves as the writer follows keeps machine and writer together, and opens no
group. -/
theorem Stands.attemptAll (h : Stands session.writer.cache machine) (outside : session.groups = [])
    (keeps : session.Keeps size origin cache full out) (reliable : origin.Reliable)
    (tracked : ∀ action ∈ actions, action.Tracked) (still : ∀ action ∈ actions, action.Still) :
    (session.attemptAll actions).groups = []
      ∧ Stands (session.attemptAll actions).writer.cache
          ((session.askedAll actions).foldl Machine.after machine) := by
  induction actions generalizing session machine cache full out with
  | nil => exact ⟨outside, h⟩
  | cons action rest ih =>
    have first : action.Tracked := tracked action List.mem_cons_self
    have stays : action.Still := still action List.mem_cons_self
    have stands := h.attempt first stays outside
    rw [← keeps.cache_attempt reliable first.orderly] at stands
    obtain ⟨kept, -, keeps, groups⟩ := keeps.attempt reliable first.orderly
    have outside : (session.attempt action).groups = [] := by
      rw [outside] at groups
      exact List.eq_nil_of_length_eq_zero (groups.trans stays.depth_zero)
    rw [Session.askedAll, List.foldl_append]
    exact ih stands outside keeps (fun other member => tracked other (List.mem_cons_of_mem _ member))
      fun other member => still other (List.mem_cons_of_mem _ member)

/-- What a writer remembers is what a replay of its output arrives at. After any number of steps of a
session that defines a font before it selects it, what was written so far is read without an error, and
a replay of it refuses none of the commands that are no brackets of groups. The machine has the font
that the writer remembers, if any, and finds its definition. If nothing moved but what the writer
follows, and no group was opened, the machine also stands where the writer remembers to stand. -/
theorem cache_agrees_with_replay (size : BufferSize) (sink : Sink) (reliable : sink.Reliable)
    (actions : List Action) (tracked : ∀ action ∈ actions, action.Tracked)
    (defined : DefinesFirst actions) (done : List Action) (front : done <+: actions)
    (resolution : Float) (charWidth : CharWidth) (trace : Sink) (traced : trace.Reliable) :
    let writer := (Session.attemptAll ⟨Writer.new sink size, []⟩ done).writer
    ∃ finished output, Writer.finish writer = .ok () finished
      ∧ finished.sink.record.octets.toList = sink.record.octets.toList ++ output
      ∧ let reading := Reader.readAll (.ofBytes output)
        let kept := reading.entries.map Entry.command
        let tracer : Tracer := ⟨{ resolution, charWidth }, trace⟩
        let machine := (tracer.replay kept).machine
        reading.error? = none
          ∧ (∀ seen ∈ tracer.observe kept, seen.refusal? = none)
          ∧ machine.font = writer.cache.font.map UInt32.toInt32
          ∧ machine.currentFont.map Font.number = writer.cache.font.map UInt32.toInt32
          ∧ ((∀ action ∈ done, action.Still) →
              machine.registers.h = writer.cache.h ∧ machine.registers.v = writer.cache.v) := by
  obtain ⟨rest, rfl⟩ := front
  have followed : ∀ action ∈ done, action.Tracked := fun action member =>
    tracked action (List.mem_append_left rest member)
  have orderly : ∀ action ∈ done, action.Orderly := fun action member =>
    (followed action member).orderly
  have fresh := Session.keeps_new size sink
  let start : Machine := { resolution, charWidth }
  obtain ⟨out, keeps⟩ := fresh.attemptAll reliable orderly
  obtain ⟨⟨finished, ends, taken⟩, sound, -, kept_eq⟩ := keeps.reading reliable
  -- The writer asked for commands on which it agrees with a machine, and wrote some of them.
  have begins : Agrees {} start [] := ⟨rfl, fun _ => nofun, fun _ => nofun⟩
  obtain ⟨accepts, agrees⟩ := begins.attemptAll fresh reliable followed defined.front
  have alike : Tracer.Alike ⟨start, trace⟩ ⟨start, trace⟩ := ⟨rfl, traced, traced⟩
  obtain ⟨shown, alike⟩ := alike.observe_cancels keeps.cancels
  have arrives : (Tracer.replay ⟨start, trace⟩ out).machine
      = (Session.askedAll ⟨Writer.new sink size, []⟩ done).foldl Machine.after start :=
    alike.machine_eq.symm.trans (Tracer.replay_spec traced _)
  refine ⟨finished, bytesOf out, ends, taken, ?_⟩
  dsimp only
  rw [kept_eq, arrives]
  refine ⟨sound, ?_, agrees.font_eq, agrees.currentFont, fun still => ?_⟩
  · rw [← shown]
    exact Tracer.observe_accepts traced accepts
  · have stands : Stands {} start := ⟨rfl, rfl⟩
    obtain ⟨-, stands⟩ := stands.attemptAll rfl fresh reliable followed still
    exact ⟨stands.h_eq, stands.v_eq⟩

/-- A font that is selected twice on one page and again on the next, where the position starts over,
before a group is opened. -/
theorem cache_agrees_with_replay_on_a_second_page :
    let definition : Action := .perform (.fontDefinition 7 0 0 0 [] [99])
    let page (prev : Int32) : Action := .perform (.beginPage (.replicate 10 0) prev)
    let select : Action := .perform (.selectFont 7)
    let done : List Action := [definition, page (-1), select, select, .perform (.moveRight 300),
      page 18, select, .perform (.moveDown (-5))]
    let actions := done ++ [.openGroup, .perform (.setChar 200), .closeGroup]
    Sink.unbounded.Reliable ∧ (∀ action ∈ actions, action.Tracked) ∧ DefinesFirst actions
      ∧ done <+: actions ∧ (∀ action ∈ done, action.Still)
      ∧ ∃ finished output,
        Writer.finish (Session.attemptAll ⟨Writer.new .unbounded ⟨4, Nat.le_refl 4⟩, []⟩ done).writer
            = .ok () finished
          ∧ finished.sink.record.octets.toList = output
          ∧ let reading := Reader.readAll (.ofBytes output)
            let machine :=
              (Tracer.replay ⟨{}, .unbounded⟩ (reading.entries.map Entry.command)).machine
            reading.error? = none ∧ machine.font = some 7
              ∧ machine.currentFont.map Font.number = some 7
              ∧ machine.registers.h = 0 ∧ machine.registers.v = -5 := by
  intro definition page select done actions
  have tracked : ∀ action ∈ actions, action.Tracked := by
    simp [actions, done, definition, page, select, Action.Tracked, Operation.Tracked]
  have still : ∀ action ∈ done, action.Still := by
    simp [done, definition, page, select, Action.Still, Operation.Still]
  have defined : DefinesFirst actions := by
    intro before font after split
    have selected : Action.perform (.selectFont font) ∈ actions := by
      rw [split]
      exact List.mem_append_right _ List.mem_cons_self
    have seven : font = 7 := by
      simpa [actions, done, definition, page, select] using selected
    -- The first step is the definition, so any selection comes after it.
    cases before with
    | nil => exact Operation.noConfusion (Action.perform.inj (List.cons.inj split).1)
    | cons first rest =>
      have head : definition = first := (List.cons.inj split).1
      rw [seven, ← head]
      exact ⟨definition, List.mem_cons_self, rfl, by decide, by decide⟩
  have front : done <+: actions := List.prefix_append ..
  have remembered : (Session.attemptAll ⟨Writer.new .unbounded ⟨4, Nat.le_refl 4⟩, []⟩ done).writer.cache
      = { pages := 2, font := some 7, h := 0, v := -5 } := by
    obtain ⟨kept, keeps⟩ := (Session.keeps_new _ _).attemptAll Sink.reliable_unbounded
      fun action member => (tracked action (List.mem_append_left _ member)).orderly
    rw [keeps.cache_eq]
    decide
  obtain ⟨finished, output, ends, taken, sound, -, font, current, stands⟩ :=
    cache_agrees_with_replay ⟨4, Nat.le_refl 4⟩ .unbounded Sink.reliable_unbounded actions tracked
      defined done front standardResolution CharWidth.ofCode .unbounded Sink.reliable_unbounded
  obtain ⟨h, v⟩ := stands still
  rw [remembered] at font current h v
  exact ⟨Sink.reliable_unbounded, tracked, defined, front, still, finished, output, ends, taken, sound,
    font, current, h, v⟩

end Dvi
