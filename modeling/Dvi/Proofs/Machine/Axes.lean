/-
# Dvi.Proofs.Machine.Axes — the two directions of a page do not interfere.

Of the six registers three belong to each direction: the position and the two movements that are
remembered. A command that moves does so in one direction, by an amount that is its operand, one of the
registers of this direction or the width of a character, and a width comes from the fonts, which have no
direction. So what is seen along one axis (`Machine.view`) is not touched by a command that moves along the
other one (`Machine.after_across`), and what any command makes of it follows from it alone
(`Machine.SameAlong.after`). Hence commands across an axis can be left out of a run, wherever they stand
and however many of them, and every other command comes to the same and is followed by the same view
(`Machine.seen_filter`). The main statement is `axes_do_not_interfere`.
-/
import Dvi.Proofs.Machine.History

namespace Dvi

/-- The other direction. -/
def Axis.other : Axis → Axis
  | horizontal => vertical
  | vertical => horizontal

/-- The direction in which a command moves, if it moves. -/
def Command.axis? : Command → Option Axis
  | setChar _ | set _ _ | setRule _ _ => some .horizontal
  | move axis _ _ => some axis
  | again spacing | space spacing _ _ => some spacing.axis
  | _ => none

/-! ## Registers of one direction -/

/-- The registers of one direction. -/
structure Strand where
  position : Int32
  /-- The movements that are remembered, in the order of their letters. -/
  spacings : Int32 × Int32
deriving DecidableEq

namespace Registers

/-- The registers of a direction: `h`, `w` and `x`, or `v`, `y` and `z`. -/
def along (registers : Registers) : Axis → Strand
  | .horizontal => ⟨registers.h, registers.w, registers.x⟩
  | .vertical => ⟨registers.v, registers.y, registers.z⟩

variable {one two : Registers} {axis : Axis} {spacing : Spacing}

/-- The registers of both directions are all registers. -/
theorem eq_of_along (same : ∀ axis, one.along axis = two.along axis) : one = two := by
  have horizontal := same .horizontal
  have vertical := same .vertical
  cases one
  cases two
  simp_all [along]

theorem along_move_other (registers : Registers) (amount : Int32) (axis : Axis) :
    (registers.move amount axis.other).along axis = registers.along axis := by
  cases axis <;> rfl

theorem along_remember_of_ne (registers : Registers) (amount : Int32)
    (across : spacing.axis = axis.other) :
    (registers.remember amount spacing).along axis = registers.along axis := by
  cases axis <;> cases spacing <;> first | rfl | cases across

theorem along_move (same : one.along axis = two.along axis) (amount : Int32) :
    (one.move amount axis).along axis = (two.move amount axis).along axis := by
  cases axis <;> simp_all [along, move]

theorem along_remember (same : one.along spacing.axis = two.along spacing.axis) (amount : Int32) :
    (one.remember amount spacing).along spacing.axis
      = (two.remember amount spacing).along spacing.axis := by
  cases spacing <;> simp_all [along, remember, Spacing.axis]

/-- A remembered movement belongs to its direction. -/
theorem spacing_eq (same : one.along spacing.axis = two.along spacing.axis) :
    one.spacing spacing = two.spacing spacing := by
  cases spacing <;> simp_all [along, Registers.spacing, Spacing.axis]

end Registers

namespace Machine

/-! ## What is seen along an axis -/

/-- What is seen of a machine along an axis. -/
structure View where
  /-- The registers of the axis in every level, those in use last. -/
  levels : Array Strand
  depth : Nat
  page : Nat
  font : Option Int32
  fonts : FontTable
deriving DecidableEq

/-- The view of a machine along an axis. -/
def view (machine : Machine) (axis : Axis) : View where
  levels := machine.levels.map (·.along axis)
  depth := machine.depth
  page := machine.page
  font := machine.font
  fonts := machine.fonts

/-- Two machines that are the same along an axis, and measure characters in the same way. -/
structure SameAlong (axis : Axis) (one two : Machine) : Prop where
  registers_eq : one.registers.along axis = two.registers.along axis
  saved_eq : one.saved.map (·.along axis) = two.saved.map (·.along axis)
  page_eq : one.page = two.page
  font_eq : one.font = two.font
  fonts_eq : one.fonts = two.fonts
  charWidth_eq : one.charWidth = two.charWidth

variable {axis : Axis} {machine one two three : Machine} {c : Command}

theorem SameAlong.refl (machine : Machine) : SameAlong axis machine machine :=
  ⟨rfl, rfl, rfl, rfl, rfl, rfl⟩

theorem SameAlong.symm (h : SameAlong axis one two) : SameAlong axis two one :=
  ⟨h.registers_eq.symm, h.saved_eq.symm, h.page_eq.symm, h.font_eq.symm, h.fonts_eq.symm,
    h.charWidth_eq.symm⟩

theorem SameAlong.trans (h : SameAlong axis one two) (next : SameAlong axis two three) :
    SameAlong axis one three :=
  ⟨h.registers_eq.trans next.registers_eq, h.saved_eq.trans next.saved_eq,
    h.page_eq.trans next.page_eq, h.font_eq.trans next.font_eq, h.fonts_eq.trans next.fonts_eq,
    h.charWidth_eq.trans next.charWidth_eq⟩

theorem SameAlong.depth_eq (h : SameAlong axis one two) : one.depth = two.depth := by
  simpa [depth] using congrArg Array.size h.saved_eq

theorem SameAlong.currentFont_eq (h : SameAlong axis one two) : one.currentFont = two.currentFont := by
  rw [currentFont, currentFont, h.font_eq, h.fonts_eq]

theorem SameAlong.view_eq (h : SameAlong axis one two) : one.view axis = two.view axis := by
  rw [view, view, levels, levels, Array.map_push, Array.map_push, h.saved_eq, h.registers_eq, h.depth_eq,
    h.page_eq, h.font_eq, h.fonts_eq]

/-- Machines that are the same along both axes have the same registers in every level. -/
theorem levels_eq_of_sameAlong (same : ∀ axis, SameAlong axis one two) :
    one.registers = two.registers ∧ one.saved = two.saved := by
  refine ⟨Registers.eq_of_along fun axis => (same axis).registers_eq, ?_⟩
  have size : one.saved.size = two.saved.size := (same .horizontal).depth_eq
  refine Array.ext size fun i inside alsoInside => ?_
  apply Registers.eq_of_along
  intro axis
  simpa [inside, alsoInside] using congrArg (·[i]?) (same axis).saved_eq

/-! ## One command -/

/-- A command that moves is never refused. -/
theorem refusal?_of_axis {direction : Axis} (moves : c.axis? = some direction) :
    machine.refusal? c = none := by
  cases c <;> first | rfl | cases moves

/-- To move along an axis leaves nothing to see across it. -/
theorem sameAlong_move_other (machine : Machine) (amount : Int32) :
    SameAlong axis (machine.move axis.other amount) machine :=
  { SameAlong.refl machine with
    registers_eq := machine.registers.along_move_other amount axis }

/-- A command that moves in the other direction is not seen. -/
theorem after_across (machine : Machine) (across : c.axis? = some axis.other) :
    SameAlong axis (machine.after c) machine := by
  rw [after_of_accepts (refusal?_of_axis across)]
  cases c with
  | setChar | set | setRule | move | again =>
    rw [Command.axis?, Option.some.injEq] at across
    simp only [execute, across]
    exact machine.sameAlong_move_other _
  | space spacing size amount =>
    have across : spacing.axis = axis.other := Option.some.inj across
    have remembered : SameAlong axis (machine.remember spacing amount) machine :=
      { SameAlong.refl machine with
        registers_eq := machine.registers.along_remember_of_ne amount across }
    simp only [execute, across]
    exact (sameAlong_move_other _ amount).trans remembered
  | _ => cases across

/-- Whether a command is refused is seen along any axis. -/
theorem SameAlong.refusal?_eq (h : SameAlong axis one two) (c : Command) :
    one.refusal? c = two.refusal? c := by
  cases c with
  | pop => rw [refusal?_pop, refusal?_pop, h.depth_eq]
  | fontNum | selectFont =>
    simp only [refusal?, undefined?, h.fonts_eq]
  | _ => rfl

/-- To move by the same amount, where the machines are the same. -/
theorem SameAlong.move (h : SameAlong axis one two) (amount : Int32) :
    SameAlong axis (one.move axis amount) (two.move axis amount) :=
  { h with registers_eq := Registers.along_move h.registers_eq amount }

/-- A level that is closed brings back registers that were the same when it was opened. -/
theorem SameAlong.restore (h : SameAlong axis one two) : SameAlong axis one.restore two.restore where
  registers_eq := by
    have last : (one.saved.back?).map (·.along axis) = (two.saved.back?).map (·.along axis) := by
      simpa using congrArg Array.back? h.saved_eq
    show (one.saved.back?.getD one.registers).along axis = (two.saved.back?.getD two.registers).along axis
    cases first : one.saved.back? with
    | none =>
      cases second : two.saved.back? with
      | none => exact h.registers_eq
      | some registers => simp [first, second] at last
    | some registers =>
      cases second : two.saved.back? with
      | none => simp [first, second] at last
      | some others => simpa [first, second] using last
  saved_eq := by simpa [Machine.restore] using congrArg Array.pop h.saved_eq
  page_eq := h.page_eq
  font_eq := h.font_eq
  fonts_eq := h.fonts_eq
  charWidth_eq := h.charWidth_eq

/-- What an accepted command makes of what is seen along its own axis, or of all else if it does not move,
follows from what is seen. -/
theorem SameAlong.execute (h : SameAlong axis one two)
    (along : ∀ direction ∈ c.axis?, direction = axis) :
    SameAlong axis (one.execute c) (two.execute c) := by
  cases c with
  | setChar | set =>
    cases along _ rfl
    simp only [Machine.execute, h.charWidth_eq, h.currentFont_eq]
    exact h.move _
  | setRule | move =>
    cases along _ rfl
    exact h.move _
  | again spacing =>
    cases along _ rfl
    have amount : one.registers.spacing spacing = two.registers.spacing spacing :=
      Registers.spacing_eq h.registers_eq
    simp only [Machine.execute, amount]
    exact h.move _
  | space spacing size amount =>
    cases along _ rfl
    have remembered : SameAlong spacing.axis (one.remember spacing amount) (two.remember spacing amount) :=
      { h with registers_eq := Registers.along_remember h.registers_eq amount }
    exact remembered.move amount
  | bop =>
    exact { h with
      registers_eq := rfl
      saved_eq := rfl
      page_eq := congrArg (· + 1) h.page_eq
      font_eq := rfl }
  | push =>
    exact { h with
      saved_eq := by
        show (one.saved.push one.registers).map _ = (two.saved.push two.registers).map _
        rw [Array.map_push, Array.map_push, h.saved_eq, h.registers_eq] }
  | pop => exact h.restore
  | fontNum | selectFont => exact { h with font_eq := rfl }
  | fontDef size font => exact { h with fonts_eq := congrArg (FontTable.define · font) h.fonts_eq }
  | pre | eop | nop | put | putRule | special | post | postPost => exact { h with }

/-- What is seen along an axis after a command follows from what was seen before it. -/
theorem SameAlong.after (h : SameAlong axis one two) (c : Command) :
    SameAlong axis (one.after c) (two.after c) := by
  by_cases along : ∀ direction ∈ c.axis?, direction = axis
  · have same := h.refusal?_eq c
    cases decision : two.refusal? c with
    | none =>
      rw [after_of_accepts (same.trans decision), after_of_accepts decision]
      exact h.execute along
    | some e =>
      rw [after_of_refuses (same.trans decision), after_of_refuses decision]
      exact h
  · -- Across the axis the amounts may differ, but neither of the two movements is seen.
    have across : c.axis? = some axis.other := by
      simp only [not_forall] at along
      obtain ⟨direction, moves, other⟩ := along
      rw [Option.mem_def.mp moves]
      cases direction <;> cases axis <;> first | rfl | exact absurd rfl other
    exact ((one.after_across across).trans h).trans (two.after_across across).symm

theorem SameAlong.foldl_after (h : SameAlong axis one two) (cs : List Command) :
    SameAlong axis (cs.foldl Machine.after one) (cs.foldl Machine.after two) := by
  induction cs generalizing one two with
  | nil => exact h
  | cons c cs ih => exact ih (h.after c)

/-! ## Runs -/

/-- What is seen along an axis when commands are executed: whether each command that is marked was refused,
and the view after it. -/
def seen (axis : Axis) : Machine → List (Command × Bool) → List (Option RunError × View)
  | _, [] => []
  | machine, (c, marked) :: rest =>
    let later := seen axis (machine.after c) rest
    if marked then (machine.refusal? c, (machine.after c).view axis) :: later else later

/-- If all commands without a mark move in the other direction, they can as well be left out. -/
theorem SameAlong.seen_filter (h : SameAlong axis one two) {marked : List (Command × Bool)}
    (across : ∀ c, (c, false) ∈ marked → c.axis? = some axis.other) :
    one.seen axis marked = two.seen axis (marked.filter Prod.snd) := by
  induction marked generalizing one two with
  | nil => rfl
  | cons turn rest ih =>
    obtain ⟨c, stays⟩ := turn
    have later : ∀ c, (c, false) ∈ rest → c.axis? = some axis.other := fun c member =>
      across c (List.mem_cons_of_mem _ member)
    cases stays with
    | true =>
      have next := h.after c
      rw [List.filter_cons_of_pos rfl, seen, seen, if_pos rfl, if_pos rfl, h.refusal?_eq c, next.view_eq,
        ih next later]
    | false =>
      have unseen := (one.after_across (across c List.mem_cons_self)).trans h
      rw [List.filter_cons_of_neg Bool.false_ne_true, seen, if_neg Bool.false_ne_true, ih unseen later]

/-- Lists of commands that come from one another by exchanging neighbours that move in different
directions. -/
inductive Reordered : List Command → List Command → Prop
  | refl (cs : List Command) : Reordered cs cs
  | swap {axis : Axis} {a b : Command} (before after : List Command) (first : a.axis? = some axis)
      (second : b.axis? = some axis.other) :
      Reordered (before ++ a :: b :: after) (before ++ b :: a :: after)
  | trans {cs ds es : List Command} (h : Reordered cs ds) (next : Reordered ds es) : Reordered cs es

/-- Two commands that move in different directions may be exchanged: along either axis only one of them
is seen. -/
theorem sameAlong_swap {direction : Axis} {a b : Command} (machine : Machine)
    (first : a.axis? = some direction) (second : b.axis? = some direction.other) (axis : Axis) :
    SameAlong axis ((machine.after a).after b) ((machine.after b).after a) := by
  have twice : direction.other.other = direction := by cases direction <;> rfl
  by_cases same : axis = direction
  · subst same
    have only := (machine.after_across second).symm.after a
    exact ((machine.after a).after_across second).trans only
  · obtain rfl : axis = direction.other := by
      cases axis <;> cases direction <;> first | rfl | exact absurd rfl same
    have across : a.axis? = some direction.other.other := by rw [twice, first]
    have only := (machine.after_across across).after b
    exact only.trans ((machine.after b).after_across across).symm

theorem sameAlong_of_reordered {cs ds : List Command} (h : Reordered cs ds) (machine : Machine)
    (axis : Axis) : SameAlong axis (cs.foldl after machine) (ds.foldl after machine) := by
  induction h with
  | refl cs => exact .refl _
  | swap before after first second =>
    rw [List.foldl_append, List.foldl_append]
    exact (sameAlong_swap _ first second axis).foldl_after after
  | trans _ _ ih next => exact ih.trans next

end Machine

namespace Tracer

variable {tracer : Tracer}

/-- What is seen along an axis in a replay: what came of each command that is marked, and the view after
it. -/
def seen (axis : Axis) : Tracer → List (Command × Bool) → List (Option RunError × Machine.View)
  | _, [] => []
  | tracer, (c, marked) :: rest =>
    let (result, after) := tracer.step c
    let later := seen axis after rest
    if marked then (result, after.machine.view axis) :: later else later

theorem seen_spec (reliable : tracer.trace.Reliable) (axis : Axis) (marked : List (Command × Bool)) :
    tracer.seen axis marked = tracer.machine.seen axis marked := by
  induction marked generalizing tracer with
  | nil => rfl
  | cons turn rest ih =>
    obtain ⟨c, stays⟩ := turn
    obtain ⟨after, healthy, step⟩ := step_of_reliable reliable c
    have later : Tracer.seen axis ⟨tracer.machine.after c, after⟩ rest
        = (tracer.machine.after c).seen axis rest := ih healthy
    rw [seen, step]
    dsimp only
    rw [later]
    rfl

/-- The two directions do not interfere. Whatever the commands, the machine and the widths of characters:
if commands that move in one direction are left out of a replay, any of them and anywhere, then every
other command comes to the same, and after it the registers of the other direction are the same in every
level, and so are the number of levels, the page, the selected font and the table of fonts. So to exchange
neighbours that move in different directions, as often as one likes, changes no register of any level in
the end. -/
theorem axes_do_not_interfere (tracer : Tracer) (reliable : tracer.trace.Reliable) :
    (∀ (axis : Axis) (marked : List (Command × Bool)),
        (∀ c, (c, false) ∈ marked → c.axis? = some axis.other) →
        tracer.seen axis marked = tracer.seen axis (marked.filter Prod.snd))
      ∧ ∀ cs ds, Machine.Reordered cs ds →
        (tracer.replay cs).machine.registers = (tracer.replay ds).machine.registers
          ∧ (tracer.replay cs).machine.saved = (tracer.replay ds).machine.saved := by
  constructor
  · intro axis marked across
    rw [seen_spec reliable, seen_spec reliable]
    exact (Machine.SameAlong.refl _).seen_filter across
  · intro cs ds reordered
    rw [replay_spec reliable, replay_spec reliable]
    exact Machine.levels_eq_of_sameAlong (Machine.sameAlong_of_reordered reordered _)

/-- Vertical movements inside a group and behind it, one of which repeats a remembered movement, are not
seen along the horizontal axis, not even where a `pop` fails; and a character may change places with one
of them. -/
theorem axes_do_not_interfere_in_a_group :
    let tracer : Tracer := ⟨{}, .unbounded⟩
    let marked : List (Command × Bool) := [(.push, true), (.space .y .one 7, false), (.setChar 65, true),
      (.space .w .two 3, true), (.again .y, false), (.pop, true), (.pop, true), (.again .z, false)]
    let stays : List Command := [.push, .setChar 65, .space .w .two 3, .pop, .pop]
    tracer.trace.Reliable
      ∧ tracer.seen .horizontal marked = tracer.seen .horizontal (stays.map (·, true))
      ∧ (tracer.seen .horizontal marked).map (fun turn => (turn.1, turn.2.levels))
        = [(none, #[⟨0, 0, 0⟩, ⟨0, 0, 0⟩]), (none, #[⟨0, 0, 0⟩, ⟨65, 0, 0⟩]),
          (none, #[⟨0, 0, 0⟩, ⟨68, 3, 0⟩]), (none, #[⟨0, 0, 0⟩]), (some .unbalancedPop, #[⟨0, 0, 0⟩])]
      ∧ (tracer.replay [.space .z .one 9, .setChar 65, .again .z]).machine.registers
        = (tracer.replay [.setChar 65, .space .z .one 9, .again .z]).machine.registers := by
  intro tracer marked stays
  have reliable : tracer.trace.Reliable := Sink.reliable_unbounded
  obtain ⟨seen, reordered⟩ := axes_do_not_interfere tracer reliable
  have same := seen .horizontal marked (by simp [marked, Command.axis?, Axis.other, Spacing.axis])
  refine ⟨reliable, same, ?_, ?_⟩
  · rw [seen_spec reliable]
    decide +kernel
  · exact (reordered _ _ (.swap [] [.again .z] rfl rfl)).1

end Tracer

end Dvi
