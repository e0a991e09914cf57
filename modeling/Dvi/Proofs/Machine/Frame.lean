/-
# Dvi.Proofs.Machine.Frame — what a group gives back and what it does not.

A group saves all registers when it opens and brings them back when it closes. Whatever stands between
the two brackets may move, remember movements, and open and close groups of its own, as long as it closes
no more than it opened: the levels below are out of its reach (`Above`). Fonts know nothing of groups. The
font that was selected last stays selected, and every definition stays in force, so the selected font and
the table of fonts leave a group as its commands left them. The main statement is `group_restores`.
-/
import Dvi.Proofs.Machine.Execution

namespace Dvi

namespace Command

/-- The number of the font that a command selects. -/
def selected? : Command → Option Int32
  | fontNum number => some (Int32.ofNat number.toNat)
  | selectFont _ number => some number
  | _ => none

/-- The fonts that commands select, in order, if they come to the given results: a selection that fails
does not count. -/
def selections (cs : List Command) (results : List (Option RunError)) : List Int32 :=
  (cs.zip results).filterMap fun
    | (c, none) => c.selected?
    | (_, some _) => none

/-- Commands whose groups are complete: nothing is closed that they have not opened, and all that they
have opened is closed in the end. -/
structure Balanced (body : List Command) : Prop where
  opened : ∀ front, front <+: body → front.count .pop ≤ front.count .push
  closed : body.count .pop = body.count .push

/-- It is enough to count brackets in the fronts of all lengths. -/
theorem balanced_iff {body : List Command} :
    Balanced body ↔ (∀ i ∈ List.range (body.length + 1), (body.take i).count pop ≤ (body.take i).count push)
      ∧ body.count pop = body.count push := by
  constructor
  · intro h
    exact ⟨fun i _ => h.opened _ (List.take_prefix i body), h.closed⟩
  · rintro ⟨opened, closed⟩
    refine ⟨?_, closed⟩
    intro front inside
    rw [List.prefix_iff_eq_take.mp inside]
    exact opened _ (List.mem_range.mpr (Nat.lt_succ_of_le inside.length_le))

instance (body : List Command) : Decidable (Balanced body) :=
  decidable_of_iff' _ balanced_iff

/-- How many groups are open after a command, of `n` before it. -/
def depth (n : Nat) : Command → Nat
  | push => n + 1
  | pop => n - 1
  | _ => n

/-- The brackets of a command are accounted for by how many groups are open after it. -/
theorem depth_add {c : Command} {n : Nat} (closes : c = pop → n ≠ 0) (more : List Command) :
    c.depth n + more.count push + (c :: more).count pop =
      n + (c :: more).count push + more.count pop := by
  simp only [List.count_cons]
  cases c with
  | pop =>
    have := closes rfl
    simp [depth]
    omega
  | push =>
    simp [depth]
    omega
  | _ => simp [depth]

end Command

namespace Machine

variable {machine : Machine} {c : Command} {body : List Command} {outer : Array Registers} {n : Nat}

/-! ## Levels -/

/-- Of the groups that are open, `outer` are those that were open before, and `n` were opened since. -/
def Above (machine : Machine) (outer : Array Registers) (n : Nat) : Prop :=
  ∃ inner : Array Registers, inner.size = n ∧ machine.saved = outer ++ inner

theorem Above.zero_iff : machine.Above outer 0 ↔ machine.saved = outer := by
  constructor
  · rintro ⟨inner, size, same⟩
    rw [same, Array.size_eq_zero_iff.mp size, Array.append_empty]
  · intro same
    exact ⟨#[], rfl, by rw [same, Array.append_empty]⟩

/-- A group that is opened stands above all others. -/
theorem Above.save (h : machine.Above outer n) : machine.save.Above outer (n + 1) := by
  obtain ⟨inner, rfl, same⟩ := h
  refine ⟨inner.push machine.registers, Array.size_push .., ?_⟩
  rw [Array.append_push, ← same]
  rfl

/-- Closing a group that was opened since leaves those alone that were open before. -/
theorem Above.restore (h : machine.Above outer (n + 1)) : machine.restore.Above outer n := by
  obtain ⟨inner, size, same⟩ := h
  refine ⟨inner.pop, by rw [Array.size_pop, size]; rfl, ?_⟩
  show machine.saved.pop = outer ++ inner.pop
  apply Array.ext'
  rw [same, Array.toList_pop, Array.toList_append, Array.toList_append, Array.toList_pop,
    List.dropLast_append_of_ne_nil]
  intro none
  rw [← Array.length_toList, none] at size
  cases size

theorem Above.depth_pos (h : machine.Above outer (n + 1)) : machine.depth ≠ 0 := by
  obtain ⟨inner, size, same⟩ := h
  rw [depth, same, Array.size_append]
  omega

/-- A group that is open may be closed. -/
theorem refusal?_ne_unbalancedPop (closes : c = .pop → machine.depth ≠ 0) :
    machine.refusal? c ≠ some .unbalancedPop := by
  intro refused
  rcases refusal?_eq_some refused with ⟨closing, none_open, -⟩ | ⟨-, number, -, other⟩
  · exact closes closing none_open
  · cases other

/-- Only the brackets of groups and the beginning of a page change what is saved. -/
theorem saved_after (opens_none : c ≠ .push) (closes_none : c ≠ .pop)
    (begins_none : ∀ counters prev, c ≠ .bop counters prev) :
    (machine.after c).saved = machine.saved := by
  refine after_induction (motive := fun last => last.saved = machine.saved) ?_ rfl
  intro _
  cases c with
  | push => exact absurd rfl opens_none
  | pop => exact absurd rfl closes_none
  | bop counters prev => exact absurd rfl (begins_none counters prev)
  | _ => rfl

/-- Within a page, a command that closes none of the groups that were open before leaves them alone. -/
theorem Above.after (h : machine.Above outer n) (begins_none : ∀ counters prev, c ≠ .bop counters prev)
    (closes : c = .pop → n ≠ 0) :
    machine.refusal? c ≠ some .unbalancedPop ∧ (machine.after c).Above outer (c.depth n) := by
  by_cases opening : c = .push
  · subst opening
    refine ⟨refusal?_ne_unbalancedPop Command.noConfusion, ?_⟩
    rw [after_of_accepts rfl]
    exact h.save
  · by_cases closing : c = .pop
    · subst closing
      obtain ⟨m, rfl⟩ := Nat.exists_eq_succ_of_ne_zero (closes rfl)
      have accepts : machine.refusal? .pop = none := if_neg h.depth_pos
      refine ⟨refusal?_ne_unbalancedPop fun _ => h.depth_pos, ?_⟩
      rw [after_of_accepts accepts]
      exact h.restore
    · refine ⟨refusal?_ne_unbalancedPop fun same => absurd same closing, ?_⟩
      have stays : c.depth n = n := by cases c <;> simp_all [Command.depth]
      rw [Above, saved_after opening closing begins_none, stays]
      exact h

/-- The innermost group is closed by bringing back the registers that were saved last. -/
theorem Above.close {saved : Registers} (h : machine.Above (outer.push saved) 0) :
    machine.refusal? .pop = none
      ∧ machine.after .pop = { machine with registers := saved, saved := outer } := by
  have accepts : machine.refusal? .pop = none := by
    simp [refusal?, depth, Above.zero_iff.mp h]
  refine ⟨accepts, ?_⟩
  rw [after_of_accepts accepts]
  show machine.restore = _
  rw [Machine.restore, Above.zero_iff.mp h, Array.back?_push, Array.pop_push]
  rfl

/-! ## Pages and fonts -/

/-- Only the beginning of a page changes how many have begun. -/
theorem page_after (begins_none : ∀ counters prev, c ≠ .bop counters prev) :
    (machine.after c).page = machine.page := by
  refine after_induction (motive := fun last => last.page = machine.page) ?_ rfl
  intro _
  cases c with
  | bop counters prev => exact absurd rfl (begins_none counters prev)
  | _ => rfl

/-- Within a page the selected font changes only by a selection that is accepted. -/
theorem font_after_eq (begins_none : ∀ counters prev, c ≠ .bop counters prev) :
    (machine.after c).font = ((Command.selections [c] [machine.refusal? c]).getLast?).or machine.font := by
  cases decision : machine.refusal? c with
  | none =>
    rw [after_of_accepts decision]
    cases c with
    | bop counters prev => exact absurd rfl (begins_none counters prev)
    | _ => rfl
  | some e =>
    rw [after_of_refuses decision]
    rfl

/-! ## Commands within a page -/

/-- What comes of each of some commands: why it is refused, if it is. -/
def refusals : Machine → List Command → List (Option RunError)
  | _, [] => []
  | machine, c :: cs => machine.refusal? c :: refusals (machine.after c) cs

theorem refusals_append (machine : Machine) (cs ds : List Command) :
    machine.refusals (cs ++ ds) = machine.refusals cs ++ (cs.foldl after machine).refusals ds := by
  induction cs generalizing machine with
  | nil => rfl
  | cons c cs ih => simp [refusals, ih]

/-- Commands that close none of the groups that were open before leave these alone, and no `pop` among
them is refused. -/
theorem Above.foldl_after (h : machine.Above outer n)
    (begins_none : ∀ counters prev, Command.bop counters prev ∉ body)
    (opened : ∀ front, front <+: body → front.count .pop ≤ n + front.count .push) :
    some .unbalancedPop ∉ machine.refusals body ∧
      ∃ m, m + body.count .pop = n + body.count .push ∧ (body.foldl Machine.after machine).Above outer m := by
  induction body generalizing machine n with
  | nil => exact ⟨List.not_mem_nil, n, rfl, h⟩
  | cons c rest ih =>
    have within : ∀ counters prev, c ≠ .bop counters prev := by
      rintro counters prev rfl
      exact begins_none counters prev List.mem_cons_self
    have closes : c = .pop → n ≠ 0 := by
      rintro rfl rfl
      have := opened [.pop] ((List.prefix_cons_inj _).mpr List.nil_prefix)
      simp at this
    obtain ⟨accepts, above⟩ := h.after within closes
    have later : ∀ front, front <+: rest → front.count .pop ≤ c.depth n + front.count .push := by
      intro front inside
      have := opened (c :: front) ((List.prefix_cons_inj _).mpr inside)
      have := Command.depth_add closes front
      omega
    obtain ⟨results, m, count, levels⟩ :=
      ih above (fun counters prev member => begins_none counters prev (List.mem_cons_of_mem _ member))
        later
    refine ⟨?_, m, ?_, levels⟩
    · rw [refusals, List.mem_cons, not_or]
      exact ⟨accepts.symm, results⟩
    · have := Command.depth_add closes rest
      omega

theorem page_foldl_after (begins_none : ∀ counters prev, Command.bop counters prev ∉ body) :
    (body.foldl after machine).page = machine.page := by
  induction body generalizing machine with
  | nil => rfl
  | cons c rest ih =>
    simp only [List.mem_cons, not_or] at begins_none
    rw [List.foldl_cons, ih fun counters prev => (begins_none counters prev).2]
    exact page_after fun counters prev => Ne.symm (begins_none counters prev).1

/-- Within a page the selected font is the last one whose selection was accepted. -/
theorem font_foldl_after (begins_none : ∀ counters prev, Command.bop counters prev ∉ body) :
    (body.foldl after machine).font =
      ((Command.selections body (machine.refusals body)).getLast?).or machine.font := by
  induction body generalizing machine with
  | nil => rfl
  | cons c rest ih =>
    simp only [List.mem_cons, not_or] at begins_none
    have within : ∀ counters prev, c ≠ .bop counters prev := fun counters prev =>
      Ne.symm (begins_none counters prev).1
    have both : Command.selections (c :: rest) (machine.refusals (c :: rest)) =
        Command.selections [c] [machine.refusal? c] ++
          Command.selections rest ((machine.after c).refusals rest) :=
      List.filterMap_append (l := [(c, machine.refusal? c)])
    rw [List.foldl_cons, ih fun counters prev => (begins_none counters prev).2, font_after_eq within,
      both, List.getLast?_append, Option.or_assoc]

/-- The table of fonts has every definition added in order. -/
theorem fonts_foldl_after (machine : Machine) (cs : List Command) :
    (cs.foldl after machine).fonts =
      (cs.filterMap Command.font?).foldl FontTable.define machine.fonts := by
  induction cs generalizing machine with
  | nil => rfl
  | cons c cs ih =>
    rw [List.foldl_cons, ih, fonts_after, List.filterMap_cons]
    cases c.font? <;> rfl

end Machine

/-- A font that is defined several times stands for its last definition. -/
theorem FontTable.find?_foldl_define (fonts : FontTable) (definitions : List Font) (number : Int32) :
    (definitions.foldl define fonts).find? number =
      ((definitions.filter fun font => font.number = number).getLast?).or (fonts.find? number) := by
  induction definitions generalizing fonts with
  | nil => rfl
  | cons font later ih =>
    rw [List.foldl_cons, ih, find?_define, List.filter_cons]
    by_cases same : font.number = number
    · simp only [same, decide_true, if_true, List.getLast?_cons]
      cases (later.filter fun font => font.number = number).getLast? <;> rfl
    · simp [same]

namespace Tracer

variable {tracer : Tracer} {body : List Command}

/-- On a reliable sink a replay comes to what the machine makes of the commands. -/
theorem turns_spec (reliable : tracer.trace.Reliable) (cs : List Command) :
    (tracer.turns cs).map Prod.fst = tracer.machine.refusals cs := by
  induction cs generalizing tracer with
  | nil => rfl
  | cons c cs ih =>
    obtain ⟨after, stays, step⟩ := step_of_reliable reliable c
    have rest : (Tracer.turns ⟨tracer.machine.after c, after⟩ cs).map Prod.fst
        = (tracer.machine.after c).refusals cs := ih stays
    rw [turns, step, List.map_cons, rest]
    rfl

/-- A group gives back all registers, and nothing else. Commands within a page that are complete in
their groups may stand between a `push` and a `pop`: no `pop` fails, and afterwards the registers, all
that is saved and the number of the page are as before. The selected font is the last one that was
selected in between, if any was, and every font that was defined in between stands for its last
definition. -/
theorem group_restores (tracer : Tracer) (reliable : tracer.trace.Reliable)
    (balanced : Command.Balanced body)
    (begins_none : ∀ counters prev, Command.bop counters prev ∉ body) :
    let group := .push :: (body ++ [.pop])
    let results := (tracer.turns group).map Prod.fst
    let before := tracer.machine
    let after := (tracer.replay group).machine
    some .unbalancedPop ∉ results
      ∧ after.registers = before.registers ∧ after.saved = before.saved
      ∧ after.depth = before.depth ∧ after.page = before.page
      ∧ after.font = ((Command.selections group results).getLast?).or before.font
      ∧ ∀ number, after.fonts.find? number =
          (((body.filterMap Command.font?).filter fun font => font.number = number).getLast?).or
            (before.fonts.find? number) := by
  intro group results before after
  have inside : ∀ counters prev, Command.bop counters prev ∉ group := by
    intro counters prev
    simp [group, begins_none counters prev]
  -- The registers that the group gives back are saved above all that was saved before.
  have levels : before.save.Above (before.saved.push before.registers) 0 :=
    Machine.Above.zero_iff.mpr rfl
  obtain ⟨accepted, m, count, above⟩ :=
    levels.foldl_after begins_none (by simpa using balanced.opened)
  obtain rfl : m = 0 := by
    have := balanced.closed
    omega
  obtain ⟨accepts, restored⟩ := above.close
  have machine : after = group.foldl Machine.after before := replay_spec reliable group
  have closed : after = { body.foldl Machine.after before.save with
      registers := before.registers, saved := before.saved } := by
    rw [machine, List.foldl_cons, List.foldl_append, Machine.after_of_accepts rfl]
    exact restored
  have refusals : results = before.refusals group := turns_spec reliable group
  refine ⟨?_, ?_, ?_, ?_, ?_, ?_, ?_⟩
  · have whole : before.refusals group =
        none :: (before.save.refusals body ++ (body.foldl Machine.after before.save).refusals [.pop]) :=
      congrArg (none :: ·) (Machine.refusals_append before.save body [.pop])
    rw [refusals, whole, Machine.refusals, accepts]
    simp [accepted, Machine.refusals]
  · rw [closed]
  · rw [closed]
  · rw [closed]
    rfl
  · rw [machine]
    exact Machine.page_foldl_after inside
  · rw [machine, refusals]
    exact Machine.font_foldl_after inside
  · intro number
    have fonts : group.filterMap Command.font? = body.filterMap Command.font? := by
      simp [group, List.filterMap_cons, Command.font?]
    rw [machine, Machine.fonts_foldl_after, FontTable.find?_foldl_define, fonts]

/-- A font is selected and defined inside groups, after a selection that fails, while the position moves
and a movement is remembered. -/
theorem group_restores_but_keeps_a_font :
    let cmr : Font := { number := 9, checksum := 0, scale := 1, designSize := 1, area := [], name := [99] }
    let tracer : Tracer := ⟨{ registers := { h := 4, w := 2 }, saved := #[{}], font := some 1 }, .unbounded⟩
    let body : List Command := [.fontNum 9, .move .horizontal .one 5, .push, .fontDef .one cmr,
      .space .w .one 7, .selectFont .one 9, .pop, .setChar 3, .push, .pop]
    let after := (tracer.replay (.push :: (body ++ [.pop]))).machine
    tracer.trace.Reliable ∧ Command.Balanced body
      ∧ (∀ counters prev, Command.bop counters prev ∉ body)
      ∧ after.registers = { h := 4, w := 2 } ∧ after.saved = #[{}]
      ∧ after.font = some 9 ∧ after.fonts.find? 9 = some cmr := by
  intro cmr tracer body after
  have reliable : tracer.trace.Reliable := Sink.reliable_unbounded
  have balanced : Command.Balanced body := by decide
  have begins_none : ∀ counters prev, Command.bop counters prev ∉ body := by simp [body]
  obtain ⟨-, registers, saved, -, -, font, fonts⟩ :=
    group_restores tracer reliable balanced begins_none
  rw [turns_spec reliable] at font
  exact ⟨reliable, balanced, begins_none, registers, saved, font.trans (by decide),
    (fonts 9).trans (by decide)⟩

end Tracer

end Dvi
