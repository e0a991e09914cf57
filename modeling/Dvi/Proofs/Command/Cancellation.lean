/-
# Dvi.Proofs.Command.Cancellation — groups that were opened and closed with nothing in between.

A `push` that stands just before a `pop` can be taken out of a list of commands together with it, and
so can a pair that only came to stand together by this (`Cancels`). While commands are still being
written, some groups are open, and each `push` at the end of the list opens the innermost of them
(`OpenAt`). The lemmas here say what becomes of the open groups, and of the pairs that were kept, when
a command is added or a `push` is taken back; no bytes are stored anywhere yet.
-/
import Dvi.Writer.Buffer
import Dvi.Command.Encoding

namespace Dvi

namespace Command

/-- The bytes of commands one after the other, without filler. -/
def bytesOf (cs : List Command) : Bytes :=
  cs.flatMap bytes

@[simp]
theorem bytesOf_nil : bytesOf [] = [] := rfl

@[simp]
theorem bytesOf_append (cs ds : List Command) : bytesOf (cs ++ ds) = bytesOf cs ++ bytesOf ds :=
  List.flatMap_append

@[simp]
theorem bytesOf_cons (c : Command) (cs : List Command) : bytesOf (c :: cs) = c.bytes ++ bytesOf cs :=
  List.flatMap_cons

/-- A command is never empty. -/
theorem bytes_ne_nil (c : Command) : c.bytes ≠ [] :=
  List.cons_ne_nil _ _

end Command

open Command (bytesOf)

/-- What is left of `full` when `push`es that stand just before a `pop` are taken out together with
it, as often as one likes. -/
inductive Cancels (full : List Command) : List Command → Prop
  | refl : Cancels full full
  | pair {before after : List Command} (h : Cancels full (before ++ .push :: .pop :: after)) :
    Cancels full (before ++ after)

/-- Commands that are added later do not disturb what was taken out. -/
theorem Cancels.append {full kept : List Command} (h : Cancels full kept) (more : List Command) :
    Cancels (full ++ more) (kept ++ more) := by
  induction h with
  | refl => exact .refl
  | @pair before after _ ih =>
    rw [List.append_assoc]
    apply Cancels.pair
    rw [List.append_assoc] at ih
    exact ih

/-- What comes of the commands `out` when `more` is asked for after them: it is added, or it is the `pop`
of a group that was just opened, and the `push` is taken back. -/
inductive Continues (out : List Command) : List Command → List Command → Prop
  | adds (more : List Command) : Continues out more (out ++ more)
  | takes {before : List Command} (opened : out = before ++ [.push]) : Continues out [.pop] before

/-- What is left of all that was asked for, after a little more of it. -/
theorem Cancels.continues {full out more kept : List Command} (h : Cancels full out)
    (goes : Continues out more kept) : Cancels (full ++ more) kept := by
  cases goes with
  | adds => exact h.append more
  | takes opened =>
    have all := h.append [.pop]
    rw [opened, List.append_assoc] at all
    have taken := all.pair
    rwa [List.append_nil] at taken

/-! ## Groups that are open -/

/-- The places at which the open groups of a list of commands begin, innermost first. The last command
is a `push` only if it opens the innermost of them. -/
inductive OpenAt : List Command → List Nat → Prop
  | none {out : List Command} (last : out.getLast? ≠ some .push) : OpenAt out []
  | group {before inside : List Command} {outer : List Nat} (h : OpenAt before outer)
    (last : inside.getLast? ≠ some .push) :
    OpenAt (before ++ .push :: inside) (((bytesOf before).length + 1) :: outer)

variable {out : List Command} {groups outer : List Nat} {location : Nat}

/-- Commands that are added inside the innermost group leave the open groups alone. -/
theorem OpenAt.append (h : OpenAt out groups) {more : List Command} {c : Command}
    (last : more.getLast? = some c) (other : c ≠ .push) : OpenAt (out ++ more) groups := by
  have ending (front : List Command) : (front ++ more).getLast? ≠ some .push := by
    rw [List.getLast?_append, last]
    intro same
    exact other (Option.some.inj same)
  cases h with
  | none _ => exact .none (ending out)
  | @group before inside outer h _ =>
    rw [List.append_assoc]
    exact .group h (ending inside)

/-- A group is opened by a `push`. -/
theorem OpenAt.opens (h : OpenAt out groups) :
    OpenAt (out ++ [.push]) (((bytesOf out).length + 1) :: groups) :=
  .group h fun none => by cases none

/-- A group is closed by a `pop`. -/
theorem OpenAt.closes (h : OpenAt out (location :: outer)) : OpenAt (out ++ [.pop]) outer := by
  cases h with
  | @group before inside outer h _ =>
    rw [List.append_assoc]
    have last : (Command.push :: inside ++ [Command.pop]).getLast? = some .pop := List.getLast?_concat
    exact h.append last (by decide)

/-- Either nothing was written since the innermost group was opened, so that its `push` is the last
command and the outer groups are open without it; or something was, and it ends in no `push`. -/
theorem OpenAt.innermost (h : OpenAt out (location :: outer)) :
    (∃ before, out = before ++ [.push] ∧ location = (bytesOf out).length ∧ OpenAt before outer)
      ∨ location ≠ (bytesOf out).length ∧ out.getLast? ≠ some .push := by
  cases h with
  | @group before inside outer h last =>
    cases inside with
    | nil =>
      refine .inl ⟨before, rfl, ?_, h⟩
      rw [Command.bytesOf_append, List.length_append]
      rfl
    | cons c rest =>
      -- No command is empty, so the stream has grown since the group was opened.
      refine .inr ⟨?_, ?_⟩
      · have := List.length_pos_iff.mpr c.bytes_ne_nil
        have : Command.push.bytes.length = 1 := rfl
        simp only [Command.bytesOf_append, Command.bytesOf_cons, List.length_append]
        omega
      · rw [List.getLast?_append, List.getLast?_cons_cons]
        rw [List.getLast?_eq_some_getLast (List.cons_ne_nil c rest)] at last ⊢
        exact last

/-! ## Pairs that were kept -/

/-- Every `push` that stands just before a `pop` ends at a multiple of the size of the buffer. -/
def PairsAligned (size : BufferSize) (out : List Command) : Prop :=
  ∀ before after, out = before ++ .push :: .pop :: after →
    size.bytes ∣ (bytesOf (before ++ [.push])).length

variable {size : BufferSize}

theorem pairsAligned_nil : PairsAligned size [] := by
  intro before after split
  cases before <;> cases split

/-- The pairs of a front are pairs of the whole. -/
theorem PairsAligned.front {before more : List Command} (h : PairsAligned size (before ++ more)) :
    PairsAligned size before := by
  intro front after split
  apply h front (after ++ more)
  rw [split, List.append_assoc]
  rfl

/-- One more command makes at most one more pair, with the command before it. -/
theorem PairsAligned.concat (h : PairsAligned size out) {c : Command}
    (pair : c = .pop → out.getLast? = some .push → size.bytes ∣ (bytesOf out).length) :
    PairsAligned size (out ++ [c]) := by
  intro before after split
  -- A pair that does not end the list was there before the new command.
  rcases List.eq_nil_or_concat after with rfl | ⟨front, last, rfl⟩
  · rw [show before ++ [Command.push, .pop] = before ++ [.push] ++ [.pop] by
      rw [List.append_assoc]; rfl] at split
    obtain ⟨rfl, single⟩ := List.append_inj' split rfl
    exact pair (List.cons.inj single).1 List.getLast?_concat
  · rw [List.concat_eq_append] at split
    rw [show before ++ Command.push :: .pop :: (front ++ [last])
      = before ++ .push :: .pop :: front ++ [last] by simp] at split
    obtain ⟨rfl, -⟩ := List.append_inj' split rfl
    exact h before front rfl

end Dvi
