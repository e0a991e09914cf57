/-
# Dvi.Proofs.Elision — taking groups back does not change what a stream means.

A session that writes whole commands and closes its groups never fails on a reliable sink, and what
it wrote is read as the commands that it asked for, except that groups which were closed with nothing
inside are missing; such a group is there only if the buffer started over just after its `push`. A
replay of what was read shows the same of every other command as a replay of what was asked for
(`elision_preserves_meaning`).
-/
import Dvi.Proofs.Machine.Replay
import Dvi.Proofs.RoundTrip
import Dvi.Proofs.Writer.Groups

namespace Dvi

open Command (bytesOf)

variable {cs out : List Command}

/-! ## Commands without filler -/

theorem streamFrom_eq (going : ∀ c ∈ cs, c.ends = false) (start : Nat) :
    streamFrom start cs = bytesOf cs := by
  induction cs generalizing start with
  | nil => rfl
  | cons c cs ih =>
    rw [streamFrom, Command.bytesAt_of_not_ends (going c List.mem_cons_self),
      ih fun c later => going c (List.mem_cons_of_mem _ later)]
    rfl

theorem throughEnd_placed (going : ∀ c ∈ cs, c.ends = false) (start : Nat) :
    throughEnd (placed start cs) = placed start cs := by
  induction cs generalizing start with
  | nil => rfl
  | cons c cs ih =>
    have first : ¬c.ends = true := Bool.eq_false_iff.mp (going c List.mem_cons_self)
    rw [placed, throughEnd, if_neg first, ih fun c later => going c (List.mem_cons_of_mem _ later)]

theorem placed_append (going : ∀ c ∈ cs, c.ends = false) (start : Nat) (more : List Command) :
    placed start (cs ++ more) = placed start cs ++ placed (start + (bytesOf cs).length) more := by
  induction cs generalizing start with
  | nil => rfl
  | cons c cs ih =>
    rw [List.cons_append, placed, ih fun c later => going c (List.mem_cons_of_mem _ later), placed,
      Command.bytesAt_of_not_ends (going c List.mem_cons_self), Command.bytesOf_cons,
      List.length_append, Nat.add_assoc]
    rfl

/-- Commands that fit their widths are read as they were written. -/
theorem commands_ofPlaced (fits : ∀ c ∈ cs, c.Fits) (start : Nat) :
    ((placed start cs).map Entry.ofPlaced).map Entry.command = cs := by
  induction cs generalizing start with
  | nil => rfl
  | cons c cs ih =>
    have first : c.readBack = c := c.readBack_eq_self_iff.mpr (fits c List.mem_cons_self)
    rw [placed, List.map_cons, List.map_cons, ih fun c later => fits c (List.mem_cons_of_mem _ later)]
    exact congrArg (· :: cs) first

/-- Where a pair is read, its `push` ends at a multiple of the size of the buffer. -/
theorem PairsAligned.stop {size : BufferSize} (h : PairsAligned size out)
    (lasting : ∀ c ∈ out, c.Lasting) {before after : List Entry} {opens closes : Entry}
    (split : (placed 0 out).map Entry.ofPlaced = before ++ opens :: closes :: after)
    (isPush : opens.command = .push) (isPop : closes.command = .pop) : size.bytes ∣ opens.stop := by
  have commands := commands_ofPlaced (fun c member => (lasting c member).fits) 0
  rw [split, List.map_append, List.map_cons, List.map_cons, isPush, isPop] at commands
  have going : ∀ c ∈ before.map Entry.command, c.ends = false := fun c member =>
    (lasting c (commands ▸ List.mem_append_left _ member)).going
  -- The entries before the pair are as many as the commands before it, so the places agree.
  rw [← commands, placed_append going, List.map_append] at split
  have lengths : ((placed 0 (before.map Entry.command)).map Entry.ofPlaced).length = before.length := by
    have same := congrArg List.length (map_snd_placed 0 (before.map Entry.command))
    rwa [List.length_map, List.length_map, ← List.length_map (f := Entry.ofPlaced)] at same
  obtain ⟨-, rest⟩ := List.append_inj split lengths
  have aligned := h _ _ commands.symm
  rw [Command.bytesOf_append, List.length_append] at aligned
  rw [← (List.cons.inj rest).1]
  show size.bytes ∣ 0 + (bytesOf (before.map Entry.command)).length + Command.push.bytes.length
  rw [Nat.zero_add]
  exact aligned

/-! ## Sessions -/

/-- What a session wrote is handed over as a whole, and read as the commands that it wrote. -/
theorem Session.Keeps.reading {session : Session} {size : BufferSize} {origin : Sink} {cache : Cache}
    {full : List Command} (h : session.Keeps size origin cache full out)
    (reliable : origin.Reliable) :
    (∃ finished, Writer.finish session.writer = .ok () finished
        ∧ finished.sink.record.octets.toList = origin.record.octets.toList ++ bytesOf out)
      ∧ (Reader.readAll (.ofBytes (bytesOf out))).error? = none
      ∧ (Reader.readAll (.ofBytes (bytesOf out))).entries = (placed 0 out).map Entry.ofPlaced
      ∧ (Reader.readAll (.ofBytes (bytesOf out))).entries.map Entry.command = out := by
  obtain ⟨last, reads⟩ := readAll_streamFrom (fun c member => (h.lasting c member).encodes) 0
  rw [streamFrom_eq h.going, throughEnd_placed h.going] at reads
  rw [Reader.ofBytes, reads]
  exact ⟨h.represents.finish reliable, rfl, rfl,
    commands_ofPlaced (fun c member => (h.lasting c member).fits) 0⟩

/-- Taking groups back preserves what a stream means. A session that writes whole commands and closes
its groups succeeds. What it wrote is read without an error as the commands that it asked for, less
some groups that were closed with nothing inside; where such a group is read, its `push` ends at a
multiple of the size of the buffer. And replays of the two from one machine show the same of every
command that is no bracket of a group: whether it is refused, the machine after it and the text that
it reports. -/
theorem elision_preserves_meaning (size : BufferSize) (sink : Sink) (reliable : sink.Reliable)
    (actions : List Action) (whole : ∀ action ∈ actions, action.Whole)
    (balanced : Session.Balanced 0 actions) :
    let script := Session.script {} actions
    ∃ session finished output,
      Session.steps actions ⟨Writer.new sink size, []⟩ = .ok () session
        ∧ Writer.finish session.writer = .ok () finished
        ∧ finished.sink.record.octets.toList = sink.record.octets.toList ++ output
        ∧ let reading := Reader.readAll (.ofBytes output)
          let kept := reading.entries.map Entry.command
          reading.error? = none
            ∧ Cancels script kept
            ∧ (∀ before opens closes after,
                reading.entries = before ++ opens :: closes :: after →
                opens.command = .push → closes.command = .pop → size.bytes ∣ opens.stop)
            ∧ ∀ one two : Tracer, one.machine = two.machine →
                one.trace.Reliable → two.trace.Reliable →
                one.observe script = two.observe kept
                  ∧ (one.replay script).machine = (two.replay kept).machine := by
  obtain ⟨session, cache, out, run, -, keeps⟩ :=
    (Session.keeps_new size sink).steps reliable whole balanced
  rw [List.nil_append] at keeps
  obtain ⟨⟨finished, ends, taken⟩, sound, entries, kept_eq⟩ := keeps.reading reliable
  refine ⟨session, finished, bytesOf out, run, ends, taken, ?_⟩
  dsimp only
  rw [kept_eq, entries]
  refine ⟨sound, keeps.cancels, ?_, ?_⟩
  · intro before opens closes after split isPush isPop
    exact keeps.aligned.stop keeps.lasting split isPush isPop
  · intro one two same one_reliable two_reliable
    obtain ⟨shown, alike⟩ :=
      Tracer.Alike.observe_cancels ⟨same, one_reliable, two_reliable⟩ keeps.cancels
    exact ⟨shown, alike.machine_eq⟩

/-- A group at the edge of the buffer, whose `push` follows an operand byte that looks like one, and
two empty groups, one inside the other. -/
theorem elision_preserves_meaning_at_the_edge :
    let actions : List Action := [.perform (.command (.set .three 65)), .perform (.moveRight 141),
      .openGroup, .closeGroup, .openGroup, .openGroup, .closeGroup, .closeGroup]
    let script : List Command := [.set .three 65, .move .horizontal .two 141, .push, .pop, .push, .push,
      .pop, .pop]
    Sink.unbounded.Reliable ∧ (∀ action ∈ actions, action.Whole) ∧ Session.Balanced 0 actions
      ∧ ∃ session finished output,
        Session.steps actions ⟨Writer.new .unbounded ⟨4, Nat.le_refl 4⟩, []⟩ = .ok () session
          ∧ Writer.finish session.writer = .ok () finished
          ∧ finished.sink.record.octets.toList = output
          ∧ let reading := Reader.readAll (.ofBytes output)
            let kept := reading.entries.map Entry.command
            reading.error? = none
              ∧ Cancels script kept
              ∧ (∀ before opens closes after,
                  reading.entries = before ++ opens :: closes :: after →
                  opens.command = .push → closes.command = .pop → 8 ∣ opens.stop)
              ∧ Tracer.observe ⟨{}, .unbounded⟩ script = Tracer.observe ⟨{}, .unbounded⟩ kept := by
  intro actions script
  have plain : (Command.set .three 65).Plain :=
    ⟨⟨rfl, by decide, rfl⟩, Command.noConfusion, Command.noConfusion⟩
  have whole : ∀ action ∈ actions, action.Whole := by
    simp [actions, Action.Whole, Operation.Whole, plain]
  have balanced : Session.Balanced 0 actions := rfl
  obtain ⟨session, finished, output, run, ends, taken, sound, cancels, aligned, same⟩ :=
    elision_preserves_meaning ⟨4, Nat.le_refl 4⟩ .unbounded Sink.reliable_unbounded actions whole
      balanced
  refine ⟨Sink.reliable_unbounded, whole, balanced, session, finished, output, run, ends, taken, sound,
    cancels, aligned, ?_⟩
  exact (same ⟨{}, .unbounded⟩ ⟨{}, .unbounded⟩ rfl Sink.reliable_unbounded
    Sink.reliable_unbounded).1

end Dvi
