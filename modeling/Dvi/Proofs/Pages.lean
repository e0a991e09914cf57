/-
# Dvi.Proofs.Pages — pages stay where they were begun.

Every page of a stream says where the page before it begins, so a writer hands out the location of a page
as soon as it begins one, while bytes behind this place can still be taken back. That these locations are
never moved is an invariant of single steps (`Session.HasBegun`): the pages that a reader would find in
what was written so far are the ones that were begun, at the places that were handed out, and as many as
the writer counts. A step adds at most one page, the one that it begins; the only byte that is ever taken
back is the `push` of a group that is still empty, and no page stands behind it. So a session that gives
each page the location of the one before it leaves a stream whose pages are linked all the way
(`back_pointers_stay_valid`).
-/
import Mathlib.Data.List.Induction
import Dvi.Proofs.Elision
import Dvi.Proofs.Writer.Attempts

namespace Dvi

open Command (bytesOf)

/-! ## Pages of a stream -/

/-- A page of a stream: where it begins, and where it says that the page before it does. -/
structure Page where
  location : Nat
  prev : Int32
deriving DecidableEq

/-- The page that a command begins if it stands at a place. -/
def Command.page? (start : Nat) : Command → Option Page
  | bop _ prev => some ⟨start, prev⟩
  | _ => none

/-- A command that begins no page. -/
def Command.Quiet (c : Command) : Prop :=
  ∀ start, c.page? start = none

/-- The pages that a reader finds, in order. -/
def Reader.Reading.pages (reading : Reader.Reading) : List Page :=
  reading.entries.filterMap fun entry => entry.command.page? entry.start

/-- Where a page has to point that comes after these: to the last of them, or to -1 if it is the first. -/
def backPointer (pages : List Page) : Int :=
  (pages.getLast?.map fun page => (page.location : Int)).getD (-1)

/-- Every page points to the one before it. -/
def Linked (pages : List Page) : Prop :=
  ∀ before page, before ++ [page] <+: pages → page.prev.toInt = backPointer before

theorem linked_nil : Linked [] := by
  intro before page front
  simp at front

/-- A page may be added if it points to the last one. -/
theorem Linked.concat {pages : List Page} {page : Page} (h : Linked pages)
    (points : page.prev.toInt = backPointer pages) : Linked (pages ++ [page]) := by
  intro before other front
  rcases List.prefix_concat_iff.mp front with same | inside
  · obtain ⟨rfl, only⟩ := List.append_inj' same rfl
    rw [List.singleton_inj.mp only]
    exact points
  · exact h before other inside

/-- The pages of commands that are written one after the other, the first one at `start`. -/
def pagesAt (start : Nat) (cs : List Command) : List Page :=
  (placed start cs).filterMap fun (start, c) => c.page? start

variable {out more kept : List Command}

theorem pagesAt_append (going : ∀ c ∈ out, c.ends = false) (start : Nat) (more : List Command) :
    pagesAt start (out ++ more) = pagesAt start out ++ pagesAt (start + (bytesOf out).length) more := by
  rw [pagesAt, placed_append going, List.filterMap_append]
  rfl

/-- Commands that begin no page have none. -/
theorem pagesAt_eq_nil {cs : List Command} (quiet : ∀ c ∈ cs, c.Quiet)
    (start : Nat) : pagesAt start cs = [] := by
  rw [pagesAt, List.filterMap_eq_nil_iff]
  rintro ⟨place, c⟩ member
  have written : c ∈ cs := by
    rw [← map_snd_placed start cs]
    exact List.mem_map_of_mem member
  exact quiet c written place

/-- Whatever comes of the commands that are asked for, the pages that were there before stay where they
are. -/
theorem Continues.pagesAt_eq (going : ∀ c ∈ out, c.ends = false) (goes : Continues out more kept) :
    pagesAt 0 kept = pagesAt 0 out ++ pagesAt (bytesOf out).length more := by
  cases goes with
  | adds =>
    rw [pagesAt_append going, Nat.zero_add]
  | takes opened =>
    subst opened
    have front : ∀ c ∈ kept, c.ends = false := fun c member => going c (List.mem_append_left _ member)
    rw [pagesAt_append front]
    simp [pagesAt, placed, Command.page?]

/-- A reader finds the pages where the commands were written. -/
theorem pages_eq_pagesAt {reading : Reader.Reading}
    (entries : reading.entries = (placed 0 out).map Entry.ofPlaced) : reading.pages = pagesAt 0 out := by
  rw [Reader.Reading.pages, entries, List.filterMap_map, pagesAt]
  congr
  funext ⟨start, c⟩
  cases c <;> rfl

/-! ## Steps that begin pages -/

theorem Command.Family.quiet {base : UInt8} {family : Width → Int32 → Command}
    (h : Family base family) (size : Width) (x : Int32) : (family size x).readBack.Quiet := by
  intro start
  cases h <;> rfl

/-- An operation of which the writer counts the pages: pages are begun by an operation of their own, not
as plain commands, and nothing is written but whole commands. -/
def Operation.Paged : Operation → Prop
  | command c => c.Plain ∧ c.Quiet
  | member base _ => ∃ family, Command.Family base family
  | fontDefinition _ _ _ _ _ _ | preamble _ _ => True
  | beginPage _ _ | moveRight _ | moveDown _ | selectFont _ | setChar _ => True
  | setFont _ | setH _ | setV _ => True
  | addPage | byte _ | word _ | signedWord _ | bracketPop _ | push => False

namespace Operation

variable {op : Operation}

theorem Paged.orderly (paged : op.Paged) (whole : ∀ base x, op ≠ .member base x) : op.Orderly := by
  cases op with
  | command c => exact .inl paged.1
  | member base x => exact absurd rfl (whole base x)
  | fontDefinition => exact orderly_fontDefinition ..
  | preamble => exact orderly_preamble ..
  | beginPage | moveRight | moveDown | selectFont | setChar => exact .inl trivial
  | setFont | setH | setV => exact .inl trivial
  | addPage | byte | word | signedWord | bracketPop | push => exact paged.elim

/-- An operation that is not there to begin a page begins none, and none is counted. -/
theorem Paged.quiet (paged : op.Paged) (other : ∀ counters prev, op ≠ .beginPage counters prev)
    (cache : Cache) :
    (∀ c ∈ (op.command? cache).toList, c.Quiet) ∧ (op.remembered cache).pages = cache.pages := by
  cases op with
  | command c =>
    refine ⟨by simpa [command?] using paged.2, ?_⟩
    cases c with
    | bop => cases paged.2 0
    | _ => rfl
  | fontDefinition | preamble | moveRight | moveDown =>
    refine ⟨?_, rfl⟩
    simp [command?, Command.Quiet, Command.page?]
  | selectFont | setChar =>
    refine ⟨?_, rfl⟩
    rw [command?]
    repeat' split
    all_goals simp [Command.Quiet, Command.page?]
  | beginPage counters prev => exact absurd rfl (other counters prev)
  | member | setFont | setH | setV => simp [command?, remembered]
  | addPage | byte | word | signedWord | bracketPop | push => exact paged.elim

end Operation

namespace Action

/-- A step of which the writer counts the pages. -/
def Paged : Action → Prop
  | perform op => op.Paged
  | openGroup | closeGroup => True

/-- What a step that begins a page is given as the location of the page before it. -/
def prev? : Action → Option Int32
  | perform (.beginPage _ prev) => some prev
  | _ => none

end Action

namespace Session

/-- The page that a step begins, at the location that it answers. -/
def begins (session : Session) (action : Action) : Option Page :=
  match action.prev?, step action session with
  | some prev, .ok (.position location) _ => some ⟨location, prev⟩
  | _, _ => none

/-- The pages that a session begins, in order. -/
def begun (session : Session) : List Action → List Page
  | [] => []
  | action :: rest => (session.begins action).toList ++ (session.attempt action).begun rest

/-- Every step that begins a page is given the location of the page that was begun before it. -/
def Chains (session : Session) (actions : List Action) : Prop :=
  ∀ done action, done ++ [action] <+: actions →
    ∀ prev ∈ action.prev?, prev.toInt = backPointer (session.begun done)

/-- It is enough to look at every step and at the steps before it. -/
theorem chains_iff {session : Session} {actions : List Action} :
    session.Chains actions ↔ ∀ i ∈ List.range actions.length, ∀ action ∈ actions[i]?.toList,
      action.prev?.all fun prev => prev.toInt = backPointer (session.begun (actions.take i)) := by
  simp only [Option.mem_toList, List.mem_range, Option.all_eq_true, decide_eq_true_eq]
  constructor
  · intro h i inside action found prev given
    refine h (actions.take i) action ?_ prev given
    have next : actions.take (i + 1) = actions.take i ++ [action] := by
      rw [List.take_add_one, Option.mem_def.mp found]
      rfl
    rw [← next]
    exact List.take_prefix (i + 1) actions
  · rintro h done action ⟨rest, rfl⟩ prev given
    have found := h done.length (by simp) action (by simp) prev given
    simpa using found

instance (session : Session) (actions : List Action) : Decidable (session.Chains actions) :=
  decidable_of_iff' _ chains_iff

/-- A session that has begun some pages: they are the pages of what was written so far, and there are as
many of them as the writer remembers. -/
structure HasBegun (session : Session) (size : BufferSize) (origin : Sink) (pages : List Page) :
    Prop where
  keeps : ∃ full out, session.Keeps size origin session.writer.cache full out ∧ pagesAt 0 out = pages
  count : session.writer.cache.pages = pages.length

variable {session : Session} {size : BufferSize} {origin : Sink} {pages : List Page}
  {action : Action} {op : Operation}

theorem hasBegun_new (size : BufferSize) (sink : Sink) :
    HasBegun ⟨Writer.new sink size, []⟩ size sink [] where
  keeps := ⟨[], [], keeps_new size sink, rfl⟩
  count := rfl

theorem begins_eq_none (quiet : action.prev? = none) : session.begins action = none := by
  rw [begins, quiet]

/-- The page that a step begins points to where the step was told. -/
theorem prev_of_begins {page : Page} (h : session.begins action = some page) :
    action.prev? = some page.prev := by
  rw [begins] at h
  split at h
  · next given _ =>
    cases h
    exact given
  · cases h

/-- Operations that do the same are the same step. -/
theorem attempt_congr {other : Operation} (same : op.perform = other.perform) :
    session.attempt (.perform op) = session.attempt (.perform other) := by
  rw [attempt, attempt, step, step, same]

/-- A step that begins no page leaves the pages as they are. -/
theorem HasBegun.attempt_of_quiet (h : session.HasBegun size origin pages) (reliable : origin.Reliable)
    (orderly : action.Orderly) (quiet : ∀ c ∈ session.asked action, c.Quiet)
    (uncounted : (action.remembered session.writer.cache).pages = session.writer.cache.pages) :
    (session.attempt action).HasBegun size origin pages := by
  obtain ⟨full, out, keeps, rfl⟩ := h.keeps
  obtain ⟨kept, goes, later, -⟩ := keeps.attempt reliable orderly
  have cache := later.cache_eq
  have same : pagesAt 0 kept = pagesAt 0 out := by
    rw [goes.pagesAt_eq keeps.going, pagesAt_eq_nil quiet, List.append_nil]
  rw [← cache] at later
  exact ⟨⟨_, kept, later, same⟩, by rw [cache, uncounted, h.count]⟩

/-- A step that begins a page adds this page at the place where the stream ends. -/
theorem HasBegun.beginPage (h : session.HasBegun size origin pages) (reliable : origin.Reliable)
    (counters : Vector Int32 10) (prev : Int32) :
    ∃ location, session.begins (.perform (.beginPage counters prev)) = some ⟨location, prev⟩
      ∧ (session.attempt (.perform (.beginPage counters prev))).HasBegun size origin
          (pages ++ [⟨location, prev⟩]) := by
  obtain ⟨full, out, keeps, rfl⟩ := h.keeps
  have whole : (Operation.beginPage counters prev).Whole := trivial
  obtain ⟨after, run, -, later⟩ := keeps.perform reliable whole
  have cache := later.cache_eq
  have one : pagesAt 0 (out ++ [.bop counters prev])
      = pagesAt 0 out ++ [⟨(bytesOf out).length, prev⟩] := by
    rw [pagesAt_append keeps.going, Nat.zero_add]
    rfl
  rw [← cache] at later
  refine ⟨(bytesOf out).length, ?_, ?_⟩
  · rw [begins, run]
    rfl
  · rw [attempt_of_ok run]
    refine ⟨⟨_, _, later, one⟩, ?_⟩
    rw [cache, List.length_append, ← h.count]
    rfl

/-- An operation that writes a whole command, or none, and begins no page. -/
theorem HasBegun.perform_orderly (h : session.HasBegun size origin pages) (reliable : origin.Reliable)
    (paged : op.Paged) (orderly : op.Orderly) (other : ∀ counters prev, op ≠ .beginPage counters prev) :
    (session.attempt (.perform op)).HasBegun size origin pages := by
  obtain ⟨quiet, uncounted⟩ := paged.quiet other session.writer.cache
  refine h.attempt_of_quiet reliable orderly ?_ uncounted
  intro c member
  exact quiet c (List.mem_filter.mp member).1

/-- Any operation but the one that begins pages leaves them as they are. -/
theorem HasBegun.perform (h : session.HasBegun size origin pages) (reliable : origin.Reliable)
    (paged : op.Paged) (other : ∀ counters prev, op ≠ .beginPage counters prev) :
    (session.attempt (.perform op)).HasBegun size origin pages := by
  cases op with
  | member base x =>
    -- A member of a family does what the command does that is left of it.
    obtain ⟨family, known⟩ := paged
    have plain := known.plain (.ofSigned x) x
    rw [attempt_congr (known.perform_eq x)]
    exact h.perform_orderly reliable ⟨plain, known.quiet _ x⟩ (.inl plain) nofun
  | _ => exact h.perform_orderly reliable paged (paged.orderly nofun) other

/-- A step that is not there to begin a page keeps all pages. -/
theorem HasBegun.attempt_of_none (h : (session.attempt action).HasBegun size origin pages)
    (quiet : action.prev? = none) :
    (session.attempt action).HasBegun size origin (pages ++ (session.begins action).toList)
      ∧ (session.begins action).isSome = action.prev?.isSome := by
  rw [begins_eq_none quiet, quiet, Option.toList_none, List.append_nil]
  exact ⟨h, rfl⟩

/-- A step keeps all pages and adds the one that it begins, if it is there to begin one. -/
theorem HasBegun.attempt (h : session.HasBegun size origin pages) (reliable : origin.Reliable)
    (paged : action.Paged) :
    (session.attempt action).HasBegun size origin (pages ++ (session.begins action).toList)
      ∧ (session.begins action).isSome = action.prev?.isSome := by
  cases action with
  | perform op =>
    cases op with
    | beginPage counters prev =>
      obtain ⟨location, begins, begun⟩ := h.beginPage reliable counters prev
      rw [begins]
      exact ⟨begun, rfl⟩
    | _ => exact HasBegun.attempt_of_none (h.perform reliable paged nofun) rfl
  | openGroup =>
    refine HasBegun.attempt_of_none (h.attempt_of_quiet reliable trivial ?_ rfl) rfl
    simp [asked, Command.Quiet, Command.page?]
  | closeGroup =>
    refine HasBegun.attempt_of_none (h.attempt_of_quiet reliable trivial ?_ rfl) rfl
    rw [asked]
    split <;> simp [Command.Quiet, Command.page?]

/-! ## Whole sessions -/

/-- A session keeps all pages, and adds one for each step that is there to begin one. -/
theorem HasBegun.attemptAll (h : session.HasBegun size origin pages) (reliable : origin.Reliable)
    {actions : List Action} (paged : ∀ action ∈ actions, action.Paged) :
    (session.attemptAll actions).HasBegun size origin (pages ++ session.begun actions)
      ∧ (session.begun actions).length = actions.countP (·.prev?.isSome) := by
  induction actions generalizing session pages with
  | nil => exact ⟨by rwa [begun, List.append_nil], rfl⟩
  | cons action rest ih =>
    obtain ⟨first, counts⟩ := h.attempt reliable (paged action List.mem_cons_self)
    obtain ⟨last, count⟩ := ih first fun other member => paged other (List.mem_cons_of_mem _ member)
    rw [begun, ← List.append_assoc]
    refine ⟨last, ?_⟩
    rw [List.length_append, count, List.countP_cons, ← counts, Nat.add_comm]
    cases session.begins action <;> rfl

theorem begun_append (session : Session) (done rest : List Action) :
    session.begun (done ++ rest) = session.begun done ++ (session.attemptAll done).begun rest := by
  induction done generalizing session with
  | nil => rfl
  | cons action done ih =>
    rw [List.cons_append, begun, begun, ih, List.append_assoc]
    rfl

/-- The pages that a session begins are linked if it passes every location on. -/
theorem Chains.linked {actions : List Action} (h : session.Chains actions) :
    Linked (session.begun actions) := by
  induction actions using List.reverseRecOn with
  | nil => exact linked_nil
  | append_singleton done action ih =>
    have earlier : session.Chains done := fun front other inside =>
      h front other (inside.trans (List.prefix_append ..))
    rw [begun_append, begun, begun, List.append_nil]
    cases begins : (session.attemptAll done).begins action with
    | none =>
      rw [Option.toList_none, List.append_nil]
      exact ih earlier
    | some page =>
      refine (ih earlier).concat ?_
      exact h done action List.prefix_rfl page.prev (prev_of_begins begins)

/-- What a session has written, if it ends here, is read without an error, and with these pages. -/
def Yields (session : Session) (origin : Sink) (pages : List Page) : Prop :=
  ∃ finished output, Writer.finish session.writer = .ok () finished
    ∧ finished.sink.record.octets.toList = origin.record.octets.toList ++ output
    ∧ (Reader.readAll (.ofBytes output)).error? = none
    ∧ (Reader.readAll (.ofBytes output)).pages = pages

theorem HasBegun.yields (h : session.HasBegun size origin pages) (reliable : origin.Reliable) :
    session.Yields origin pages := by
  obtain ⟨full, out, keeps, rfl⟩ := h.keeps
  obtain ⟨⟨finished, ends, taken⟩, sound, entries, -⟩ := keeps.reading reliable
  exact ⟨finished, bytesOf out, ends, taken, sound, pages_eq_pagesAt entries⟩

end Session

/-- Back pointers stay valid. Let a session write whole commands and open and close groups as it likes,
and give every page that it begins the location of the page before it, and -1 to the first one. Every
step that begins a page answers a location. The stream that is handed over in the end is read with just
these pages, each at the location that was answered; every page points to the one before it, and the
writer has counted all of them. And no step moves a page: if the session ends earlier, what is read are
the pages that were begun by then, and they are the first pages of the whole stream. -/
theorem back_pointers_stay_valid (size : BufferSize) (sink : Sink) (reliable : sink.Reliable)
    (actions : List Action) (paged : ∀ action ∈ actions, action.Paged)
    (chains : Session.Chains ⟨Writer.new sink size, []⟩ actions) :
    let start : Session := ⟨Writer.new sink size, []⟩
    let session := start.attemptAll actions
    (start.begun actions).length = actions.countP (·.prev?.isSome)
      ∧ ∃ finished output, Writer.finish session.writer = .ok () finished
        ∧ finished.sink.record.octets.toList = sink.record.octets.toList ++ output
        ∧ let reading := Reader.readAll (.ofBytes output)
          reading.error? = none
            ∧ reading.pages = start.begun actions
            ∧ Linked reading.pages
            ∧ session.writer.cache.pages = reading.pages.length
            ∧ ∀ done, done <+: actions → start.begun done <+: reading.pages
              ∧ (start.attemptAll done).Yields sink (start.begun done) := by
  intro start session
  have fresh : start.HasBegun size sink [] := Session.hasBegun_new size sink
  obtain ⟨begun, count⟩ := fresh.attemptAll reliable paged
  obtain ⟨finished, output, ends, taken, sound, read⟩ := begun.yields reliable
  refine ⟨count, finished, output, ends, taken, sound, read, read ▸ chains.linked,
    read ▸ begun.count, ?_⟩
  rintro done ⟨rest, rfl⟩
  have front : ∀ action ∈ done, action.Paged := fun action member =>
    paged action (List.mem_append_left rest member)
  obtain ⟨earlier, -⟩ := fresh.attemptAll reliable front
  refine ⟨?_, earlier.yields reliable⟩
  rw [read, List.nil_append, Session.begun_append]
  exact List.prefix_append ..

/-- Two pages, written through a buffer of eight bytes: the first one begins inside a group, and behind it
an empty group is taken back. -/
theorem back_pointers_stay_valid_inside_a_group :
    let page (prev : Int32) : Action := .perform (.beginPage (.replicate 10 0) prev)
    let actions : List Action := [.openGroup, page (-1), .openGroup, .closeGroup,
      .perform (.member Opcode.setBase (-7)), .closeGroup, page 1, .perform (.command .eop)]
    Sink.unbounded.Reliable ∧ (∀ action ∈ actions, action.Paged)
      ∧ Session.Chains ⟨Writer.new .unbounded ⟨4, Nat.le_refl 4⟩, []⟩ actions
      ∧ ∃ finished output,
        Writer.finish (Session.attemptAll ⟨Writer.new .unbounded ⟨4, Nat.le_refl 4⟩, []⟩ actions).writer
            = .ok () finished
          ∧ finished.sink.record.octets.toList = output
          ∧ let reading := Reader.readAll (.ofBytes output)
            reading.error? = none ∧ reading.pages = [⟨1, -1⟩, ⟨49, 1⟩] := by
  intro page actions
  have plain : Command.eop.Plain := ⟨⟨rfl, trivial, rfl⟩, Command.noConfusion, Command.noConfusion⟩
  have paged : ∀ action ∈ actions, action.Paged := by
    have family : ∃ family, Command.Family Opcode.setBase family := ⟨_, .set⟩
    have quiet : Command.eop.Quiet := fun _ => rfl
    simp [actions, page, Action.Paged, Operation.Paged, family, plain, quiet]
  have chains : Session.Chains ⟨Writer.new .unbounded ⟨4, Nat.le_refl 4⟩, []⟩ actions := by
    decide +kernel
  have begun : Session.begun ⟨Writer.new .unbounded ⟨4, Nat.le_refl 4⟩, []⟩ actions
      = [⟨1, -1⟩, ⟨49, 1⟩] := by
    decide +kernel
  obtain ⟨-, finished, output, ends, taken, sound, pages, -⟩ :=
    back_pointers_stay_valid ⟨4, Nat.le_refl 4⟩ .unbounded Sink.reliable_unbounded actions paged chains
  exact ⟨Sink.reliable_unbounded, paged, chains, finished, output, ends, taken, sound,
    pages.trans begun⟩

end Dvi
