/-
# Dvi.Proofs.Text.Json — written JSON is read back as the value that it was written for.

A scanner goes through a text character by character and keeps the arrays and objects that are open on a
stack (`Scanner.step`). `parse?` is the value that a whole text denotes. It knows integers, strings with
their escapes, arrays and objects, with white space between tokens; fractions, exponents, literals and
escaped surrogates, of which records have none, it refuses.

`Spells` says of a text that it puts a value wherever a value may stand. It does not say where the scanner
is afterwards, but only where it is once a number that may have been going on is over: a number has no end
of its own. What `Dvi.Text.Json` writes spells what it was written for (`spells_string`, `spells_array`,
`spells_object`), from the inside out.
-/
import Dvi.Text.Json
import Mathlib.Data.List.Forall2

namespace Dvi.Json

/-! ## A reader -/

/-- A value. The members of an object keep the order of the text, also those of one name. -/
inductive Value where
  | number (n : Int)
  | text (s : String)
  | array (values : List Value)
  | object (members : List (String × Value))

/-- The text that a value is, if it is one. -/
def Value.text? : Value → Option String
  | text s => some s
  | number _ | array _ | object _ => none

/-- An array or object of which the beginning was read, newest part first. -/
inductive Frame where
  | array (values : List Value)
  | object (members : List (String × Value))
  /-- An object in which the name of the next member was read, but not its value. -/
  | member (members : List (String × Value)) (name : String)

/-- What may come next in the innermost frame. -/
inductive Turn where
  /-- An item, or the end of a frame without items. -/
  | first
  /-- An item. -/
  | item
  /-- The colon after a name. -/
  | colon
  /-- A comma, or the end of the frame. -/
  | after

/-- Where in a token a scanner is. -/
inductive Place where
  | between
  /-- Behind a minus sign. -/
  | minus
  /-- Behind a digit. -/
  | digits (negative : Bool) (value : Nat)
  /-- Inside of quotes. The characters are kept newest first. -/
  | quoted (seen : List Char)
  /-- Behind a backslash. -/
  | escaped (seen : List Char)
  /-- Inside of a character that is given by its number. `more` digits follow the next one. -/
  | numbered (seen : List Char) (more : Nat) (value : Nat)

/-- A reader in the middle of a text. -/
structure Scanner where
  place : Place
  turn : Turn
  frames : List Frame

/-- The frames with one more value in the innermost one. -/
def put (v : Value) : List Frame → Option (List Frame)
  | .array values :: outer => some (.array (v :: values) :: outer)
  | .member members name :: outer => some (.object ((name, v) :: members) :: outer)
  | .object _ :: _ | [] => none

/-- The character that a letter behind a backslash stands for. -/
def unescape? : Char → Option Char
  | '"' => some '"'
  | '\\' => some '\\'
  | '/' => some '/'
  | 'b' => some '\x08'
  | 'f' => some '\x0c'
  | 'n' => some '\n'
  | 'r' => some '\r'
  | 't' => some '\t'
  | _ => none

def hexDigit? (c : Char) : Option Nat :=
  if c.isDigit then some (c.toNat - '0'.toNat)
  else if 'a' ≤ c ∧ c ≤ 'f' then some (c.toNat - 'a'.toNat + 10)
  else if 'A' ≤ c ∧ c ≤ 'F' then some (c.toNat - 'A'.toNat + 10)
  else none

namespace Scanner

/-- A text or a number is over. In an object, a text is the name of a member before it is a value. -/
def item (scanner : Scanner) (v : Value) : Option Scanner :=
  match scanner.turn with
  | .colon | .after => none
  | .first | .item =>
    match v, scanner.frames with
    | .text name, .object members :: outer => some ⟨.between, .colon, .member members name :: outer⟩
    | v, frames => (put v frames).map (⟨.between, .after, ·⟩)

/-- A frame is over. -/
def close (v : Value) (outer : List Frame) : Option Scanner :=
  (put v outer).map (⟨.between, .after, ·⟩)

/-- A character between tokens. -/
def start (scanner : Scanner) (c : Char) : Option Scanner :=
  match c, scanner.turn, scanner.frames with
  | '"', _, _ => some { scanner with place := .quoted [] }
  | '-', _, _ => some { scanner with place := .minus }
  | '[', .first, frames | '[', .item, frames => some ⟨.between, .first, .array [] :: frames⟩
  | '\x7b', .first, frames | '\x7b', .item, frames => some ⟨.between, .first, .object [] :: frames⟩
  | ']', .first, .array values :: outer | ']', .after, .array values :: outer =>
    close (.array values.reverse) outer
  | '\x7d', .first, .object members :: outer | '\x7d', .after, .object members :: outer =>
    close (.object members.reverse) outer
  | ',', .after, frames | ':', .colon, frames => some ⟨.between, .item, frames⟩
  | c, _, _ =>
    if c.isDigit then some { scanner with place := .digits false (c.toNat - '0'.toNat) }
    else if c.isWhitespace then some scanner
    else none

/-- The number that the digits behind a sign stand for. -/
def signed (negative : Bool) (value : Nat) : Value :=
  .number (if negative then -value else value)

/-- One more character. A number does not start with a zero if it has other digits. -/
def step (scanner : Scanner) (c : Char) : Option Scanner :=
  match scanner.place with
  | .between => scanner.start c
  | .minus =>
    if c.isDigit then some { scanner with place := .digits true (c.toNat - '0'.toNat) } else none
  | .digits negative value =>
    if c.isDigit then
      if value = 0 then none
      else some { scanner with place := .digits negative (10 * value + (c.toNat - '0'.toNat)) }
    else do (← scanner.item (signed negative value)).start c
  | .quoted seen =>
    if c = '"' then scanner.item (.text (String.ofList seen.reverse))
    else if c = '\\' then some { scanner with place := .escaped seen }
    else if c.toNat < 0x20 then none
    else some { scanner with place := .quoted (c :: seen) }
  | .escaped seen =>
    if c = 'u' then some { scanner with place := .numbered seen 3 0 }
    else (unescape? c).map fun c => { scanner with place := .quoted (c :: seen) }
  | .numbered seen more value => do
    let value := 16 * value + (← hexDigit? c)
    match more with
    | more + 1 => some { scanner with place := .numbered seen more value }
    | 0 =>
      if value.isValidChar then some { scanner with place := .quoted (Char.ofNat value :: seen) } else none

/-- The scanner once a number that may have been going on is over. -/
def settle (scanner : Scanner) : Option Scanner :=
  match scanner.place with
  | .between => some scanner
  | .digits negative value => scanner.item (signed negative value)
  | .minus | .quoted _ | .escaped _ | .numbered _ _ _ => none

/-- The scanner after a text. -/
def run (scanner : Scanner) (cs : List Char) : Option Scanner :=
  cs.foldlM step scanner

end Scanner

/-- The value that a text denotes. What is open around all of the text is like an array of which the
brackets are left out, and has to hold one value in the end. -/
def parse? (text : String) : Option Value := do
  let last ← Scanner.run ⟨.between, .item, [.array []]⟩ text.toList
  match ← last.settle with
  | ⟨.between, .after, [.array [v]]⟩ => some v
  | _ => none

example : parse? "\x7b\"a\":[1, -20],\"\\u0041\":\"\\n\"\x7d"
    = some (.object [("a", .array [.number 1, .number (-20)]), ("A", .text "\n")]) := by
  rfl

example : parse? "[1,]" = none ∧ parse? "01" = none ∧ parse? "1,2" = none ∧ parse? "]" = none := by
  refine ⟨rfl, rfl, rfl, rfl⟩

/-! ## Texts that spell a value -/

/-- An item may stand here. -/
def Turn.Opens (turn : Turn) : Prop :=
  turn = first ∨ turn = item

/-- The characters are one more item of the innermost frame. -/
def Adds (cs : List Char) (frames after : List Frame) : Prop :=
  ∀ turn : Turn, turn.Opens → ∃ last, Scanner.run ⟨.between, turn, frames⟩ cs = some last
    ∧ last.settle = some ⟨.between, .after, after⟩

/-- The text denotes the value wherever a value may stand. -/
def Spells (text : String) (v : Value) : Prop :=
  ∀ frames after, put v frames = some after → Adds text.toList frames after

namespace Scanner

variable {scanner last : Scanner} {turn : Turn} {frames after outer : List Frame}

theorem run_cons (scanner : Scanner) (c : Char) (cs : List Char) :
    scanner.run (c :: cs) = (scanner.step c).bind (run · cs) := by
  rw [run, List.foldlM_cons]
  rfl

theorem run_append (scanner : Scanner) (front back : List Char) :
    scanner.run (front ++ back) = (scanner.run front).bind (run · back) := by
  rw [run, List.foldlM_append]
  rfl

theorem run_singleton (scanner : Scanner) (c : Char) : scanner.run [c] = scanner.step c := by
  rw [run_cons]
  exact Option.bind_fun_some _

/-- A character that cannot go on with a number ends it. -/
theorem step_of_settle (settles : last.settle = some ⟨.between, turn, frames⟩) {c : Char}
    (other : c.isDigit = false) : last.step c = start ⟨.between, turn, frames⟩ c := by
  obtain ⟨place, _, _⟩ := last
  cases place with
  | between =>
    rw [Option.some.inj settles]
    rfl
  | digits negative value =>
    have ends : item _ (signed negative value) = some _ := settles
    simp [step, other, ends]
  | minus | quoted | escaped | numbered => cases settles

theorem item_of_put (opens : turn.Opens) {v : Value} (puts : put v frames = some after) (place : Place) :
    item ⟨place, turn, frames⟩ v = some ⟨.between, .after, after⟩ := by
  have kept : (put v frames).map (fun frames => (⟨.between, .after, frames⟩ : Scanner))
      = some ⟨.between, .after, after⟩ := by
    rw [puts]
    rfl
  rcases opens with rfl | rfl
  all_goals
    unfold item
    dsimp only
    split
    · cases puts
    · exact kept

end Scanner

/-! ## Numbers -/

namespace Scanner

variable {turn : Turn} {frames : List Frame}

theorem digitChar_spec {d : Nat} (small : d < 10) :
    (Nat.digitChar d).isDigit = true ∧ (Nat.digitChar d).toNat - '0'.toNat = d := by
  rw [Nat.isDigit_digitChar, Nat.toNat_digitChar_of_lt_ten small]
  exact ⟨decide_eq_true small, Nat.add_sub_cancel_left ..⟩

theorem step_digitChar {d : Nat} (small : d < 10) :
    step ⟨.between, turn, frames⟩ (Nat.digitChar d) = some ⟨.digits false d, turn, frames⟩ := by
  match d, small with
  | 0, _ | 1, _ | 2, _ | 3, _ | 4, _ | 5, _ | 6, _ | 7, _ | 8, _ | 9, _ => rfl

/-- The digits of a number are read up to the number, from anywhere that a number may begin. -/
theorem run_toDigits {place : Place} {negative : Bool}
    (begins : ∀ d < 10, step ⟨place, turn, frames⟩ (Nat.digitChar d) = some ⟨.digits negative d, turn, frames⟩)
    (n : Nat) : run ⟨place, turn, frames⟩ (Nat.toDigits 10 n) = some ⟨.digits negative n, turn, frames⟩ := by
  induction n using Nat.strongRecOn with
  | ind n ih =>
    by_cases small : n < 10
    · rw [Nat.toDigits_of_lt_base small, run_singleton, begins n small]
    · have last : n % 10 < 10 := Nat.mod_lt n (by decide)
      have more : n / 10 ≠ 0 := by omega
      have whole : 10 * (n / 10) + n % 10 = n := Nat.div_add_mod n 10
      obtain ⟨digit, value⟩ := digitChar_spec last
      rw [Nat.toDigits_of_base_le (by decide) (Nat.le_of_not_lt small), run_append, ih (n / 10) (by omega),
        Option.bind_some, run_singleton, step]
      dsimp only
      rw [if_pos digit, if_neg more, value, whole]

end Scanner

/-- A number in decimal digits spells the number. -/
theorem spells_number (n : Int) : Spells (toString n) (.number n) := by
  intro frames after puts turn opens
  have ends (negative : Bool) (value : Nat) (same : Scanner.signed negative value = .number n) :
      Scanner.settle ⟨.digits negative value, turn, frames⟩ = some ⟨.between, .after, after⟩ := by
    rw [Scanner.settle]
    dsimp only
    rw [same]
    exact Scanner.item_of_put opens puts _
  rw [show toString n = n.repr from rfl, Int.repr_eq_if]
  split
  · next natural =>
    refine ⟨_, ?_, ends false n.toNat ?_⟩
    · rw [Nat.repr_eq_ofList_toDigits, String.toList_ofList]
      exact Scanner.run_toDigits (fun d small => Scanner.step_digitChar small) n.toNat
    · rw [Scanner.signed, if_neg Bool.false_ne_true, Int.toNat_of_nonneg natural]
  · next negative =>
    refine ⟨_, ?_, ends true (-n).toNat ?_⟩
    · have sign : Scanner.step ⟨.between, turn, frames⟩ '-' = some ⟨.minus, turn, frames⟩ := rfl
      rw [Nat.repr_eq_ofList_toDigits, String.toList_append, String.toList_ofList, String.toList_ofList]
      show Scanner.run _ ('-' :: Nat.toDigits 10 (-n).toNat) = _
      rw [Scanner.run_cons, sign, Option.bind_some]
      apply Scanner.run_toDigits
      intro d small
      obtain ⟨digit, value⟩ := Scanner.digitChar_spec small
      rw [Scanner.step]
      dsimp only
      rw [if_pos digit, value]
    · rw [Scanner.signed, if_pos rfl, Int.toNat_of_nonneg (by omega), Int.neg_neg]

/-! ## Strings -/

namespace Scanner

variable {turn : Turn} {frames : List Frame}

theorem hexDigit?_digitChar : ∀ d < 16, hexDigit? (Nat.digitChar d) = some d := by
  decide

/-- A character is read back from what stands for it inside of quotes. -/
theorem run_char (c : Char) (seen : List Char) :
    run ⟨.quoted seen, turn, frames⟩ (char c) = some ⟨.quoted (c :: seen), turn, frames⟩ := by
  unfold char
  iterate 7
    split
    · next same => rw [same]; rfl
  split
  · next control =>
    have high : hexDigit? (Nat.digitChar (c.toNat / 16)) = some (c.toNat / 16) :=
      hexDigit?_digitChar _ (by omega)
    have low : hexDigit? (Nat.digitChar (c.toNat % 16)) = some (c.toNat % 16) :=
      hexDigit?_digitChar _ (Nat.mod_lt _ (by decide))
    have zeros : run ⟨.quoted seen, turn, frames⟩ ['\\', 'u', '0', '0']
        = some ⟨.numbered seen 1 0, turn, frames⟩ := rfl
    have whole : 16 * (16 * 0 + c.toNat / 16) + c.toNat % 16 = c.toNat := by omega
    show run _ (['\\', 'u', '0', '0'] ++ [_, _]) = _
    rw [run_append, zeros, Option.bind_some, run_cons, step]
    dsimp only
    rw [high]
    simp only [Option.bind_eq_bind, Option.bind_some, run_singleton, step, low, whole, Char.ofNat_toNat]
    exact if_pos c.valid
  · next quote backslash _ _ _ _ _ control =>
    rw [run_singleton, step]
    dsimp only
    rw [if_neg quote, if_neg backslash, if_neg control]

theorem run_quoted (cs seen : List Char) : run ⟨.quoted seen, turn, frames⟩ (cs.flatMap char)
    = some ⟨.quoted (cs.reverse ++ seen), turn, frames⟩ := by
  induction cs generalizing seen with
  | nil => rfl
  | cons c cs ih =>
    rw [List.flatMap_cons, run_append, run_char, Option.bind_some, ih, List.reverse_cons, List.append_assoc]
    rfl

/-- A string is over at its closing quote. -/
theorem run_string (s : String) : run ⟨.between, turn, frames⟩ (string s).toList
    = item ⟨.quoted s.toList.reverse, turn, frames⟩ (.text s) := by
  have opens : step ⟨.between, turn, frames⟩ '"' = some ⟨.quoted [], turn, frames⟩ := rfl
  rw [string, String.toList_ofList, quote, List.cons_append, run_cons, opens, Option.bind_some, run_append,
    run_quoted, Option.bind_some, run_singleton, List.append_nil, step]
  dsimp only
  rw [if_pos rfl, List.reverse_reverse, String.ofList_toList]

end Scanner

/-- A quoted text spells the text. -/
theorem spells_string (s : String) : Spells (string s) (.text s) := by
  intro frames after puts turn opens
  refine ⟨⟨.between, .after, after⟩, ?_, rfl⟩
  rw [Scanner.run_string]
  exact Scanner.item_of_put opens puts _

/-! ## Arrays and objects -/

section

variable {α : Type} {frame : List α → Frame} {texts : List (List Char)} {items : List α}

/-- Items that are each added on their own are added one after the other, with commas in between. -/
theorem adds_intercalate
    (each : List.Forall₂ (fun cs x => ∀ seen outer, Adds cs (frame seen :: outer) (frame (x :: seen) :: outer))
      texts items)
    (occupied : texts ≠ []) (seen : List α) (outer : List Frame) :
    Adds ([','].intercalate texts) (frame seen :: outer) (frame (items.reverse ++ seen) :: outer) := by
  induction each generalizing seen with
  | nil => exact absurd rfl occupied
  | @cons cs x texts items adds others ih =>
    cases others with
    | nil =>
      rw [List.intercalate_singleton]
      exact adds seen outer
    | cons =>
      intro turn opens
      obtain ⟨settling, runs, settles⟩ := adds seen outer turn opens
      obtain ⟨last, later, ends⟩ := ih (List.cons_ne_nil _ _) (x :: seen) .item (.inr rfl)
      refine ⟨last, ?_, ?_⟩
      · rw [List.intercalate_cons_cons, List.append_assoc, Scanner.run_append, runs, Option.bind_some,
          List.singleton_append, Scanner.run_cons, Scanner.step_of_settle settles rfl]
        exact later
      · rw [List.reverse_cons, List.append_assoc]
        exact ends

/-- Items between brackets spell what the closing bracket makes of them. -/
theorem spells_bracketed {value : List α → Value} {opening closing : Char}
    (enters : ∀ turn frames, Turn.Opens turn →
      Scanner.step ⟨.between, turn, frames⟩ opening = some ⟨.between, .first, frame [] :: frames⟩)
    (leaves : ∀ turn seen outer, turn = .first ∨ turn = .after →
      Scanner.start ⟨.between, turn, frame seen :: outer⟩ closing = Scanner.close (value seen.reverse) outer)
    (mark : closing.isDigit = false)
    (each : List.Forall₂ (fun cs x => ∀ seen outer, Adds cs (frame seen :: outer) (frame (x :: seen) :: outer))
      texts items) :
    Spells (String.ofList (opening :: [','].intercalate texts ++ [closing])) (value items) := by
  intro frames after puts turn opens
  have closes : Scanner.close (value items) frames = some ⟨.between, .after, after⟩ := by
    rw [Scanner.close, puts]
    rfl
  refine ⟨⟨.between, .after, after⟩, ?_, rfl⟩
  rw [String.toList_ofList, List.cons_append, Scanner.run_cons, enters turn frames opens, Option.bind_some]
  by_cases occupied : texts = []
  · subst occupied
    cases each
    rw [List.intercalate_nil, List.nil_append, Scanner.run_singleton]
    exact (leaves .first [] frames (.inl rfl)).trans closes
  · obtain ⟨last, runs, settles⟩ := adds_intercalate each occupied [] frames .first (.inl rfl)
    rw [Scanner.run_append, runs, Option.bind_some, Scanner.run_singleton, Scanner.step_of_settle settles mark,
      leaves .after _ frames (.inr rfl), List.append_nil, List.reverse_reverse, closes]

end

/-- Values between commas and brackets spell the array of the values. -/
theorem spells_array {texts : List String} {values : List Value} (each : List.Forall₂ Spells texts values) :
    Spells (array texts) (.array values) := by
  have items : List.Forall₂
      (fun cs v => ∀ seen outer, Adds cs (.array seen :: outer) (.array (v :: seen) :: outer))
      (texts.map String.toList) values := by
    rw [List.forall₂_map_left_iff]
    exact each.imp fun text v spells seen outer => spells _ _ rfl
  have written : array texts = String.ofList ('[' :: [','].intercalate (texts.map String.toList) ++ [']']) := by
    rw [array, ← String.toList_inj]
    simp [String.toList_intercalate]
  rw [written]
  refine spells_bracketed (fun turn frames opens => ?_) (fun turn seen outer ends => ?_) rfl items
  · rcases opens with rfl | rfl <;> rfl
  · rcases ends with rfl | rfl <;> rfl

/-- A name, a colon and a value are a member. -/
theorem adds_member {text : String} {v : Value} (spells : Spells text v) (name : String)
    (seen : List (String × Value)) (outer : List Frame) :
    Adds (string name ++ ":" ++ text).toList (.object seen :: outer) (.object ((name, v) :: seen) :: outer) := by
  intro turn opens
  have named : Scanner.item ⟨.quoted name.toList.reverse, turn, .object seen :: outer⟩ (.text name)
      = some ⟨.between, .colon, .member seen name :: outer⟩ := by
    rcases opens with rfl | rfl <;> rfl
  obtain ⟨last, runs, settles⟩ := spells (.member seen name :: outer) _ rfl .item (.inr rfl)
  refine ⟨last, ?_, settles⟩
  rw [String.toList_append, String.toList_append, List.append_assoc, Scanner.run_append, Scanner.run_string,
    named, Option.bind_some, Scanner.run_append]
  exact runs

/-- Names and values between commas and braces spell the object of these members. -/
theorem spells_object {written : List (String × String)} {members : List (String × Value)}
    (each : List.Forall₂ (fun text member => text.1 = member.1 ∧ Spells text.2 member.2) written members) :
    Spells (object written) (.object members) := by
  let write : String × String → List Char := fun text => (string text.1 ++ ":" ++ text.2).toList
  have items : List.Forall₂
      (fun cs member => ∀ seen outer, Adds cs (.object seen :: outer) (.object (member :: seen) :: outer))
      (written.map write) members := by
    rw [List.forall₂_map_left_iff]
    refine each.imp ?_
    rintro ⟨name, text⟩ ⟨_, v⟩ ⟨rfl, spells⟩ seen outer
    exact adds_member spells name seen outer
  have whole : object written
      = String.ofList ('\x7b' :: [','].intercalate (written.map write) ++ ['\x7d']) := by
    rw [object, ← String.toList_inj]
    simp [String.toList_intercalate, write, Function.comp_def]
  rw [whole]
  refine spells_bracketed (fun turn frames opens => ?_) (fun turn seen outer ends => ?_) rfl items
  · rcases opens with rfl | rfl <;> rfl
  · rcases ends with rfl | rfl <;> rfl

/-! ## Whole texts -/

theorem parse?_of_spells {text : String} {v : Value} (spells : Spells text v) : parse? text = some v := by
  obtain ⟨last, runs, settles⟩ := spells [.array []] _ rfl .item (.inr rfl)
  rw [parse?, runs]
  simp only [Option.bind_eq_bind, Option.bind_some, settles]

end Dvi.Json
