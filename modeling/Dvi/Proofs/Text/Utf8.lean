/-
# Dvi.Proofs.Text.Utf8 — what is shown of octets, and how many lines it has.

`Shows` says what is to be shown without reading anything: the characters whose encodings stand one behind
the other and, where none stands, a replacement character for the longest start of one that does, or for a
single octet. `lossy` shows exactly this (`shows_iff`). So octets that encode a text are shown as that text
(`lossy_encode`), and two texts never share their octets. Whatever the octets are, what is shown of them has
a line feed for each line feed among them (`count_lossy`).
-/
import Dvi.Text.Utf8

namespace Dvi.Utf8

/-- Octets that spell a text. -/
def Valid (octets : Bytes) : Prop :=
  ∃ text, encode text = octets

/-! ## One piece after the other -/

/-- The pieces that were seen before stand before the others. -/
theorem piecesAfter_append (seen before : List Piece) (octets : Bytes) :
    piecesAfter (seen ++ before) octets = before.reverse ++ piecesAfter seen octets := by
  fun_induction piecesAfter seen octets with
  | case1 seen => rw [piecesAfter, List.reverse_append]
  | case2 seen b rest shorter ih => rw [piecesAfter, ← List.cons_append, ih]

@[simp]
theorem pieces_nil : pieces [] = [] := by
  rw [pieces, piecesAfter, List.reverse_nil]

theorem pieces_cons (b : UInt8) (rest : Bytes) :
    pieces (b :: rest) = (first b rest).1 :: pieces (first b rest).2 := by
  rw [pieces, piecesAfter]
  exact piecesAfter_append [] [(first b rest).1] (first b rest).2

@[simp]
theorem lossy_nil : lossy [] = "" := by
  rw [lossy, pieces_nil, List.map_nil, String.ofList_nil]

theorem toList_lossy_cons (b : UInt8) (rest : Bytes) :
    (lossy (b :: rest)).toList = (first b rest).1.shown :: (lossy (first b rest).2).toList := by
  simp only [lossy, pieces_cons, List.map_cons, String.toList_ofList]

/-! ## Octets that spell a text -/

/-- A continuation byte adds six bits. -/
theorem follow_cons {more : Nat} {low high : UInt8} {digit : Nat}
    (inside : low.toNat ≤ digit + 128 ∧ digit + 128 ≤ high.toNat) (bits : Nat) (taken rest : Bytes) :
    follow (more + 1) low high bits taken (UInt8.ofNat (digit + 128) :: rest)
      = follow more 0x80 0xBF (bits * 64 + digit) (UInt8.ofNat (digit + 128) :: taken) rest := by
  have top : high.toNat < 256 := high.toNat_lt
  have value : (UInt8.ofNat (digit + 128)).toNat = digit + 128 := by
    rw [UInt8.toNat_ofNat']
    omega
  have stands : low ≤ UInt8.ofNat (digit + 128) ∧ UInt8.ofNat (digit + 128) ≤ high := by
    rw [UInt8.le_iff_toNat_le, UInt8.le_iff_toNat_le, value]
    exact inside
  rw [follow, if_pos stands, value, Nat.add_sub_cancel]

/-- A digit of six bits fits the range of the bytes in the middle. -/
theorem inside_tail {digit : Nat} (small : digit < 64) :
    (0x80 : UInt8).toNat ≤ digit + 128 ∧ digit + 128 ≤ (0xBF : UInt8).toNat :=
  ⟨Nat.le_add_left .., Nat.le_of_lt_succ (Nat.add_lt_add_right small 128)⟩

theorem Lead.ofByte?_two : ∀ d < 32, 2 ≤ d →
    ofByte? (UInt8.ofNat (d + 192)) = some ⟨1, d, 0x80, 0xBF⟩ := by
  decide

theorem Lead.ofByte?_three : ∀ d < 16, ofByte? (UInt8.ofNat (d + 224))
    = some ⟨2, d, if d = 0 then 0xA0 else 0x80, if d = 13 then 0x9F else 0xBF⟩ := by
  decide

theorem Lead.ofByte?_four : ∀ d < 5, ofByte? (UInt8.ofNat (d + 240))
    = some ⟨3, d, if d = 0 then 0x90 else 0x80, if d = 4 then 0x8F else 0xBF⟩ := by
  decide

/-- What a byte above ASCII starts is what it announces. -/
theorem first_lead {n : Nat} (above : 128 ≤ n) (octet : n < 256) {lead : Lead}
    (announces : Lead.ofByte? (UInt8.ofNat n) = some lead) (rest : Bytes) :
    first (UInt8.ofNat n) rest = follow lead.more lead.low lead.high lead.bits [UInt8.ofNat n] rest := by
  have value : (UInt8.ofNat n).toNat = n := by
    rw [UInt8.toNat_ofNat']
    omega
  rw [first, value, if_neg (by omega), announces]

/-- The octets of a character are read back as this character. -/
theorem first_utf8EncodeChar (c : Char) (rest : Bytes) :
    ∃ b more, String.utf8EncodeChar c = b :: more ∧ first b (more ++ rest) = (.char c, rest) := by
  have valid : c.toNat < 0xD800 ∨ 0xDFFF < c.toNat ∧ c.toNat < 0x110000 := c.valid
  have same : Char.ofNat c.toNat = c := Char.ofNat_toNat c
  unfold String.utf8EncodeChar
  rw [show c.val.toNat = c.toNat from rfl]
  generalize c.toNat = n at *
  dsimp only
  split
  · have value : (UInt8.ofNat n).toNat = n := by
      rw [UInt8.toNat_ofNat']
      omega
    refine ⟨_, _, rfl, ?_⟩
    rw [first, value, if_pos (by omega), same]
    rfl
  split
  · have bits : n / 64 * 64 + n % 64 = n := by omega
    refine ⟨_, _, rfl, ?_⟩
    rw [Nat.mod_eq_of_lt (by omega : n / 64 < 32),
      first_lead (by omega) (by omega) (Lead.ofByte?_two _ (by omega) (by omega))]
    simp only [List.cons_append, List.nil_append]
    rw [follow_cons (inside_tail (by omega)), follow, bits, same]
  split
  · have bits : (n / 4096 * 64 + n / 64 % 64) * 64 + n % 64 = n := by omega
    refine ⟨_, _, rfl, ?_⟩
    rw [Nat.mod_eq_of_lt (by omega : n / 4096 < 16),
      first_lead (by omega) (by omega) (Lead.ofByte?_three _ (by omega))]
    simp only [List.cons_append, List.nil_append]
    have inside : (if n / 4096 = 0 then (0xA0 : UInt8) else 0x80).toNat ≤ n / 64 % 64 + 128
        ∧ n / 64 % 64 + 128 ≤ (if n / 4096 = 13 then (0x9F : UInt8) else 0xBF).toNat := by
      split <;> split <;> simp <;> omega
    rw [follow_cons inside, follow_cons (inside_tail (by omega)), follow, bits, same]
  · have bits : ((n / 262144 * 64 + n / 4096 % 64) * 64 + n / 64 % 64) * 64 + n % 64 = n := by omega
    refine ⟨_, _, rfl, ?_⟩
    rw [Nat.mod_eq_of_lt (by omega : n / 262144 < 8),
      first_lead (by omega) (by omega) (Lead.ofByte?_four _ (by omega))]
    simp only [List.cons_append, List.nil_append]
    have inside : (if n / 262144 = 0 then (0x90 : UInt8) else 0x80).toNat ≤ n / 4096 % 64 + 128
        ∧ n / 4096 % 64 + 128 ≤ (if n / 262144 = 4 then (0x8F : UInt8) else 0xBF).toNat := by
      split <;> split <;> simp <;> omega
    rw [follow_cons inside, follow_cons (inside_tail (by omega)), follow_cons (inside_tail (by omega)), follow,
      bits, same]

/-! ## What a character was read from -/

/-- The bits of a number without those in the last bytes of its encoding, six in each. -/
def leading : (more : Nat) → (n : Nat) → Nat
  | 0, n => n
  | more + 1, n => leading more n / 64

/-- The last bytes of the encoding of a number. -/
def tail : (more : Nat) → (n : Nat) → Bytes
  | 0, _ => []
  | more + 1, n => UInt8.ofNat (leading more n % 64 + 128) :: tail more n

theorem toNat_ofNat {n : Nat} (valid : n.isValidChar) : (Char.ofNat n).toNat = n := by
  rw [Char.ofNat, dif_pos valid]
  rfl

theorem utf8EncodeChar_two {b : UInt8} {n : Nat} (above : 0x80 ≤ n) (below : n < 0x800)
    (lead : b.toNat = n / 64 + 192) : String.utf8EncodeChar (Char.ofNat n) = b :: tail 1 n := by
  have value : (Char.ofNat n).val.toNat = n := toNat_ofNat (.inl (by omega))
  rw [← UInt8.ofNat_toNat (x := b), lead]
  unfold String.utf8EncodeChar
  rw [value]
  dsimp only
  rw [if_neg (by omega), if_pos (by omega), Nat.mod_eq_of_lt (by omega : n / 64 < 32)]
  rfl

theorem utf8EncodeChar_three {b : UInt8} {n : Nat} (above : 0x800 ≤ n) (below : n < 0x10000)
    (valid : n < 0xD800 ∨ 0xDFFF < n) (lead : b.toNat = n / 4096 + 224) :
    String.utf8EncodeChar (Char.ofNat n) = b :: tail 2 n := by
  have value : (Char.ofNat n).val.toNat = n := toNat_ofNat (by unfold Nat.isValidChar; omega)
  rw [← UInt8.ofNat_toNat (x := b), lead]
  unfold String.utf8EncodeChar
  rw [value]
  dsimp only
  rw [if_neg (by omega), if_neg (by omega), if_pos (by omega), Nat.mod_eq_of_lt (by omega : n / 4096 < 16)]
  rfl

theorem utf8EncodeChar_four {b : UInt8} {n : Nat} (above : 0x10000 ≤ n) (below : n < 0x110000)
    (lead : b.toNat = n / 262144 + 240) :
    String.utf8EncodeChar (Char.ofNat n) = b :: tail 3 n := by
  have value : (Char.ofNat n).val.toNat = n := toNat_ofNat (.inr ⟨by omega, by omega⟩)
  rw [← UInt8.ofNat_toNat (x := b), lead]
  unfold String.utf8EncodeChar
  rw [value]
  dsimp only
  rw [if_neg (by omega), if_neg (by omega), if_neg (by omega), Nat.mod_eq_of_lt (by omega : n / 262144 < 8)]
  simp only [tail, leading, Nat.div_div_eq_div_mul, Nat.reduceMul]

theorem Lead.range {b : UInt8} {lead : Lead} (announces : Lead.ofByte? b = some lead) :
    0x80 ≤ lead.low ∧ lead.low ≤ lead.high ∧ lead.high ≤ 0xBF := by
  unfold Lead.ofByte? at announces
  dsimp only at announces
  repeat' split at announces
  all_goals cases announces
  all_goals simp

/-- A byte and the number whose bits it announces make up the encoding of a character. -/
theorem utf8EncodeChar_lead {b : UInt8} {lead : Lead} (announces : Lead.ofByte? b = some lead) {n : Nat}
    (bits : leading lead.more n = lead.bits)
    (second : ∀ k, lead.more = k + 1 →
      lead.low.toNat ≤ leading k n % 64 + 128 ∧ leading k n % 64 + 128 ≤ lead.high.toNat) :
    String.utf8EncodeChar (Char.ofNat n) = b :: tail lead.more n := by
  unfold Lead.ofByte? at announces
  dsimp only at announces
  repeat' split at announces
  all_goals cases announces
  all_goals
    have digit := second _ rfl
    simp only [leading, UInt8.reduceToNat] at bits digit
  · exact utf8EncodeChar_two (by omega) (by omega) (by omega)
  · exact utf8EncodeChar_three (by omega) (by omega) (by omega) (by omega)
  · exact utf8EncodeChar_three (by omega) (by omega) (by omega) (by omega)
  · exact utf8EncodeChar_three (by omega) (by omega) (by omega) (by omega)
  · exact utf8EncodeChar_four (by omega) (by omega) (by omega)
  · exact utf8EncodeChar_four (by omega) (by omega) (by omega)
  · exact utf8EncodeChar_four (by omega) (by omega) (by omega)

/-- A character that was read to its end has the bytes of a number whose first bits were known before. -/
theorem follow_char {more : Nat} {low high : UInt8} {bits : Nat} {taken rest later : Bytes} {c : Char}
    (bottom : 0x80 ≤ low) (top : high ≤ 0xBF)
    (reads : follow more low high bits taken rest = (.char c, later)) :
    ∃ n, c = Char.ofNat n ∧ rest = tail more n ++ later ∧ leading more n = bits
      ∧ ∀ k, more = k + 1 →
        low.toNat ≤ leading k n % 64 + 128 ∧ leading k n % 64 + 128 ≤ high.toNat := by
  fun_induction follow more low high bits taken rest with
  | case1 low high taken bits rest =>
    cases reads
    refine ⟨bits, rfl, rfl, rfl, ?_⟩
    intro k same
    cases same
  | case2 => cases reads
  | case3 more low high bits taken b rest inside ih =>
    obtain ⟨n, char, split, above, -⟩ := ih (by decide) (by decide) reads
    rw [UInt8.le_iff_toNat_le] at bottom top inside
    rw [UInt8.le_iff_toNat_le] at inside
    have ends : (0x80 : UInt8).toNat = 128 ∧ (0xBF : UInt8).toNat = 191 := ⟨rfl, rfl⟩
    have digit : leading more n % 64 + 128 = b.toNat := by omega
    refine ⟨n, char, ?_, ?_, ?_⟩
    · rw [tail, digit, UInt8.ofNat_toNat, split]
      rfl
    · rw [leading, above]
      omega
    · intro k same
      cases same
      rw [digit]
      exact inside
  | case4 => cases reads

/-- A character is read from its encoding. -/
theorem first_char {b : UInt8} {rest later : Bytes} {c : Char} (reads : first b rest = (.char c, later)) :
    b :: rest = String.utf8EncodeChar c ++ later := by
  unfold first at reads
  split at reads
  · next small =>
    cases reads
    have value : (Char.ofNat b.toNat).val.toNat = b.toNat := toNat_ofNat (.inl (by omega))
    have single : String.utf8EncodeChar (Char.ofNat b.toNat) = [UInt8.ofNat (Char.ofNat b.toNat).val.toNat] :=
      if_pos (by omega)
    rw [single, value, UInt8.ofNat_toNat]
    rfl
  · split at reads
    · cases reads
    · next lead announces =>
      obtain ⟨bottom, -, top⟩ := Lead.range announces
      obtain ⟨n, rfl, rfl, bits, second⟩ := follow_char bottom top reads
      rw [utf8EncodeChar_lead announces bits second]
      rfl

/-! ## Invalid parts -/

/-- The encoding of some character starts with these octets. -/
def Starts (octets : Bytes) : Prop :=
  ∃ c, octets <+: String.utf8EncodeChar c

/-- The part of the octets that one replacement character stands for: the longest start of an encoding, or
a single octet if no encoding starts there. -/
structure Broken (part octets : Bytes) : Prop where
  some : part ≠ []
  starts : part.length = 1 ∨ Starts part
  longest : ∀ front, front <+: octets → Starts front → front.length ≤ part.length

/-- What is shown of octets: each character for its encoding and, where no encoding stands, a replacement
character for as much as is the start of one. -/
inductive Shows : Bytes → List Char → Prop
  | nil : Shows [] []
  | char (c : Char) {rest : Bytes} {cs : List Char} (h : Shows rest cs) :
      Shows (String.utf8EncodeChar c ++ rest) (c :: cs)
  | invalid {part rest : Bytes} {cs : List Char} (none : ∀ c, ¬ String.utf8EncodeChar c <+: part ++ rest)
      (broken : Broken part (part ++ rest)) (h : Shows rest cs) : Shows (part ++ rest) ('\uFFFD' :: cs)

/-- From anywhere inside an encoding some bytes lead to its end. -/
theorem follow_completion (more : Nat) {low high : UInt8} (range : low ≤ high) (bits : Nat) (taken : Bytes) :
    ∃ completion c, follow more low high bits taken completion = (.char c, []) := by
  induction more generalizing low high bits taken with
  | zero => exact ⟨[], _, rfl⟩
  | succ more ih =>
    have tails : (0x80 : UInt8) ≤ 0xBF := by decide
    obtain ⟨completion, c, reads⟩ := ih tails (bits * 64 + (low.toNat - 0x80)) (low :: taken)
    refine ⟨low :: completion, c, ?_⟩
    rw [follow, if_pos ⟨UInt8.le_refl low, range⟩, reads]

/-- An encoding that breaks off might have gone on, but not with the byte that stands there. -/
theorem follow_invalid {more : Nat} {low high : UInt8} {bits : Nat} {taken rest part later : Bytes}
    (range : low ≤ high) (reads : follow more low high bits taken rest = (.invalid part, later)) :
    ∃ read, rest = read ++ later ∧ part = taken.reverse ++ read
      ∧ (∃ completion c, follow more low high bits taken (read ++ completion) = (.char c, []))
      ∧ ∀ b left, later = b :: left → ∀ other,
        follow more low high bits taken (read ++ b :: other) = (.invalid part, b :: other) := by
  fun_induction follow more low high bits taken rest with
  | case1 => cases reads
  | case2 low high bits more taken =>
    cases reads
    refine ⟨[], rfl, (List.append_nil _).symm, follow_completion (more + 1) range bits taken, ?_⟩
    intro next left same
    cases same
  | case3 more low high bits taken b rest inside ih =>
    obtain ⟨read, split, whole, ⟨completion, c, completes⟩, stays⟩ := ih (by decide) reads
    refine ⟨b :: read, ?_, ?_, ⟨completion, c, ?_⟩, ?_⟩
    · rw [split, List.cons_append]
    · rw [whole, List.reverse_cons, List.append_assoc, List.singleton_append]
    · rw [List.cons_append, follow, if_pos inside, completes]
    · intro next left same other
      rw [List.cons_append, follow, if_pos inside, stays next left same other]
  | case4 more low high bits taken b rest outside =>
    cases reads
    refine ⟨[], rfl, (List.append_nil _).symm, follow_completion (more + 1) range bits taken, ?_⟩
    intro next left same other
    cases same
    rw [List.nil_append, follow, if_neg outside]

/-- An invalid part is the start of an encoding or a single octet, and whatever comes behind the octet at
which it broke off, it is read again. -/
theorem first_invalid {b : UInt8} {rest part later : Bytes}
    (reads : first b rest = (.invalid part, later)) :
    ∃ read, part = b :: read ∧ rest = read ++ later ∧ (part.length = 1 ∨ Starts part)
      ∧ ∀ next left, later = next :: left → ∀ other,
        first b (read ++ next :: other) = (.invalid part, next :: other) := by
  unfold first at reads
  split at reads
  · cases reads
  · next above =>
    cases announces : Lead.ofByte? b with
    | none =>
      rw [announces] at reads
      cases reads
      refine ⟨[], rfl, rfl, .inl rfl, ?_⟩
      intro next left _ other
      rw [first, if_neg above, announces]
      rfl
    | some lead =>
      rw [announces] at reads
      obtain ⟨read, split, rfl, ⟨completion, c, completes⟩, stays⟩ :=
        follow_invalid (Lead.range announces).2.1 reads
      have begins (octets : Bytes) : first b octets
          = follow lead.more lead.low lead.high lead.bits [b] octets := by
        rw [first, if_neg above, announces]
      have whole := first_char ((begins _).trans completes)
      refine ⟨read, rfl, split, .inr ⟨c, completion, ?_⟩, ?_⟩
      · rw [← List.append_nil (String.utf8EncodeChar c), ← whole]
        rfl
      · intro next left same other
        rw [begins, stays next left same other]

/-- Octets that start with a character are read as this character. -/
theorem first_of_prefix {b : UInt8} {rest : Bytes} {c : Char}
    (stands : String.utf8EncodeChar c <+: b :: rest) : ∃ later, first b rest = (.char c, later) := by
  obtain ⟨later, whole⟩ := stands
  obtain ⟨head, more, octets, reads⟩ := first_utf8EncodeChar c later
  rw [octets, List.cons_append] at whole
  cases whole
  exact ⟨later, reads⟩

/-- Where an invalid part is read, no character stands. -/
theorem not_prefix_of_first {b : UInt8} {rest part later : Bytes}
    (reads : first b rest = (.invalid part, later)) (c : Char) :
    ¬ String.utf8EncodeChar c <+: b :: rest := by
  intro stands
  obtain ⟨other, char⟩ := first_of_prefix stands
  rw [reads] at char
  cases char

/-- An invalid part is as long as it can be. -/
theorem broken_of_first {b : UInt8} {rest part later : Bytes}
    (reads : first b rest = (.invalid part, later)) : b :: rest = part ++ later ∧ Broken part (b :: rest) := by
  obtain ⟨read, rfl, rfl, starts, stays⟩ := first_invalid reads
  refine ⟨rfl, List.cons_ne_nil _ _, starts, ?_⟩
  rintro front ⟨behind, whole⟩ ⟨c, other, encoding⟩
  apply Nat.le_of_not_lt
  intro longer
  -- The longer start goes on with the octet at which the part broke off, so it would be read as both.
  obtain ⟨more, rfl⟩ := List.prefix_of_prefix_length_le ⟨later, rfl⟩ ⟨behind, whole⟩ (Nat.le_of_lt longer)
  cases more with
  | nil => simp at longer
  | cons next more =>
    rw [List.append_assoc] at whole
    have same : next :: more ++ behind = later := List.append_cancel_left whole
    have invalid := stays next (more ++ behind) same.symm (more ++ other)
    have stands : String.utf8EncodeChar c <+: b :: (read ++ next :: (more ++ other)) := by
      rw [← encoding]
      simp
    exact not_prefix_of_first invalid c stands

theorem shows_lossy (octets : Bytes) : Shows octets (lossy octets).toList := by
  match octets with
  | [] =>
    rw [lossy_nil]
    exact .nil
  | b :: rest =>
    have shorter := length_first_le b rest
    have behind := shows_lossy (first b rest).2
    rw [toList_lossy_cons]
    rcases reads : first b rest with ⟨c | part, later⟩
    · rw [reads] at behind
      rw [first_char reads]
      exact .char c behind
    · rw [reads] at behind
      obtain ⟨whole, broken⟩ := broken_of_first reads
      have none := not_prefix_of_first reads
      rw [whole] at none broken ⊢
      exact .invalid none broken behind
termination_by octets.length
decreasing_by exact Nat.lt_succ_of_le shorter

/-- Only one part is the longest. -/
theorem Broken.length_le {one two octets : Bytes} (first : Broken one octets) (second : Broken two octets)
    (front : one <+: octets) : one.length ≤ two.length := by
  rcases first.starts with single | starts
  · rw [single]
    exact List.length_pos_iff.mpr second.some
  · exact second.longest one front starts

theorem Shows.eq_lossy {octets : Bytes} {cs : List Char} (h : Shows octets cs) :
    (lossy octets).toList = cs := by
  induction h with
  | nil => rw [lossy_nil, String.toList_empty]
  | @char c rest cs h ih =>
    obtain ⟨b, more, encoding, reads⟩ := first_utf8EncodeChar c rest
    rw [encoding, List.cons_append, toList_lossy_cons, reads, ih]
    rfl
  | @invalid part rest cs none broken h ih =>
    obtain ⟨b, more, rfl⟩ := List.exists_cons_of_ne_nil broken.some
    rw [List.cons_append] at none broken ⊢
    rw [toList_lossy_cons]
    rcases reads : first b (more ++ rest) with ⟨c | other, later⟩
    · exact absurd ⟨later, (first_char reads).symm⟩ (none c)
    · obtain ⟨whole, broken'⟩ := broken_of_first reads
      have lengths : (b :: more).length = other.length := Nat.le_antisymm
        (broken.length_le broken' ⟨rest, rfl⟩) (broken'.length_le broken ⟨later, whole.symm⟩)
      obtain ⟨-, rfl⟩ := List.append_inj whole lengths
      rw [ih]
      rfl

/-- What is shown of octets, said without reading them: their characters, and a replacement character for
each invalid part. -/
theorem shows_iff (octets : Bytes) (cs : List Char) : Shows octets cs ↔ (lossy octets).toList = cs := by
  constructor
  · exact Shows.eq_lossy
  · rintro rfl
    exact shows_lossy octets

example : lossy [0x61, 0xFF, 0xE2, 0x82, 0x62] = "a\uFFFD\uFFFDb" := by
  cbv

/-- The octets of a text are shown as the text. -/
theorem lossy_encode (text : String) : lossy (encode text) = text := by
  have shows_self (cs : List Char) : Shows (cs.flatMap String.utf8EncodeChar) cs := by
    induction cs with
    | nil => exact .nil
    | cons c cs ih => exact .char c ih
  exact String.toList_inj.mp ((shows_iff _ _).mp (shows_self text.toList))

/-- Octets that spell a text are told apart by what is shown of them. -/
theorem lossy_inj {left right : Bytes} (valid : Valid left) (other : Valid right) :
    lossy left = lossy right ↔ left = right := by
  obtain ⟨s, rfl⟩ := valid
  obtain ⟨t, rfl⟩ := other
  rw [lossy_encode, lossy_encode]
  exact ⟨congrArg encode, fun same => by rw [← lossy_encode s, same, lossy_encode]⟩

/-! ## Line feeds -/

/-- There is no line feed above ASCII. -/
theorem count_of_above {octets : Bytes} (above : ∀ b ∈ octets, 0x80 ≤ b) : octets.count 10 = 0 := by
  rw [List.count_eq_zero]
  intro member
  exact absurd (above 10 member) (by decide)

theorem above_utf8EncodeChar {c : Char} (above : 0x80 ≤ c.toNat) :
    ∀ b ∈ String.utf8EncodeChar c, 0x80 ≤ b := by
  have valid : c.toNat < 0xD800 ∨ 0xDFFF < c.toNat ∧ c.toNat < 0x110000 := c.valid
  have octet (n : Nat) : 0x80 ≤ UInt8.ofNat n ↔ 0x80 ≤ n % 256 := by
    rw [UInt8.le_iff_toNat_le, UInt8.toNat_ofNat']
    rfl
  unfold String.utf8EncodeChar
  rw [show c.val.toNat = c.toNat from rfl]
  generalize c.toNat = n at *
  dsimp only
  rw [if_neg (by omega)]
  split
  · rw [List.forall_mem_cons, List.forall_mem_singleton, octet, octet]
    omega
  split
  · rw [List.forall_mem_cons, List.forall_mem_cons, List.forall_mem_singleton, octet, octet, octet]
    omega
  · rw [List.forall_mem_cons, List.forall_mem_cons, List.forall_mem_cons, List.forall_mem_singleton, octet,
      octet, octet, octet]
    omega

theorem count_utf8EncodeChar (c : Char) :
    (String.utf8EncodeChar c).count 10 = if c = '\n' then 1 else 0 := by
  by_cases above : 0x80 ≤ c.toNat
  · have other : c ≠ '\n' := by
      rintro rfl
      exact absurd above (by decide)
    rw [if_neg other, count_of_above (above_utf8EncodeChar above)]
  · have single : String.utf8EncodeChar c = [UInt8.ofNat c.toNat] :=
      if_pos (Nat.le_of_lt_succ (Nat.lt_of_not_le above))
    have feed : UInt8.ofNat c.toNat = 10 ↔ c = '\n' := by
      rw [← UInt8.toNat_inj, UInt8.toNat_ofNat', Nat.mod_eq_of_lt (by omega), ← Char.toNat_inj]
      rfl
    rw [single, List.count_singleton]
    simp only [beq_iff_eq, feed]

/-- A text has a line feed for each among its octets. -/
theorem count_encode (text : String) : (encode text).count 10 = text.toList.count '\n' := by
  rw [encode]
  induction text.toList with
  | nil => rfl
  | cons c cs ih =>
    rw [List.flatMap_cons, List.count_append, ih, count_utf8EncodeChar, List.count_cons, Nat.add_comm]
    simp only [beq_iff_eq]

/-- An invalid part has no line feed: alone it would be a character, and no longer encoding has one. -/
theorem Broken.count_feed {part rest : Bytes} (broken : Broken part (part ++ rest))
    (none : ∀ c, ¬ String.utf8EncodeChar c <+: part ++ rest) : part.count 10 = 0 := by
  rw [List.count_eq_zero]
  intro member
  have feed : String.utf8EncodeChar '\n' = [10] := rfl
  have alone : part = [10] := by
    rcases broken.starts with single | ⟨c, starts⟩
    · obtain ⟨b, rfl⟩ := List.length_eq_one_iff.mp single
      rw [List.mem_singleton.mp member]
    · have occurs := List.count_pos_iff.mpr (starts.mem member)
      rw [count_utf8EncodeChar] at occurs
      obtain rfl : c = '\n' := Decidable.byContradiction fun other => by simp [other] at occurs
      rw [feed] at starts
      exact starts.eq_of_length_le (List.length_pos_iff.mpr broken.some)
  refine none '\n' ⟨rest, ?_⟩
  rw [feed, alone]

/-- What is shown of octets has a line feed for each among them. -/
theorem count_lossy (octets : Bytes) : (lossy octets).toList.count '\n' = octets.count 10 := by
  have general {octets : Bytes} {cs : List Char} (h : Shows octets cs) : cs.count '\n' = octets.count 10 := by
    induction h with
    | nil => rfl
    | char c h ih =>
      rw [List.count_append, count_utf8EncodeChar, List.count_cons, ih, Nat.add_comm]
      simp only [beq_iff_eq]
    | invalid none broken h ih =>
      rw [List.count_append, broken.count_feed none, Nat.zero_add, List.count_cons_of_ne (by decide), ih]
  exact general (shows_lossy octets)

end Dvi.Utf8
