/-
# Dvi.Proofs.Text.Plain — texts without control characters.

Numbers, JSON and octets in quotes have no character below the space, whatever they are made of, so they
stay on their line. Texts that are put together from plain texts are plain.
-/
import Dvi.Command.Listing
import Dvi.Text.Json

namespace Dvi

/-- No character is below the space. -/
def Visible (cs : List Char) : Prop :=
  ∀ c ∈ cs, 0x20 ≤ c.toNat

instance (cs : List Char) : Decidable (Visible cs) :=
  List.decidableBAll (fun c : Char => 0x20 ≤ c.toNat) cs

/-- A text without characters below the space. -/
def Plain (text : String) : Prop :=
  Visible text.toList

instance (text : String) : Decidable (Plain text) :=
  inferInstanceAs (Decidable (Visible text.toList))

namespace Visible

theorem append_iff {cs ds : List Char} : Visible (cs ++ ds) ↔ Visible cs ∧ Visible ds :=
  List.forall_mem_append

theorem singleton_iff {c : Char} : Visible [c] ↔ 0x20 ≤ c.toNat :=
  List.forall_mem_singleton

theorem flatMap {α : Type} {xs : List α} {shown : α → List Char} (each : ∀ x ∈ xs, Visible (shown x)) :
    Visible (xs.flatMap shown) := by
  intro c member
  obtain ⟨x, inside, stands⟩ := List.mem_flatMap.mp member
  exact each x inside c stands

theorem digitChar : ∀ d < 16, 0x20 ≤ (Nat.digitChar d).toNat := by
  decide

theorem toDigits {base : Nat} (several : 1 < base) (few : base ≤ 16) (n : Nat) :
    Visible (Nat.toDigits base n) := by
  induction n using Nat.strongRecOn with
  | ind n ih =>
    by_cases small : n < base
    · rw [Nat.toDigits_of_lt_base small, singleton_iff]
      exact digitChar n (Nat.lt_of_lt_of_le small few)
    · have last : n % base < base := Nat.mod_lt n (Nat.lt_trans Nat.zero_lt_one several)
      have less : n / base < n := Nat.div_lt_self (by omega) several
      rw [Nat.toDigits_of_base_le several (Nat.le_of_not_lt small), append_iff, singleton_iff]
      exact ⟨ih _ less, digitChar _ (Nat.lt_of_lt_of_le last few)⟩

/-! ## Characters inside of quotes -/

theorem json (c : Char) : Visible (Json.char c) := by
  unfold Json.char
  iterate 7
    split
    · decide
  split
  · next control =>
    have high := digitChar (c.toNat / 16) (by omega)
    have low := digitChar (c.toNat % 16) (Nat.mod_lt _ (by decide))
    have front : Visible ['\\', 'u', '0', '0'] := by decide
    exact append_iff.mpr ⟨front, append_iff.mpr ⟨singleton_iff.mpr high, singleton_iff.mpr low⟩⟩
  · next visible => exact singleton_iff.mpr (Nat.le_of_not_lt visible)

theorem octet (b : UInt8) : Visible (Quoted.octet b) := by
  have bound : b.toNat < 256 := b.toNat_lt
  have high := digitChar (b.toNat / 16) (by omega)
  have low := digitChar (b.toNat % 16) (Nat.mod_lt _ (by decide))
  have front : Visible ['\\', 'x'] := by decide
  exact append_iff.mpr ⟨front, append_iff.mpr ⟨singleton_iff.mpr high, singleton_iff.mpr low⟩⟩

theorem quoted (c : Char) : Visible (Quoted.char c) := by
  unfold Quoted.char
  iterate 4
    split
    · decide
  split
  · next quotes => rcases quotes with rfl | rfl | rfl <;> decide
  split
  · exact octet _
  next _ _ _ _ _ visible =>
  have bound : 0x20 ≤ c.toNat := Nat.le_of_not_lt fun control => visible (.inl control)
  split
  · exact singleton_iff.mpr bound
  split
  · have front : Visible ['\\', 'u', '\x7b'] := by decide
    have back : Visible ['\x7d'] := by decide
    have digits := toDigits (by decide : 1 < 16) (Nat.le_refl 16) c.toNat
    exact append_iff.mpr ⟨append_iff.mpr ⟨front, digits⟩, back⟩
  · exact singleton_iff.mpr bound

theorem piece (p : Utf8.Piece) : Visible (Quoted.piece p) := by
  cases p with
  | char c => exact quoted c
  | invalid octets => exact flatMap fun b _ => octet b

end Visible

namespace Plain

/-- A plain text has no line feed. -/
theorem count_feed {text : String} (plain : Plain text) : text.toList.count '\n' = 0 := by
  rw [List.count_eq_zero]
  intro member
  exact absurd (plain '\n' member) (by decide)

theorem append_iff {s t : String} : Plain (s ++ t) ↔ Plain s ∧ Plain t := by
  rw [Plain, String.toList_append]
  exact Visible.append_iff

theorem append {s t : String} (left : Plain s) (right : Plain t) : Plain (s ++ t) :=
  append_iff.mpr ⟨left, right⟩

theorem ofList {cs : List Char} (visible : Visible cs) : Plain (String.ofList cs) := by
  rw [Plain, String.toList_ofList]
  exact visible

theorem intercalate {separator : String} (between : Plain separator) {texts : List String}
    (each : ∀ text ∈ texts, Plain text) : Plain (separator.intercalate texts) := by
  induction texts with
  | nil =>
    rw [String.intercalate_nil]
    decide
  | cons text texts ih =>
    obtain ⟨head, tail⟩ := List.forall_mem_cons.mp each
    cases texts with
    | nil =>
      rw [String.intercalate_singleton]
      exact head
    | cons next texts =>
      rw [String.intercalate_cons_cons]
      exact (head.append between).append (ih tail)

/-! ## Numbers -/

theorem toString_iff {text : String} : Plain (toString text) ↔ Plain text :=
  Iff.rfl

theorem nat (n : Nat) : Plain (toString n) := by
  rw [Nat.toString_eq_ofList_toDigits]
  exact ofList (Visible.toDigits (by decide) (by decide) n)

theorem int (n : Int) : Plain (toString n) := by
  rw [show toString n = n.repr from rfl, Int.repr_eq_if]
  split
  · exact nat n.toNat
  · exact append (by decide) (nat (-n).toNat)

theorem uint8 (n : UInt8) : Plain (toString n) :=
  nat n.toNat

theorem uint16 (n : UInt16) : Plain (toString n) :=
  nat n.toNat

theorem uint32 (n : UInt32) : Plain (toString n) :=
  nat n.toNat

theorem int32 (n : Int32) : Plain (toString n) :=
  int n.toInt

theorem hexWord (x : UInt32) : Plain (hexWord x) := by
  refine append (by decide) (ofList (Visible.append_iff.mpr ⟨?_, ?_⟩))
  · intro c member
    rw [List.eq_of_mem_replicate member]
    decide
  · exact Visible.toDigits (by decide) (by decide) x.toNat

/-! ## JSON -/

theorem string (s : String) : Plain (Json.string s) := by
  apply ofList
  rw [Json.quote, Visible.append_iff]
  have opening : Visible ['"'] := by decide
  exact ⟨Visible.append_iff.mpr ⟨opening, Visible.flatMap fun c _ => Visible.json c⟩, opening⟩

theorem array {values : List String} (each : ∀ value ∈ values, Plain value) : Plain (Json.array values) :=
  append (append (by decide) (intercalate (by decide) each)) (by decide)

theorem object {members : List (String × String)} (each : ∀ member ∈ members, Plain member.2) :
    Plain (Json.object members) := by
  refine append (append (by decide) (intercalate (by decide) ?_)) (by decide)
  rw [List.forall_mem_map]
  rintro ⟨name, value⟩ member
  exact append (append (string name) (by decide)) (each _ member)

/-! ## Octets in quotes -/

theorem quoted (octets : Bytes) : Plain (Quoted.text octets) := by
  apply ofList
  have opening : Visible ['"'] := by decide
  rw [Visible.append_iff]
  exact ⟨Visible.append_iff.mpr ⟨opening, Visible.flatMap fun p _ => Visible.piece p⟩, opening⟩

end Plain

end Dvi
