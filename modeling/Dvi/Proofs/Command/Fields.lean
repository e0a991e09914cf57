/-
# Dvi.Proofs.Command.Fields — fields are read as they were written.

Two properties of decoders are carried through sequences of fields. A decoder reads certain bytes as
a value if it does so wherever they stand and whatever follows (`Decoder.Reads`); and it reads only
certain bytes if each of its values tells which bytes it was read from (`Decoder.ReadsOnly`). The
first is what a writer asks for and the second what a reader does; both compose, so each group of
fields needs the laws of its fields and nothing else.
-/
import Dvi.Proofs.Command.Operand

namespace Dvi

namespace Decoder

variable {α β : Type}

/-- A decoder that reads `bs` as `a`, wherever these bytes stand and whatever follows them. -/
def Reads (decoder : Decoder α) (bs : Bytes) (a : α) : Prop :=
  ∀ offset rest, decoder ⟨offset, bs ++ rest⟩ = .ok (a, ⟨offset + bs.length, rest⟩)

/-- A decoder each of whose results stands at the front of the stream as `written` says. -/
def ReadsOnly (decoder : Decoder α) (written : α → Bytes → Prop) : Prop :=
  ∀ before a after, decoder before = .ok (a, after) →
    ∃ bs, written a bs ∧ before.rest = bs ++ after.rest ∧ after.offset = before.offset + bs.length

/-! ## Sequences of fields -/

theorem Reads.pure (a : α) : Reads (Pure.pure a) [] a := by
  intro offset rest
  rfl

/-- Fields are read one after the other. -/
theorem Reads.bind {decoder : Decoder α} {next : α → Decoder β} {first second : Bytes} {a : α}
    {b : β} (h : decoder.Reads first a) (hnext : (next a).Reads second b) :
    Reads (decoder >>= next) (first ++ second) b := by
  intro offset rest
  show (decoder ⟨offset, first ++ second ++ rest⟩ >>= fun (a, middle) => next a middle) = _
  rw [List.append_assoc, h, List.length_append, ← Nat.add_assoc]
  exact hnext _ _

/-- The value of a field may be turned into another one. -/
theorem Reads.answering {decoder : Decoder α} {bs : Bytes} {a : α} (h : decoder.Reads bs a)
    (f : α → β) : Reads (decoder >>= fun a => Pure.pure (f a)) bs (f a) := by
  have both : Reads (decoder >>= fun a => Pure.pure (f a)) (bs ++ []) (f a) := h.bind (.pure _)
  rwa [List.append_nil] at both

theorem ReadsOnly.pure (a : α) : ReadsOnly (Pure.pure a) fun b bs => b = a ∧ bs = [] := by
  intro before b after run
  cases run
  exact ⟨[], ⟨rfl, rfl⟩, rfl, rfl⟩

/-- What was read field by field stands there field by field. -/
theorem ReadsOnly.bind {decoder : Decoder α} {next : α → Decoder β} {written : α → Bytes → Prop}
    {follows : α → β → Bytes → Prop} (h : decoder.ReadsOnly written)
    (hnext : ∀ a, (next a).ReadsOnly (follows a)) :
    ReadsOnly (decoder >>= next) fun b bs =>
      ∃ a first second, written a first ∧ follows a b second ∧ bs = first ++ second := by
  intro before b after run
  change (decoder before >>= fun (a, middle) => next a middle) = .ok (b, after) at run
  cases found : decoder before with
  | error shortage =>
    rw [found] at run
    cases run
  | ok result =>
    obtain ⟨a, middle⟩ := result
    rw [found] at run
    obtain ⟨first, stands, front, passed⟩ := h _ _ _ found
    obtain ⟨second, follows, rest, left⟩ := hnext a _ _ _ run
    refine ⟨first ++ second, ⟨a, first, second, stands, follows, rfl⟩, ?_, ?_⟩
    · rw [front, rest, List.append_assoc]
    · rw [left, passed, List.length_append, Nat.add_assoc]

theorem ReadsOnly.mono {decoder : Decoder α} {written other : α → Bytes → Prop}
    (h : decoder.ReadsOnly written) (imp : ∀ a bs, written a bs → other a bs) :
    decoder.ReadsOnly other := by
  intro before a after run
  obtain ⟨bs, stands, front, passed⟩ := h _ _ _ run
  exact ⟨bs, imp a bs stands, front, passed⟩

/-- The value of a field may be turned into another one that tells as much. -/
theorem ReadsOnly.answering {decoder : Decoder α} {written : α → Bytes → Prop}
    {other : β → Bytes → Prop} (h : decoder.ReadsOnly written) (f : α → β)
    (imp : ∀ a bs, written a bs → other (f a) bs) :
    ReadsOnly (decoder >>= fun a => Pure.pure (f a)) other := by
  refine (h.bind fun a => .pure (f a)).mono ?_
  rintro b bs ⟨a, first, second, stands, ⟨rfl, rfl⟩, rfl⟩
  rw [List.append_nil]
  exact imp a first stands

/-! ## Fields -/

theorem reads_field (bs : Bytes) : (field bs.length).Reads bs bs := by
  intro offset rest
  simp only [field, List.take_left, if_true, Cursor.advance, List.drop_left]

theorem readsOnly_field (n : Nat) : (field n).ReadsOnly fun found bs => found = bs ∧ bs.length = n := by
  intro before found after run
  simp only [field] at run
  split at run
  · next enough =>
    cases run
    refine ⟨before.rest.take n, ⟨rfl, enough⟩, (List.take_append_drop n before.rest).symm, ?_⟩
    rw [enough]
    rfl
  · cases run

/-- The two kinds of fields differ only in how they fail. -/
theorem counted_eq_ok_iff (n : Nat) (before : Cursor) (result : Bytes × Cursor) :
    counted n before = .ok result ↔ field n before = .ok result := by
  simp only [counted, field]
  split <;> simp

theorem reads_counted (bs : Bytes) : (counted bs.length).Reads bs bs := by
  intro offset rest
  exact (counted_eq_ok_iff _ _ _).mpr (reads_field bs offset rest)

theorem readsOnly_counted (n : Nat) :
    (counted n).ReadsOnly fun found bs => found = bs ∧ bs.length = n := by
  intro before found after run
  exact readsOnly_field n before found after ((counted_eq_ok_iff _ _ _).mp run)

/-- The digits of a number are read as what the number stands for. -/
theorem reads_digits (f : Nat → α) {k n : Nat} (below : n < capacity k) :
    Reads (field k >>= fun bs => Pure.pure (f (ofBigEndian bs))) (bigEndian k n) (f n) := by
  have digits := (reads_field (bigEndian k n)).answering fun bs => f (ofBigEndian bs)
  rwa [length_bigEndian, ofBigEndian_bigEndian, Nat.mod_eq_of_lt below] at digits

/-- A number that was read tells its digits. -/
theorem readsOnly_digits (f : Nat → α) (k : Nat) :
    ReadsOnly (field k >>= fun bs => Pure.pure (f (ofBigEndian bs))) fun a bs =>
      ∃ n < capacity k, bs = bigEndian k n ∧ a = f n := by
  refine (readsOnly_field k).answering _ ?_
  rintro found bs ⟨rfl, rfl⟩
  exact ⟨_, ofBigEndian_lt_capacity found, (bigEndian_ofBigEndian found).symm, rfl⟩

theorem reads_octet (b : UInt8) : octet.Reads [b] b := by
  have digits := reads_digits UInt8.ofNat (show b.toNat < capacity 1 from b.toNat_lt)
  rwa [bigEndian, bigEndian, UInt8.ofNat_toNat] at digits

theorem readsOnly_octet : octet.ReadsOnly fun b bs => bs = [b] := by
  refine (readsOnly_digits UInt8.ofNat 1).mono ?_
  rintro b bs ⟨n, _, rfl, rfl⟩
  rfl

theorem reads_halfWord (x : UInt16) : halfWord.Reads (Encoder.halfWord x) x := by
  have digits := reads_digits UInt16.ofNat (show x.toNat < capacity 2 from x.toNat_lt)
  rwa [UInt16.ofNat_toNat] at digits

theorem readsOnly_halfWord : halfWord.ReadsOnly fun x bs => bs = Encoder.halfWord x := by
  refine (readsOnly_digits UInt16.ofNat 2).mono ?_
  rintro x bs ⟨n, below, rfl, rfl⟩
  exact congrArg (bigEndian 2) (UInt16.toNat_ofNat_of_lt' below).symm

theorem reads_word (x : UInt32) : word.Reads (Encoder.word x) x := by
  have digits := reads_digits UInt32.ofNat (show x.toNat < capacity 4 from x.toNat_lt)
  rwa [UInt32.ofNat_toNat] at digits

theorem readsOnly_word : word.ReadsOnly fun x bs => bs = Encoder.word x := by
  refine (readsOnly_digits UInt32.ofNat 4).mono ?_
  rintro x bs ⟨n, below, rfl, rfl⟩
  exact congrArg (bigEndian 4) (UInt32.toNat_ofNat_of_lt' below).symm

theorem length_stored (size : Width) (x : Int32) : (Encoder.stored size x).length = size.size :=
  length_bigEndian _ _

theorem reads_unsigned (size : Width) (x : Int32) :
    (unsigned size).Reads (Encoder.stored size x) (size.zeroExtend x) := by
  have := (reads_field (Encoder.stored size x)).answering fun bs => Int32.ofNat (ofBigEndian bs)
  rwa [size.ofNat_ofBigEndian_stored, length_stored] at this

theorem readsOnly_unsigned (size : Width) :
    (unsigned size).ReadsOnly fun x bs => bs = Encoder.stored size x := by
  refine (readsOnly_field size.size).answering _ ?_
  rintro found bs ⟨rfl, length⟩
  exact (Width.stored_ofNat length).symm

theorem reads_signed (size : Width) (x : Int32) :
    (signed size).Reads (Encoder.stored size x) (size.signExtend x) := by
  have := (reads_field (Encoder.stored size x)).answering fun bs =>
    Int32.ofInt (Int.bmod (ofBigEndian bs) size.patterns)
  rwa [size.ofInt_bmod_ofBigEndian_stored, length_stored] at this

theorem readsOnly_signed (size : Width) :
    (signed size).ReadsOnly fun x bs => bs = Encoder.stored size x := by
  refine (readsOnly_field size.size).answering _ ?_
  rintro found bs ⟨rfl, length⟩
  exact (Width.stored_ofInt_bmod length).symm

/-- Four bytes store every number. -/
theorem reads_signedWord (x : Int32) : signedWord.Reads (Encoder.signedWord x) x := by
  have fits : Width.four.FitsSigned x := by
    have := x.le_toInt
    have := x.toInt_lt
    have : Width.four.patterns = 4294967296 := rfl
    constructor <;> omega
  have := reads_signed .four x
  rwa [(Width.four.signExtend_eq_self_iff x).mpr fits] at this

theorem readsOnly_signedWord : signedWord.ReadsOnly fun x bs => bs = Encoder.signedWord x :=
  readsOnly_signed .four

/-! ## Groups of fields -/

theorem reads_units (units : Units) : Decoder.units.Reads (Encoder.units units) units := by
  rw [Encoder.units, List.append_assoc]
  exact (reads_word _).bind ((reads_word _).bind ((reads_word _).answering _))

theorem readsOnly_units : units.ReadsOnly fun units bs => bs = Encoder.units units := by
  refine (readsOnly_word.bind fun _ => readsOnly_word.bind fun _ =>
    readsOnly_word.bind fun _ => .pure _).mono ?_
  rintro units bs ⟨num, _, _, rfl, ⟨den, _, _, rfl, ⟨mag, _, _, rfl, ⟨rfl, rfl⟩, rfl⟩, rfl⟩, rfl⟩
  simp [Encoder.units]

/-- A decoder may be repeated, with the values in the order of their bytes. -/
theorem Reads.times {decoder : Decoder α} {encode : α → Bytes}
    (h : ∀ a, decoder.Reads (encode a) a) {n : Nat} (values : Vector α n) :
    (decoder.times n).Reads (values.toList.flatMap encode) values := by
  induction n with
  | zero =>
    have none : values = #v[] := Vector.eq_empty
    rw [none]
    exact .pure _
  | succ n ih =>
    -- The last value is read last, so a vector is taken apart at its end.
    have split := values.push_pop_back
    rw [← split, Vector.toList_push, List.flatMap_append, List.flatMap_singleton]
    exact (ih values.pop).bind ((h values.back).answering _)

theorem ReadsOnly.times {decoder : Decoder α} {encode : α → Bytes}
    (h : decoder.ReadsOnly fun a bs => bs = encode a) (n : Nat) :
    (decoder.times n).ReadsOnly fun values bs => bs = values.toList.flatMap encode := by
  induction n with
  | zero =>
    refine (ReadsOnly.pure _).mono ?_
    rintro values bs ⟨rfl, rfl⟩
    rfl
  | succ n ih =>
    refine (ih.bind fun before => h.bind fun last => .pure _).mono ?_
    rintro values bs ⟨before, _, _, rfl, ⟨last, _, _, rfl, ⟨rfl, rfl⟩, rfl⟩, rfl⟩
    rw [List.append_nil, Vector.toList_push, List.flatMap_append, List.flatMap_singleton]

/-- A length that the field can announce is read as it is. -/
theorem reads_length {size : Width} {n : Nat} (bound : n ≤ size.maxLength) :
    (unsigned size).Reads (bigEndian size.size n) (Int32.ofNat n) := by
  have below : n < size.patterns := by
    cases size <;> exact Nat.lt_of_le_of_lt bound (by decide)
  exact reads_digits Int32.ofNat below

theorem maxLength_lt (size : Width) : 2 * size.maxLength < Int32.size := by
  cases size <;> decide

theorem toInt_ofNat_of_le {size : Width} {n : Nat} (bound : n ≤ size.maxLength) :
    (Int32.ofNat n).toInt = n := by
  have := maxLength_lt size
  rw [← Int32.ofInt_eq_ofNat, Width.toInt_ofInt_of_bounds (by omega) (by omega)]

theorem reads_special {size : Width} {payload : Bytes} (bound : payload.length ≤ size.maxLength) :
    (special size).Reads (bigEndian size.size payload.length ++ payload) payload := by
  have length := toInt_ofNat_of_le bound
  refine (reads_length bound).bind ?_
  have announced : ¬(Int32.ofNat payload.length < 0) := by
    rw [Int32.lt_iff_toInt_lt, length]
    exact Int.not_lt.mpr (Int.natCast_nonneg _)
  rw [if_neg announced, length, Int.toNat_natCast]
  exact reads_counted payload

/-- A number that is read as a length, and is not negative, can be announced in as many bytes. -/
theorem le_maxLength {size : Width} {n : Nat} (below : n < size.patterns)
    (announced : ¬Int32.ofNat n < 0) : n ≤ size.maxLength := by
  cases size with
  | one | two | three => exact Nat.le_sub_one_of_lt below
  | four =>
    -- From half of the patterns on, the number is read as a negative one.
    refine Nat.le_of_not_lt fun large => announced ?_
    have limit : Width.four.maxLength = 2147483647 := rfl
    have patterns : Width.four.patterns = 4294967296 := rfl
    have wraps : (Int32.ofNat n).toInt = n - 4294967296 := by
      have same : Int32.ofInt (n : Int) = Int32.ofInt (n - 4294967296 : Int) := by
        apply Int32.toInt_inj.mp
        rw [Int32.toInt_ofInt, Int32.toInt_ofInt]
        exact (Int.sub_bmod_right ..).symm
      rw [← Int32.ofInt_eq_ofNat, same]
      have whole : Int32.size = 4294967296 := rfl
      exact Width.toInt_ofInt_of_bounds (by omega) (by omega)
    rw [Int32.lt_iff_toInt_lt, wraps]
    show (n - 4294967296 : Int) < 0
    omega

theorem readsOnly_special (size : Width) : (special size).ReadsOnly fun payload bs =>
    payload.length ≤ size.maxLength ∧ bs = bigEndian size.size payload.length ++ payload := by
  refine ((readsOnly_digits Int32.ofNat size.size).bind (show ∀ x : Int32, ReadsOnly _ fun payload bs =>
      ¬x < 0 ∧ payload = bs ∧ bs.length = x.toInt.toNat from fun x => ?_)).mono ?_
  -- A negative length stops the decoder, so only the other branch has a result.
  · split
    · intro before payload after run
      cases run
    · next announced =>
      refine (readsOnly_counted _).mono ?_
      rintro payload bs ⟨rfl, length⟩
      exact ⟨announced, rfl, length⟩
  · rintro payload bs ⟨x, _, _, ⟨n, below, rfl, rfl⟩, ⟨announced, rfl, counted⟩, rfl⟩
    have bound := le_maxLength below announced
    rw [toInt_ofNat_of_le bound, Int.toNat_natCast] at counted
    rw [counted]
    exact ⟨bound, rfl⟩

/-- The one byte of a length that is short enough. -/
theorem toNat_shortLength {bs : Bytes} (short : bs.length ≤ 255) :
    (Encoder.shortLength bs).toNat = bs.length := by
  rw [Encoder.shortLength, UInt8.toNat_ofNat']
  omega

theorem shortLength_eq {bs : Bytes} {length : UInt8} (h : bs.length = length.toNat) :
    Encoder.shortLength bs = length := by
  rw [Encoder.shortLength, h, UInt8.ofNat_toNat]

theorem reads_shortString {bs : Bytes} (short : bs.length ≤ 255) :
    (counted (Encoder.shortLength bs).toNat).Reads bs bs := by
  rw [toNat_shortLength short]
  exact reads_counted bs

theorem reads_font (size : Width) {font : Font} (area : font.area.length ≤ 255)
    (name : font.name.length ≤ 255) :
    (Decoder.font size).Reads
      (Encoder.stored size font.number ++ Encoder.word font.checksum
        ++ Encoder.signedWord font.scale ++ Encoder.signedWord font.designSize
        ++ [Encoder.shortLength font.area, Encoder.shortLength font.name] ++ font.area ++ font.name)
      { font with number := size.zeroExtend font.number } := by
  simp only [List.append_assoc]
  exact (reads_unsigned size _).bind <| (reads_word _).bind <| (reads_signedWord _).bind <|
    (reads_signedWord _).bind <| (reads_octet _).bind <| (reads_octet _).bind <|
    (reads_shortString area).bind <| (reads_shortString name).answering _

theorem readsOnly_font (size : Width) : (Decoder.font size).ReadsOnly fun font bs =>
    font.area.length ≤ 255 ∧ font.name.length ≤ 255
      ∧ bs = Encoder.stored size font.number ++ Encoder.word font.checksum
          ++ Encoder.signedWord font.scale ++ Encoder.signedWord font.designSize
          ++ [Encoder.shortLength font.area, Encoder.shortLength font.name]
          ++ font.area ++ font.name := by
  refine ((readsOnly_unsigned size).bind fun _ => readsOnly_word.bind fun _ =>
    readsOnly_signedWord.bind fun _ => readsOnly_signedWord.bind fun _ => readsOnly_octet.bind fun _ =>
    readsOnly_octet.bind fun _ => (readsOnly_counted _).bind fun _ => (readsOnly_counted _).bind
    fun _ => .pure _).mono ?_
  rintro font bs ⟨number, _, _, rfl, ⟨checksum, _, _, rfl, ⟨scale, _, _, rfl, ⟨designSize, _, _, rfl,
    ⟨areaLength, _, _, rfl, ⟨nameLength, _, _, rfl, ⟨area, _, _, ⟨rfl, areaCounted⟩,
    ⟨name, _, _, ⟨rfl, nameCounted⟩, ⟨rfl, rfl⟩, rfl⟩, rfl⟩, rfl⟩, rfl⟩, rfl⟩, rfl⟩, rfl⟩, rfl⟩
  -- Both lengths were read from one byte each, so they can be written in one byte again.
  have areaShort := areaLength.toNat_lt
  have nameShort := nameLength.toNat_lt
  refine ⟨?_, ?_, ?_⟩
  · show area.length ≤ 255
    omega
  · show name.length ≤ 255
    omega
  · rw [shortLength_eq areaCounted, shortLength_eq nameCounted]
    simp only [List.append_assoc, List.append_nil]
    rfl

theorem reads_summary (summary : Summary) :
    Decoder.summary.Reads (Command.post summary).operands summary := by
  rw [Command.operands]
  simp only [List.append_assoc]
  exact (reads_signedWord _).bind <| (reads_units _).bind <| (reads_signedWord _).bind <|
    (reads_signedWord _).bind <| (reads_halfWord _).bind <| (reads_halfWord _).answering _

theorem readsOnly_summary :
    summary.ReadsOnly fun summary bs => bs = (Command.post summary).operands := by
  refine (readsOnly_signedWord.bind fun _ => readsOnly_units.bind fun _ =>
    readsOnly_signedWord.bind fun _ => readsOnly_signedWord.bind fun _ =>
    readsOnly_halfWord.bind fun _ => readsOnly_halfWord.bind fun _ => .pure _).mono ?_
  rintro summary bs ⟨prev, _, _, rfl, ⟨units, _, _, rfl, ⟨maxHeight, _, _, rfl, ⟨maxWidth, _, _, rfl,
    ⟨maxStack, _, _, rfl, ⟨pages, _, _, rfl, ⟨rfl, rfl⟩, rfl⟩, rfl⟩, rfl⟩, rfl⟩, rfl⟩, rfl⟩
  simp only [Command.operands, List.append_assoc, List.append_nil]

end Decoder

end Dvi
