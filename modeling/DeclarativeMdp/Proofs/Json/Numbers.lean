import DeclarativeMdp.Json.Decode
import DeclarativeMdp.Proofs.Json.Documents

set_option autoImplicit false

namespace DeclarativeMdp.Json

structure IsDecimal (bs : List UInt8) (n : Nat) : Prop where
  digits : ∀ b ∈ bs, isDigit b = true
  filled : bs ≠ []
  leading : bs.head? = some 0x30 → bs.length = 1
  value : digitsValue bs = n

def digit (d : Nat) : UInt8 := UInt8.ofNat (0x30 + d)

variable {bs rest : List UInt8} {n d : Nat}

theorem toNat_digit (short : d < 10) : (digit d).toNat = 0x30 + d := by
  rw [digit, UInt8.toNat_ofNat']
  omega

theorem isDigit_digit (short : d < 10) : isDigit (digit d) = true := by
  have value := toNat_digit short
  simp only [isDigit, Bool.and_eq_true, decide_eq_true_eq, UInt8.le_iff_toNat_le,
    UInt8.reduceToNat]
  omega

theorem isDecimal_digit (short : d < 10) : IsDecimal [digit d] d where
  digits b present := by
    obtain rfl := List.mem_singleton.1 present
    exact isDigit_digit short
  filled := List.cons_ne_nil _ _
  leading _ := rfl
  value := by
    have value := toNat_digit short
    simp only [digitsValue, List.foldl_cons, List.foldl_nil]
    omega

theorem IsDecimal.head?_ne (isDecimal : IsDecimal bs n) (positive : 0 < n) :
    bs.head? ≠ some 0x30 := by
  intro zero
  obtain ⟨b, rfl⟩ := List.length_eq_one_iff.1 (isDecimal.leading zero)
  obtain rfl := Option.some.inj zero
  have value : 0 = n := isDecimal.value
  omega

theorem IsDecimal.push (isDecimal : IsDecimal bs n) (positive : 0 < n) (short : d < 10) :
    IsDecimal (bs ++ [digit d]) (10 * n + d) where
  digits b present := by
    cases List.mem_append.1 present with
    | inl before => exact isDecimal.digits b before
    | inr last =>
      obtain rfl := List.mem_singleton.1 last
      exact isDigit_digit short
  filled := by simp
  leading zero := by
    rw [List.head?_append_of_ne_nil _ isDecimal.filled] at zero
    exact absurd zero (isDecimal.head?_ne positive)
  value := by
    have before := isDecimal.value
    have last := toNat_digit short
    unfold digitsValue at before ⊢
    rw [List.foldl_append, before, List.foldl_cons, List.foldl_nil]
    omega

theorem utf8EncodeChar_digitChar (short : d < 10) :
    String.utf8EncodeChar (Nat.digitChar d) = [digit d] := by
  have every : ∀ d < 10, String.utf8EncodeChar (Nat.digitChar d) = [digit d] := by decide
  exact every d short

theorem toBytes_toString (n : Nat) :
    Text.toBytes (toString n) = (Nat.toDigits 10 n).flatMap String.utf8EncodeChar := by
  rw [Nat.toString_eq_ofList_toDigits, Text.toBytes_ofList]

theorem isDecimal_toString (n : Nat) : IsDecimal (Text.toBytes (toString n)) n := by
  induction n using Nat.strongRecOn with
  | ind n ih =>
    rw [toBytes_toString, Nat.toDigits_eq_if (by decide)]
    by_cases short : n < 10
    · rw [if_pos short, List.flatMap_singleton, utf8EncodeChar_digitChar short]
      exact isDecimal_digit short
    · have last : n % 10 < 10 := Nat.mod_lt _ (by decide)
      have before := ih (n / 10) (by omega)
      rw [toBytes_toString] at before
      have pushed := before.push (by omega) last
      rw [Nat.div_add_mod] at pushed
      rwa [if_neg short, List.flatMap_append, List.flatMap_singleton,
        utf8EncodeChar_digitChar last]

theorem EndsValue.not_digit (endsValue : EndsValue rest) {b : UInt8} (first : rest.head? = some b) :
    isDigit b = false := by
  rcases endsValue b first with rfl | rfl | rfl <;> rfl

theorem readDigits_append (isDecimal : IsDecimal bs n) (endsValue : EndsValue rest) :
    readDigits (bs ++ rest) = some (bs, rest) := by
  have taken : (bs ++ rest).takeWhile isDigit = bs := by
    rw [List.takeWhile_append_of_pos isDecimal.digits]
    cases rest with
    | nil => simp
    | cons b rest => simp [endsValue.not_digit rfl]
  have left : (bs ++ rest).dropWhile isDigit = rest := by
    rw [List.dropWhile_append_of_pos isDecimal.digits]
    cases rest with
    | nil => rfl
    | cons b rest => simp [endsValue.not_digit rfl]
  have some_digit : bs.isEmpty = false := by simpa using isDecimal.filled
  rw [readDigits, List.span_eq_takeWhile_dropWhile, taken, left]
  simp [some_digit]

theorem readUnsigned_append (isDecimal : IsDecimal bs n) (endsValue : EndsValue rest) :
    readUnsigned false (bs ++ rest) = some (⟨false, bs, none, none⟩, rest) := by
  have whole : readWhole (bs ++ rest) = some (bs, rest) := by
    rw [readWhole, readDigits_append isDecimal endsValue]
    have leading : ¬ (bs.head? = some 0x30 ∧ bs.length ≠ 1) := fun ⟨zero, more⟩ =>
      more (isDecimal.leading zero)
    simp only [Option.bind_eq_bind, Option.bind_some, if_neg leading]
  have fraction : readFraction rest = some (none, rest) := by
    cases rest with
    | nil => rfl
    | cons b rest => rcases endsValue b rfl with rfl | rfl | rfl <;> rfl
  have exponent : readExponent rest = some (none, rest) := by
    cases rest with
    | nil => rfl
    | cons b rest => rcases endsValue b rfl with rfl | rfl | rfl <;> rfl
  simp [readUnsigned, whole, fraction, exponent]

theorem visible_of_isDigit {b : UInt8} (numeral : isDigit b = true) :
    isSpace b = false ∧ b ≠ 0x5D := by
  constructor
  · rw [Bool.eq_false_iff]
    intro blank
    simp only [isSpace, Bool.or_eq_true, decide_eq_true_eq] at blank
    rcases blank with ((rfl | rfl) | rfl) | rfl <;> exact absurd numeral (by decide)
  · rintro rfl
    exact absurd numeral (by decide)

theorem readValue_digit (fuel : Nat) {b : UInt8} (numeral : isDigit b = true) (bs : List UInt8) :
    readValue (fuel + 1) (b :: bs) =
      (readUnsigned false (b :: bs)).map fun (numeral, rest) => (.number numeral, rest) := by
  have other {c : UInt8} (unlike : isDigit c = false) : b ≠ c := by
    rintro rfl
    exact absurd numeral (by simp [unlike])
  rw [readValue, skipSpace_cons (visible_of_isDigit numeral).1]
  split
  case h_7 =>
    unfold readNumber
    split
    next same => exact absurd (List.cons.inj same).1 (other (by decide))
    next => rfl
  all_goals
    next same => exact absurd (List.cons.inj same).1 (other (by decide))

theorem IsDecimal.parsesAs {text : String} (isDecimal : IsDecimal (Text.toBytes text) n) :
    ParsesAs text (.number ⟨false, Text.toBytes text, none, none⟩) := by
  obtain ⟨b, bs, bytes⟩ := List.exists_cons_of_ne_nil isDecimal.filled
  rw [bytes] at isDecimal ⊢
  have numeral := isDecimal.digits b List.mem_cons_self
  obtain ⟨visible, opens⟩ := visible_of_isDigit numeral
  refine .of_bytes bytes visible opens fun fuel rest _ endsValue => ?_
  rw [readValue_digit fuel numeral, ← List.cons_append, readUnsigned_append isDecimal endsValue]
  rfl

theorem decodesTo_nat {bound : Nat} (inside : n < bound) :
    DecodesTo (toString n) (below? bound) n := by
  have isDecimal := isDecimal_toString n
  refine ⟨_, isDecimal.parsesAs, ?_⟩
  have value : (Json.number ⟨false, Text.toBytes (toString n), none, none⟩).int? =
      some (n : Int) := by
    unfold int? Numeral.int?
    simp only [isDecimal.value]
    rfl
  rw [below?, value]
  simp [inside]

theorem decodesTo_uint64 (n : UInt64) : DecodesTo (toString n) uint64? n := by
  have decodesTo := (decodesTo_nat n.toNat_lt).map UInt64.ofNat
  rwa [UInt64.ofNat_toNat] at decodesTo

end DeclarativeMdp.Json
