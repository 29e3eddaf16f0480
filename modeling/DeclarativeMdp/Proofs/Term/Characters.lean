import DeclarativeMdp.Term.Reader

set_option autoImplicit false

namespace DeclarativeMdp.Term

open Text

theorem range_of_bounds (low high : Char) {c : Char}
    (bounds : (decide (low.val ≤ c.val) && decide (c.val ≤ high.val)) = true) :
    low.toNat ≤ c.toNat ∧ c.toNat ≤ high.toNat := by
  simp only [Bool.and_eq_true, decide_eq_true_eq, UInt32.le_iff_toNat_le] at bounds
  exact bounds

theorem digit_range {c : Char} (digit : c.isDigit = true) : 48 ≤ c.toNat ∧ c.toNat ≤ 57 :=
  range_of_bounds '0' '9' digit

theorem lower_range {c : Char} (lower : c.isLower = true) : 97 ≤ c.toNat ∧ c.toNat ≤ 122 :=
  range_of_bounds 'a' 'z' lower

theorem nameStart_range {c : Char} (start : isNameStart c = true) :
    97 ≤ c.toNat ∧ c.toNat ≤ 122 ∨ c.toNat = 95 ∨ c.toNat = 35 := by
  simp only [isNameStart, Bool.or_eq_true, decide_eq_true_eq] at start
  rcases start with (lower | rfl) | rfl
  · exact .inl (lower_range lower)
  · exact .inr (.inl rfl)
  · exact .inr (.inr rfl)

theorem nameChar_range {c : Char} (inner : isNameChar c = true) :
    39 ≤ c.toNat ∧ c.toNat ≤ 122 := by
  have parts : (((c.isUpper || c.isLower) || c.isDigit) || decide (c = '_') ||
      decide (c = Char.ofNat 39)) = true := inner
  simp only [Bool.or_eq_true, decide_eq_true_eq] at parts
  rcases parts with (((upper | lower) | digit) | rfl) | rfl
  · have bounds : 65 ≤ c.toNat ∧ c.toNat ≤ 90 := of_decide_eq_true upper
    omega
  · have bounds := lower_range lower
    omega
  · have bounds := digit_range digit
    omega
  all_goals decide

theorem visible_of_range {c : Char} (range : 33 ≤ c.toNat ∧ c.toNat ≤ 126) :
    isBlank c = false := by
  rw [Bool.eq_false_iff]
  intro blank
  simp only [isBlank, Bool.or_eq_true, Bool.and_eq_true, decide_eq_true_eq, beq_iff_eq] at blank
  omega

theorem not_digit_of_blank {c : Char} (blank : isBlank c = true) : c.isDigit = false := by
  rw [Bool.eq_false_iff]
  intro digit
  have range := digit_range digit
  have visible := visible_of_range (c := c) (by omega)
  simp [blank] at visible

theorem not_nameChar_of_blank {c : Char} (blank : isBlank c = true) : isNameChar c = false := by
  rw [Bool.eq_false_iff]
  intro inner
  have range := nameChar_range inner
  have visible := visible_of_range (c := c) (by omega)
  simp [blank] at visible

theorem nameStart_plain {c : Char} (start : isNameStart c = true) :
    isBlank c = false ∧ ¬ (c = '-' ∨ c.isDigit = true) ∧ c ≠ '"' ∧ c ≠ '(' ∧ c ≠ ')' := by
  have range := nameStart_range start
  refine ⟨visible_of_range (by omega), ?_, ?_, ?_, ?_⟩
  · rintro (rfl | digit)
    · simp at range
    · have digits := digit_range digit
      omega
  all_goals
    rintro rfl
    simp at range

theorem digit_plain {c : Char} (numeric : c = '-' ∨ c.isDigit = true) :
    isBlank c = false ∧ c ≠ ')' := by
  rcases numeric with rfl | digit
  · decide
  · have range := digit_range digit
    refine ⟨visible_of_range (by omega), ?_⟩
    rintro rfl
    simp at range

end DeclarativeMdp.Term
