import DeclarativeMdp.Decimal.Binary
import Mathlib.Algebra.Order.Ring.Int
import Mathlib.Algebra.Order.Ring.Nat

set_option autoImplicit false

namespace DeclarativeMdp.Decimal

open Float.Model
open Float.Model.UnpackedFloat (Sign ExtendedMantissa Accuracy)

-- A number with a full mantissa, or zero. The scale counts from the place where the mantissa has
-- all its bits behind the point but one.
inductive Represents : UnpackedFloat → Int → Prop
  | zero (sign : Sign) : Represents (.zero sign) 0
  | finite {sign : Sign} {mantissa scale : Nat} {n : Int} (positive : 0 < mantissa)
      (full : mantissa.log2 = 52) (value : sign.apply (mantissa * 2 ^ scale : Nat) = n * 2 ^ 52) :
      Represents (.finite sign mantissa ((scale : Int) - 52) positive) n

def IsInteger (x : Float) (n : Int) : Prop := Represents x.toModel.unpack n

theorem toNat_cons_one (mantissa : BitVec 52) :
    (1#1 ++ mantissa).toNat = 2 ^ 52 + mantissa.toNat := by
  rw [BitVec.toNat_append, ← Nat.shiftLeft_add_eq_or_of_lt mantissa.isLt]
  rfl

theorem sign_packComponents (sign : Sign) (field : BitVec 11) (rest : BitVec 52) :
    Sign.ofBitVec (UnpackedFloat.unpackSign
      (UnpackedFloat.packComponents .binary64 sign field rest)) = sign := by
  have stored : (sign.toBitVec ++ field ++ rest).extractLsb 63 63 = sign.toBitVec := by
    rw [BitVec.extractLsb, BitVec.extractLsb'_append_eq_of_le (by decide),
      BitVec.extractLsb'_append_eq_of_le (by decide)]
    cases sign <;> rfl
  change Sign.ofBitVec ((sign.toBitVec ++ field ++ rest).extractLsb 63 63) = sign
  rw [stored]
  cases sign <;> rfl

section

variable {bits : BitVec Format.binary64.numBits}

theorem unpack_normal (notLast : UnpackedFloat.unpackExponent bits ≠ -1#11)
    (notFirst : UnpackedFloat.unpackExponent bits ≠ 0#11) :
    ∃ positive, UnpackedFloat.unpack .binary64 bits =
      .finite (Sign.ofBitVec (UnpackedFloat.unpackSign bits))
        (1#1 ++ UnpackedFloat.unpackMantissa bits).toNat
        ((UnpackedFloat.unpackExponent bits).toNat - 1075) positive :=
  ⟨_, (if_neg notLast).trans (if_neg notFirst)⟩

theorem unpack_subnormal (first : UnpackedFloat.unpackExponent bits = 0#11) :
    UnpackedFloat.unpack .binary64 bits = .zero (Sign.ofBitVec (UnpackedFloat.unpackSign bits)) ∨
      ∃ mantissa exponent positive, UnpackedFloat.unpack .binary64 bits =
        .finite (Sign.ofBitVec (UnpackedFloat.unpackSign bits)) mantissa exponent positive := by
  have notLast : UnpackedFloat.unpackExponent bits ≠ -1#11 := by
    rw [first]
    decide
  by_cases none : UnpackedFloat.unpackMantissa bits = 0#52
  · exact .inl ((if_neg notLast).trans ((if_pos first).trans (dif_pos none)))
  · exact .inr ⟨_, _, _, (if_neg notLast).trans ((if_pos first).trans (dif_neg none))⟩

end

section

variable {sign : Sign} {mantissa biased : Nat} {positive : 0 < mantissa}

theorem pack_finite (inside : biased < 2047) :
    UnpackedFloat.pack .binary64 (.finite sign mantissa ((biased : Int) - 1075) positive) =
      UnpackedFloat.packComponents .binary64 sign
        (if mantissa.log2 = 52 then BitVec.ofNat 11 biased else 0#11)
        (BitVec.ofNat 52 mantissa) := by
  have back : ((biased : Int) - 1075 + 1023 + 52).toNat = biased := by omega
  change (if 2 ^ 11 ≤ ((biased : Int) - 1075 + 1023 + 52).toNat + 1 then _
    else if mantissa.log2 + 1 = 53 then UnpackedFloat.packComponents .binary64 sign
      (BitVec.ofNat 11 ((biased : Int) - 1075 + 1023 + 52).toNat) (BitVec.ofNat 52 mantissa)
    else UnpackedFloat.packComponents .binary64 sign 0#11 (BitVec.ofNat 52 mantissa)) = _
  rw [back, if_neg (by omega)]
  by_cases full : mantissa.log2 = 52
  · rw [if_pos (by omega), if_pos full]
  · rw [if_neg (by omega), if_neg full]

theorem unpack_pack (full : mantissa.log2 = 52) (nonzero : 0 < biased) (inside : biased < 2047) :
    UnpackedFloat.unpack .binary64
        (UnpackedFloat.pack .binary64 (.finite sign mantissa ((biased : Int) - 1075) positive)) =
      .finite sign mantissa ((biased : Int) - 1075) positive := by
  obtain ⟨low, high⟩ := (Nat.log2_eq_iff (by omega)).1 full
  have stored : (BitVec.ofNat 11 biased).toNat = biased := by
    rw [BitVec.toNat_ofNat]
    omega
  have notLast : BitVec.ofNat 11 biased ≠ -1#11 := by
    intro same
    have value : biased = (-1#11).toNat := stored.symm.trans (congrArg BitVec.toNat same)
    simp at value
    omega
  have notFirst : BitVec.ofNat 11 biased ≠ 0#11 := by
    intro same
    have value : biased = 0 := stored.symm.trans (congrArg BitVec.toNat same)
    omega
  have whole : (1#1 ++ BitVec.ofNat 52 mantissa).toNat = mantissa := by
    rw [toNat_cons_one, BitVec.toNat_ofNat]
    omega
  rw [pack_finite inside, if_pos full]
  generalize packed : UnpackedFloat.packComponents .binary64 sign (BitVec.ofNat 11 biased)
    (BitVec.ofNat 52 mantissa) = bits
  have signed : Sign.ofBitVec (UnpackedFloat.unpackSign bits) = sign :=
    packed ▸ sign_packComponents sign _ _
  have exponent : UnpackedFloat.unpackExponent bits = BitVec.ofNat 11 biased :=
    packed ▸ UnpackedFloat.unpackExponent_packComponents
  have rest : UnpackedFloat.unpackMantissa bits = BitVec.ofNat 52 mantissa :=
    packed ▸ UnpackedFloat.unpackMantissa_packComponents
  rw [← exponent] at notLast notFirst stored
  rw [← rest] at whole
  obtain ⟨_, unpacked⟩ := unpack_normal notLast notFirst
  rw [unpacked]
  refine (UnpackedFloat.finite.injEq ..).mpr ⟨signed, whole, ?_⟩
  rw [stored]

end

theorem shiftRight_exact (mantissa places : Nat) :
    (⟨mantissa * 2 ^ places, false, false⟩ : ExtendedMantissa) >>> places =
      ⟨mantissa, false, false⟩ := by
  induction places generalizing mantissa with
  | zero => simp [HShiftRight.hShiftRight, Nat.repeat]
  | succ places ih =>
    have twice : mantissa * 2 ^ (places + 1) = mantissa * 2 * 2 ^ places := by
      rw [Nat.pow_succ, Nat.mul_comm (2 ^ places), Nat.mul_assoc]
    have before := ih (mantissa * 2)
    rw [← twice] at before
    change ExtendedMantissa.shiftRightOne
      ((⟨mantissa * 2 ^ (places + 1), false, false⟩ : ExtendedMantissa) >>> places) = _
    rw [before]
    simp [ExtendedMantissa.shiftRightOne]

theorem log2_mul_two_pow {n : Nat} (positive : 0 < n) (places : Nat) :
    (n * 2 ^ places).log2 = n.log2 + places := by
  induction places with
  | zero => simp
  | succ places ih =>
    have nonzero : n * 2 ^ places ≠ 0 :=
      Nat.ne_of_gt (Nat.mul_pos positive (Nat.two_pow_pos places))
    rw [Nat.pow_succ, ← Nat.mul_assoc, Nat.mul_comm, Nat.log2_two_mul nonzero, ih, Nat.add_assoc]

theorem targetExponent_eq (t : Int) : Format.binary64.targetExponent t = max (t - 53) (-1074) := by
  simp only [Format.targetExponent]
  rfl

theorem roundWithAccuracy_exact (sign : Sign) {mantissa : Nat} {exponent : Int}
    (positive : 0 < mantissa) (full : mantissa.log2 = 52) (places : Nat) (low : -1074 ≤ exponent) :
    UnpackedFloat.roundWithAccuracy .binary64 sign (mantissa * 2 ^ places) (exponent - places)
      .exact = .finite sign mantissa exponent positive := by
  have first : UnpackedFloat.shiftToTargetExponent .binary64 (mantissa * 2 ^ places)
      (exponent - places) .exact = (⟨mantissa, false, false⟩, exponent) := by
    have target : (Format.binary64.targetExponent
        (totalExponent (mantissa * 2 ^ places) (exponent - places)) -
          (exponent - places)).toNat = places := by
      rw [targetExponent_eq, totalExponent, log2_mul_two_pow positive, full]
      omega
    unfold UnpackedFloat.shiftToTargetExponent UnpackedFloat.shiftToExponent
    simp only [target, ExtendedMantissa.ofMantissaAndAccuracy, shiftRight_exact,
      Int.sub_add_cancel]
  have second : UnpackedFloat.shiftToTargetExponent .binary64 mantissa exponent .exact =
      (⟨mantissa, false, false⟩, exponent) := by
    have target : (Format.binary64.targetExponent (totalExponent mantissa exponent) -
        exponent).toNat = 0 := by
      rw [targetExponent_eq, totalExponent, full]
      omega
    have unshifted := shiftRight_exact mantissa 0
    rw [Nat.pow_zero, Nat.mul_one] at unshifted
    unfold UnpackedFloat.shiftToTargetExponent UnpackedFloat.shiftToExponent
    simp [target, ExtendedMantissa.ofMantissaAndAccuracy, unshifted]
  have kept : ExtendedMantissa.roundedMantissa ⟨mantissa, false, false⟩ = mantissa := rfl
  unfold UnpackedFloat.roundWithAccuracy
  rw [first]
  dsimp only
  rw [kept, second]
  exact dif_neg (Nat.ne_of_gt positive)

theorem mul_two_pow_sub {m n j k : Nat} (same : m * 2 ^ j = n * 2 ^ k) :
    m * 2 ^ (j - k) = n * 2 ^ (k - j) := by
  rcases Nat.le_total j k with less | less
  · rw [Nat.sub_eq_zero_of_le less, Nat.pow_zero, Nat.mul_one]
    refine Nat.eq_of_mul_eq_mul_right (Nat.two_pow_pos j) ?_
    rw [same, Nat.mul_assoc, ← Nat.pow_add, Nat.sub_add_cancel less]
  · rw [Nat.sub_eq_zero_of_le less, Nat.pow_zero, Nat.mul_one]
    refine Nat.eq_of_mul_eq_mul_right (Nat.two_pow_pos k) ?_
    rw [← same, Nat.mul_assoc, ← Nat.pow_add, Nat.sub_add_cancel less]

theorem round_exact (sign : Sign) {mantissa scaled scale place : Nat} (positive : 0 < mantissa)
    (full : mantissa.log2 = 52) (value : scaled * 2 ^ scale = mantissa * 2 ^ place) :
    UnpackedFloat.round .binary64 sign scaled ((scale : Int) - 52) =
      .finite sign mantissa ((place : Int) - 52) positive := by
  have scaledPositive : 0 < scaled := by
    refine Nat.pos_of_ne_zero fun none => ?_
    rw [none, Nat.zero_mul] at value
    exact Nat.ne_of_lt (Nat.mul_pos positive (Nat.two_pow_pos place)) value
  have target : Format.binary64.targetExponent (totalExponent scaled ((scale : Int) - 52)) =
      (place : Int) - 52 := by
    have logs := congrArg Nat.log2 value
    rw [log2_mul_two_pow scaledPositive, log2_mul_two_pow positive, full] at logs
    rw [targetExponent_eq, totalExponent]
    omega
  have shifted := mul_two_pow_sub value
  have places : ((scale : Int) - 52 - ((place : Int) - 52)).toNat = scale - place := by omega
  have exponent : (scale : Int) - 52 - ((scale - place : Nat) : Int) =
      ((place : Int) - 52) - ((place - scale : Nat) : Int) := by
    omega
  refine Eq.trans ?_ (roundWithAccuracy_exact sign positive full (place - scale) (by omega))
  unfold UnpackedFloat.round UnpackedFloat.decreaseExponent
  simp only [target, places, Nat.shiftLeft_eq, shifted, exponent]

theorem exists_full {size : Nat} (positive : 0 < size) (small : size ≤ 2 ^ 53) :
    ∃ mantissa place : Nat, 0 < mantissa ∧ mantissa.log2 = 52 ∧
      mantissa * 2 ^ place = size * 2 ^ 52 := by
  rcases Nat.eq_or_lt_of_le small with rfl | less
  · exact ⟨2 ^ 52, 53, by decide, by decide, by decide⟩
  · have short : size.log2 ≤ 52 :=
      Nat.lt_succ_iff.1 ((Nat.log2_lt (Nat.ne_of_gt positive)).2 less)
    refine ⟨size * 2 ^ (52 - size.log2), size.log2,
      Nat.mul_pos positive (Nat.two_pow_pos _), ?_, ?_⟩
    · rw [log2_mul_two_pow positive]
      omega
    · rw [Nat.mul_assoc, ← Nat.pow_add, Nat.sub_add_cancel short]

theorem round_represents (sign : Sign) {size scaled scale : Nat} (positive : 0 < size)
    (small : size ≤ 2 ^ 53) (value : scaled * 2 ^ scale = size * 2 ^ 52) :
    Represents (UnpackedFloat.round .binary64 sign scaled ((scale : Int) - 52))
      (sign.apply size) := by
  obtain ⟨mantissa, place, filled, full, whole⟩ := exists_full positive small
  rw [round_exact sign filled full (value.trans whole.symm)]
  refine .finite filled full ?_
  rw [whole]
  cases sign <;> simp [Sign.apply]

theorem normalize_represents {n scaled : Int} {scale : Nat} (small : n.natAbs ≤ 2 ^ 53)
    (value : scaled * 2 ^ scale = n * 2 ^ 52) (zeroSign : Sign) :
    Represents (UnpackedFloat.normalize .binary64 scaled ((scale : Int) - 52) zeroSign) n := by
  have power : (0 : Int) < 2 ^ scale := Int.pow_pos (by decide)
  unfold UnpackedFloat.normalize
  rcases Int.lt_trichotomy scaled 0 with negative | rfl | positive
  · have below : n < 0 := by
      have := Int.mul_neg_of_neg_of_pos negative power
      omega
    obtain ⟨size, rfl⟩ : ∃ size : Nat, n = -size := ⟨n.natAbs, by omega⟩
    obtain ⟨natural, rfl⟩ : ∃ natural : Nat, scaled = -natural := ⟨scaled.natAbs, by omega⟩
    rw [Int.compare_eq_lt.2 negative]
    dsimp only
    rw [Int.neg_neg, Int.toNat_natCast]
    rw [Int.neg_mul, Int.neg_mul, Int.neg_inj] at value
    exact round_represents .negative (by omega) (by omega) (by exact_mod_cast value)
  · obtain rfl : n = 0 := by omega
    exact .zero zeroSign
  · have above : 0 < n := by
      have := Int.mul_pos positive power
      omega
    obtain ⟨size, rfl⟩ := Int.eq_ofNat_of_zero_le (Int.le_of_lt above)
    obtain ⟨natural, rfl⟩ := Int.eq_ofNat_of_zero_le (Int.le_of_lt positive)
    rw [Int.compare_eq_gt.2 positive]
    exact round_represents .positive (by omega) (by omega) (by exact_mod_cast value)

section

variable {u v : UnpackedFloat} {a b n : Int}

theorem Represents.unpack_pack (represents : Represents u n) (small : n.natAbs < 2 ^ 64) :
    UnpackedFloat.unpack .binary64 (UnpackedFloat.pack .binary64 u) = u := by
  cases represents with
  | zero sign => cases sign <;> rfl
  | @finite sign mantissa scale n positive full value =>
    have sizes : mantissa * 2 ^ scale = n.natAbs * 2 ^ 52 := by
      have := congrArg Int.natAbs value
      cases sign <;> simpa [Sign.apply, Int.natAbs_mul] using this
    have short : scale < 64 := by
      refine Nat.lt_of_not_le fun long => ?_
      have low := ((Nat.log2_eq_iff (Nat.ne_of_gt positive)).1 full).1
      have large := Nat.mul_le_mul low (Nat.pow_le_pow_right (by decide) long :
        2 ^ 64 ≤ 2 ^ scale)
      omega
    have exponent : (scale : Int) - 52 = ((scale + 1023 : Nat) : Int) - 1075 := by omega
    rw [exponent]
    exact unpack_pack full (by omega) (by omega)

theorem Represents.neg (represents : Represents u n) : Represents u.neg (-n) := by
  cases represents with
  | zero sign => exact .zero (-sign)
  | @finite sign mantissa scale n positive full value =>
    refine .finite positive full ?_
    rw [Int.neg_mul, ← value]
    cases sign
    · exact (Int.neg_neg _).symm
    · rfl

theorem apply_shiftLeft {sign : Sign} {mantissa scale lower : Nat} (below : lower ≤ scale) :
    sign.apply (mantissa <<< (scale - lower) : Nat) * 2 ^ lower =
      sign.apply (mantissa * 2 ^ scale : Nat) := by
  have shifted : (mantissa <<< (scale - lower)) * 2 ^ lower = mantissa * 2 ^ scale := by
    rw [Nat.shiftLeft_eq, Nat.mul_assoc, ← Nat.pow_add, Nat.sub_add_cancel below]
  rw [← shifted]
  cases sign <;> simp [Sign.apply]

theorem Represents.add_cases (left : Represents u a) (right : Represents v b) :
    Represents (UnpackedFloat.add .binary64 u v) (a + b) ∨
      ∃ (scaled : Int) (scale : Nat), scaled * 2 ^ scale = (a + b) * 2 ^ 52 ∧
        UnpackedFloat.add .binary64 u v =
          UnpackedFloat.normalize .binary64 scaled ((scale : Int) - 52) .positive := by
  cases left with
  | zero sign =>
    rw [Int.zero_add]
    cases right with
    | zero other => cases sign <;> cases other <;> exact .inl (.zero _)
    | finite positive full value => exact .inl (.finite positive full value)
  | @finite sign mantissa scale a positive full value =>
    cases right with
    | zero =>
      rw [Int.add_zero]
      exact .inl (.finite positive full value)
    | @finite other mantissa' scale' b positive' full' value' =>
      let low := min scale scale'
      let scaled := sign.apply (mantissa <<< (scale - low) : Nat) +
        other.apply (mantissa' <<< (scale' - low) : Nat)
      have lower : min ((scale : Int) - 52) ((scale' : Int) - 52) = (low : Int) - 52 := by omega
      have places : ((scale : Int) - 52 - ((low : Int) - 52)).toNat = scale - low := by omega
      have places' : ((scale' : Int) - 52 - ((low : Int) - 52)).toNat = scale' - low := by omega
      refine .inr ⟨scaled, low, ?_, ?_⟩
      · rw [Int.add_mul, Int.add_mul, apply_shiftLeft (Nat.min_le_left ..),
          apply_shiftLeft (Nat.min_le_right ..), value, value']
      · unfold UnpackedFloat.add UnpackedFloat.decreaseExponent
        simp only [lower, places, places']
        rfl

theorem Represents.add (left : Represents u a) (right : Represents v b)
    (small : (a + b).natAbs ≤ 2 ^ 53) : Represents (UnpackedFloat.add .binary64 u v) (a + b) := by
  rcases left.add_cases right with represents | ⟨scaled, scale, value, sum⟩
  · exact represents
  · rw [sum]
    exact normalize_represents small value _

theorem sub_eq_add_neg (u v : UnpackedFloat) :
    UnpackedFloat.sub .binary64 u v = UnpackedFloat.add .binary64 u v.neg := by
  have apply_neg (sign : Sign) (n : Int) : (-sign).apply n = -sign.apply n := by
    cases sign
    · exact (Int.neg_neg n).symm
    · rfl
  cases u with
  | finite =>
    cases v with
    | finite =>
      unfold UnpackedFloat.sub UnpackedFloat.add UnpackedFloat.neg
      dsimp only
      rw [apply_neg, Int.sub_eq_add_neg]
    | _ => rfl
  | zero sign =>
    cases v with
    | zero other => cases sign <;> cases other <;> rfl
    | _ => rfl
  | _ => cases v <;> rfl

theorem Represents.sub (left : Represents u a) (right : Represents v b)
    (small : (a - b).natAbs ≤ 2 ^ 53) : Represents (UnpackedFloat.sub .binary64 u v) (a - b) := by
  rw [sub_eq_add_neg, Int.sub_eq_add_neg]
  exact left.add right.neg (by rwa [← Int.sub_eq_add_neg])

theorem compare_full {m n j k : Nat} (mFull : m.log2 = 52) (nFull : n.log2 = 52) :
    (compare ((j : Int) - 52) ((k : Int) - 52)).then (compare m n) =
      compare (m * 2 ^ j) (n * 2 ^ k) := by
  have bounds {m : Nat} (full : m.log2 = 52) : 2 ^ 52 ≤ m ∧ m < 2 ^ 53 := by
    refine (Nat.log2_eq_iff ?_).1 full
    rintro rfl
    simp at full
  have longer {m n j k : Nat} (mFull : m.log2 = 52) (nFull : n.log2 = 52) (less : j < k) :
      m * 2 ^ j < n * 2 ^ k := by
    calc
      m * 2 ^ j < 2 ^ 53 * 2 ^ j :=
        Nat.mul_lt_mul_of_pos_right (bounds mFull).2 (Nat.two_pow_pos j)
      _ = 2 ^ 52 * 2 ^ (j + 1) := by
        rw [← Nat.pow_add, ← Nat.pow_add, show 53 + j = 52 + (j + 1) by omega]
      _ ≤ n * 2 ^ k :=
        Nat.mul_le_mul (bounds nFull).1 (Nat.pow_le_pow_right (by decide) less)
  rcases Nat.lt_trichotomy j k with less | rfl | more
  · rw [Int.compare_eq_lt.2 (by omega), Nat.compare_eq_lt.2 (longer mFull nFull less)]
    rfl
  · have power := Nat.two_pow_pos j
    rw [Int.compare_eq_eq.2 rfl, Nat.compare_eq_ite_lt, Nat.compare_eq_ite_lt]
    simp only [Nat.mul_lt_mul_right power, Ordering.then]
  · rw [Int.compare_eq_gt.2 (by omega), Nat.compare_eq_gt.2 (longer nFull mFull more)]
    rfl

theorem compare_congr {m n : Nat} (less : m < n ↔ a < b) (more : n < m ↔ b < a) :
    compare m n = compare a b := by
  rw [Nat.compare_eq_ite_lt, Int.compare_eq_ite_lt]
  simp only [less, more]

theorem size_of_positive {mantissa scale : Nat} (positive : 0 < mantissa)
    (value : Sign.positive.apply (mantissa * 2 ^ scale : Nat) = n * 2 ^ 52) :
    ((mantissa * 2 ^ scale : Nat) : Int) = n * 2 ^ 52 ∧ 0 < n := by
  have size := Nat.mul_pos positive (Nat.two_pow_pos scale)
  have same : ((mantissa * 2 ^ scale : Nat) : Int) = n * 2 ^ 52 := value
  exact ⟨same, by omega⟩

theorem size_of_negative {mantissa scale : Nat} (positive : 0 < mantissa)
    (value : Sign.negative.apply (mantissa * 2 ^ scale : Nat) = n * 2 ^ 52) :
    ((mantissa * 2 ^ scale : Nat) : Int) = -n * 2 ^ 52 ∧ n < 0 := by
  have size := Nat.mul_pos positive (Nat.two_pow_pos scale)
  have same : -((mantissa * 2 ^ scale : Nat) : Int) = n * 2 ^ 52 := value
  exact ⟨by omega, by omega⟩

theorem Represents.compare_eq (left : Represents u a) (right : Represents v b) :
    u.compare v = some (compare a b) := by
  cases left with
  | zero sign =>
    cases right with
    | zero => rfl
    | @finite other mantissa scale b positive full value =>
      cases other with
      | negative =>
        rw [Int.compare_eq_gt.2 (size_of_negative positive value).2]
        rfl
      | positive =>
        rw [Int.compare_eq_lt.2 (size_of_positive positive value).2]
        rfl
  | @finite sign mantissa scale a positive full value =>
    cases right with
    | zero =>
      cases sign with
      | negative =>
        rw [Int.compare_eq_lt.2 (size_of_negative positive value).2]
        rfl
      | positive =>
        rw [Int.compare_eq_gt.2 (size_of_positive positive value).2]
        rfl
    | @finite other mantissa' scale' b positive' full' value' =>
      cases sign with
      | negative =>
        obtain ⟨size, below⟩ := size_of_negative positive value
        cases other with
        | negative =>
          obtain ⟨size', -⟩ := size_of_negative positive' value'
          change some (Ordering.swap _) = _
          rw [compare_full full full', Nat.compare_swap]
          exact congrArg some (compare_congr (by omega) (by omega))
        | positive =>
          obtain ⟨-, above⟩ := size_of_positive positive' value'
          rw [Int.compare_eq_lt.2 (by omega)]
          rfl
      | positive =>
        obtain ⟨size, above⟩ := size_of_positive positive value
        cases other with
        | negative =>
          obtain ⟨-, below⟩ := size_of_negative positive' value'
          rw [Int.compare_eq_gt.2 (by omega)]
          rfl
        | positive =>
          obtain ⟨size', -⟩ := size_of_positive positive' value'
          change some _ = _
          rw [compare_full full full']
          exact congrArg some (compare_congr (by omega) (by omega))

theorem Represents.le_iff (left : Represents u a) (right : Represents v b) :
    u.le v = true ↔ a ≤ b := by
  rw [UnpackedFloat.le, left.compare_eq right, Option.any_some, Int.isLE_compare]

end

section

variable {x y : Float} {a b n : Int}

theorem isInteger_of_pack {u : UnpackedFloat} (represents : Represents u n)
    (small : n.natAbs < 2 ^ 64) : IsInteger (.ofModel (.pack u)) n := by
  have same : (Float.Model.pack u).unpack = u := represents.unpack_pack small
  rw [IsInteger, same]
  exact represents

theorem IsInteger.add (left : IsInteger x a) (right : IsInteger y b)
    (small : (a + b).natAbs ≤ 2 ^ 53) : IsInteger (x + y) (a + b) :=
  isInteger_of_pack (Represents.add left right small) (by omega)

theorem IsInteger.sub (left : IsInteger x a) (right : IsInteger y b)
    (small : (a - b).natAbs ≤ 2 ^ 53) : IsInteger (x - y) (a - b) :=
  isInteger_of_pack (Represents.sub left right small) (by omega)

theorem IsInteger.neg (whole : IsInteger x n) (small : n.natAbs < 2 ^ 64) :
    IsInteger (-x) (-n) :=
  isInteger_of_pack (Represents.neg whole) (by omega)

theorem IsInteger.le_iff (left : IsInteger x a) (right : IsInteger y b) : x ≤ y ↔ a ≤ b :=
  decide_eq_true_iff.trans (Represents.le_iff left right)

theorem isInteger_toFloat {n : UInt64} (small : n.toNat ≤ 2 ^ 53) :
    IsInteger n.toFloat n.toNat := by
  have value : (n.toNat : Int) * 2 ^ 52 = n.toNat * 2 ^ 52 := rfl
  exact isInteger_of_pack (normalize_represents (by omega) value .positive) (by omega)

theorem isInteger_toUInt64 {value : Int64} (nonnegative : 0 ≤ value)
    (small : value.toInt.natAbs ≤ 2 ^ 53) : IsInteger value.toUInt64.toFloat value.toInt := by
  have size : value.toUInt64.toNat = value.toInt.toNat := Int64.toNat_toUInt64_of_le nonnegative
  have positive : 0 ≤ value.toInt := Int64.le_iff_toInt_le.1 nonnegative
  have whole := isInteger_toFloat (n := value.toUInt64) (by omega)
  rwa [size, Int.toNat_of_nonneg positive] at whole

theorem isInteger_ofInteger {value : Int64} (small : value.toInt.natAbs ≤ 2 ^ 53) :
    IsInteger (ofInteger value) value.toInt := by
  unfold ofInteger
  split
  next negative =>
    have below : value.toInt < 0 := Int64.lt_iff_toInt_lt.1 negative
    have opposite : (-value).toInt = -value.toInt := by
      rw [Int64.toInt_neg]
      exact Int.bmod_eq_of_le (by omega) (by omega)
    have nonnegative : 0 ≤ -value := by
      rw [Int64.le_iff_toInt_le, opposite, Int64.toInt_zero]
      omega
    have whole := (isInteger_toUInt64 nonnegative (by omega)).neg (by omega)
    rwa [opposite, Int.neg_neg] at whole
  next nonnegative => exact isInteger_toUInt64 (Int64.not_lt.1 nonnegative) small

theorem isInteger_negative_zero : IsInteger (-0.0) 0 := Represents.zero .negative

theorem isInteger_zero : IsInteger 0.0 0 := Represents.zero .positive

theorem isInteger_hundred : IsInteger 100 100 := by
  have same : (100 : Float) = ofInteger 100 := by decide
  rw [same]
  exact isInteger_ofInteger (by decide)

theorem isInteger_minus_one : IsInteger (-1) (-1) := by
  have same : (-1 : Float) = ofInteger (-1) := by decide
  rw [same]
  exact isInteger_ofInteger (by decide)

end

section

variable {u v : UnpackedFloat} {n : Int}

theorem Represents.unique (left : Represents u n) (right : Represents v n) (nonzero : n ≠ 0) :
    u = v := by
  cases left with
  | zero => exact absurd rfl nonzero
  | @finite sign mantissa scale n positive full value =>
    cases right with
    | zero => exact absurd rfl nonzero
    | @finite other mantissa' scale' n positive' full' value' =>
      have same : sign = other ∧ mantissa * 2 ^ scale = mantissa' * 2 ^ scale' := by
        cases sign with
        | negative =>
          obtain ⟨size, below⟩ := size_of_negative positive value
          cases other with
          | negative => exact ⟨rfl, by have := (size_of_negative positive' value').1; omega⟩
          | positive => exact absurd (size_of_positive positive' value').2 (by omega)
        | positive =>
          obtain ⟨size, above⟩ := size_of_positive positive value
          cases other with
          | negative => exact absurd (size_of_negative positive' value').2 (by omega)
          | positive => exact ⟨rfl, by have := (size_of_positive positive' value').1; omega⟩
      obtain ⟨rfl, sizes⟩ := same
      have logs := congrArg Nat.log2 sizes
      rw [log2_mul_two_pow positive, log2_mul_two_pow positive', full, full'] at logs
      obtain rfl : scale = scale' := by omega
      obtain rfl := Nat.eq_of_mul_eq_mul_right (Nat.two_pow_pos scale) sizes
      rfl

inductive FiniteNonneg : UnpackedFloat → Prop
  | zero (sign : Sign) : FiniteNonneg (.zero sign)
  | finite {mantissa : Nat} {exponent : Int} (positive : 0 < mantissa) :
      FiniteNonneg (.finite .positive mantissa exponent positive)

theorem zero_le_packComponents {field : BitVec 11} (rest : BitVec 52) (finite : field ≠ -1#11) :
    (UnpackedFloat.zero .positive).le (UnpackedFloat.unpack .binary64
      (UnpackedFloat.packComponents .binary64 .positive field rest)) = true := by
  generalize packed : UnpackedFloat.packComponents .binary64 .positive field rest = bits
  have signed : Sign.ofBitVec (UnpackedFloat.unpackSign bits) = .positive :=
    packed ▸ sign_packComponents .positive field rest
  have exponent : UnpackedFloat.unpackExponent bits = field :=
    packed ▸ UnpackedFloat.unpackExponent_packComponents
  by_cases first : field = 0#11
  · rcases unpack_subnormal (exponent.trans first) with unpacked | ⟨_, _, _, unpacked⟩ <;>
      rw [unpacked, signed] <;> rfl
  · rw [← exponent] at finite first
    obtain ⟨_, unpacked⟩ := unpack_normal finite first
    rw [unpacked, signed]
    rfl

theorem FiniteNonneg.zero_le_pack (finiteNonneg : FiniteNonneg u) :
    (UnpackedFloat.zero .positive).le
      (UnpackedFloat.unpack .binary64 (UnpackedFloat.pack .binary64 u)) = true := by
  cases finiteNonneg with
  | zero sign => cases sign <;> rfl
  | finite positive =>
    unfold UnpackedFloat.pack
    dsimp only
    split
    next => rfl
    next inside =>
      split
      next =>
        refine zero_le_packComponents _ fun last => inside ?_
        have value := congrArg BitVec.toNat last
        rw [BitVec.toNat_ofNat] at value
        change _ % 2048 = 2047 at value
        change 2048 ≤ _
        omega
      next => exact zero_le_packComponents _ (by decide)

theorem finiteNonneg_dite {mantissa : Nat} {exponent : Int} :
    FiniteNonneg (if none : mantissa = 0 then .zero .positive
      else .finite .positive mantissa exponent (Nat.pos_of_ne_zero none)) := by
  by_cases none : mantissa = 0
  · rw [dif_pos none]
    exact .zero .positive
  · rw [dif_neg none]
    exact .finite (Nat.pos_of_ne_zero none)

theorem finiteNonneg_normalize {scaled exponent : Int} (nonnegative : 0 ≤ scaled)
    (zeroSign : Sign) :
    FiniteNonneg (UnpackedFloat.normalize .binary64 scaled exponent zeroSign) := by
  unfold UnpackedFloat.normalize
  rcases Int.lt_or_eq_of_le nonnegative with positive | rfl
  · rw [Int.compare_eq_gt.2 positive]
    exact finiteNonneg_dite
  · exact .zero zeroSign

theorem Represents.finiteNonneg (represents : Represents u n) (nonnegative : 0 ≤ n) :
    FiniteNonneg u := by
  cases represents with
  | zero sign => exact .zero sign
  | @finite sign mantissa scale n positive full value =>
    cases sign with
    | negative => exact absurd (size_of_negative positive value).2 (by omega)
    | positive => exact .finite positive

theorem Represents.finiteNonneg_add {a b : Int} (left : Represents u a) (right : Represents v b)
    (nonnegative : 0 ≤ a + b) : FiniteNonneg (UnpackedFloat.add .binary64 u v) := by
  rcases left.add_cases right with represents | ⟨scaled, scale, value, sum⟩
  · exact represents.finiteNonneg nonnegative
  · rw [sum]
    refine finiteNonneg_normalize (Int.not_lt.1 fun negative => ?_) _
    have power : (0 : Int) < 2 ^ scale := Int.pow_pos (by decide)
    have below := Int.mul_neg_of_neg_of_pos negative power
    omega

theorem IsInteger.zero_le_sub {x y : Float} {a b : Int} (left : IsInteger x a)
    (right : IsInteger y b) (less : b ≤ a) : 0.0 ≤ x - y := by
  have finiteNonneg := Represents.finiteNonneg_add left (Represents.neg right) (by omega)
  rw [← sub_eq_add_neg] at finiteNonneg
  exact decide_eq_true_iff.2 finiteNonneg.zero_le_pack

theorem IsInteger.zero_le_sub_iff {x y : Float} {a b : Int} (left : IsInteger x a)
    (right : IsInteger y b) (near : a < b → b - a ≤ 2 ^ 53) : 0.0 ≤ x - y ↔ x ≥ y := by
  have compared : y ≤ x ↔ b ≤ a := right.le_iff left
  refine ⟨fun nonnegative => compared.2 (Int.not_lt.1 fun less => ?_),
    fun above => left.zero_le_sub right (compared.1 above)⟩
  have exact := left.sub right (by have := near less; omega)
  have := (isInteger_zero.le_iff exact).1 nonnegative
  omega

-- What has come down to here stays here: the next number below is two away.
theorem IsInteger.add_minus_one {x y : Float} (lowest : IsInteger x (-2 ^ 53))
    (one : IsInteger y (-1)) : IsInteger (x + y) (-2 ^ 53) := by
  have bottom : Represents (.finite .negative (2 ^ 52) ((53 : Nat) - 52) (by decide)) (-2 ^ 53) :=
    .finite _ (by decide) (by decide)
  have down : Represents (.finite .negative (2 ^ 52) ((0 : Nat) - 52) (by decide)) (-1) :=
    .finite _ (by decide) (by decide)
  have sum : UnpackedFloat.add .binary64 x.toModel.unpack y.toModel.unpack =
      .finite .negative (2 ^ 52) ((53 : Nat) - 52) (by decide) := by
    rw [Represents.unique lowest bottom (by decide), Represents.unique one down (by decide)]
    rfl
  refine isInteger_of_pack ?_ (by decide)
  rw [sum]
  exact bottom

theorem isInteger_foldl_replicate {x : Float} (one : IsInteger x (-1)) (count : Nat) :
    IsInteger ((List.replicate count x).foldl (fun sum value => sum + value) (-0.0))
      (-(min count (2 ^ 53) : Nat)) := by
  induction count with
  | zero => exact isInteger_negative_zero
  | succ count ih =>
    rw [List.replicate_succ', List.foldl_append, List.foldl_cons, List.foldl_nil]
    by_cases early : count < 2 ^ 53
    · rw [Nat.min_eq_left (Nat.le_of_lt early)] at ih
      rw [Nat.min_eq_left early]
      have next := ih.add one (by omega)
      rwa [show -((count : Nat) : Int) + -1 = -((count + 1 : Nat) : Int) by omega] at next
    · rw [Nat.min_eq_right (Nat.not_lt.1 early)] at ih
      rw [Nat.min_eq_right (Nat.le_succ_of_le (Nat.not_lt.1 early))]
      exact ih.add_minus_one one

end

end DeclarativeMdp.Decimal
