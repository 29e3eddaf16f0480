import DeclarativeMdp.Clingo.Settings
import Mathlib.Data.List.Infix
import Mathlib.Order.Bounds.Basic

set_option autoImplicit false

namespace DeclarativeMdp

namespace Duration

variable {d : Duration} {seconds : Nat}

def total (d : Duration) : Nat := d.secs.toNat * 1000000000 + d.nanos

def Within (d : Duration) (seconds : Nat) : Prop := d.total ≤ seconds * 1000000000

instance (d : Duration) (seconds : Nat) : Decidable (d.Within seconds) :=
  inferInstanceAs (Decidable (_ ≤ _))

theorem wholeSeconds_le_iff : d.wholeSeconds ≤ seconds ↔ d.Within seconds := by
  have short := d.nanos_lt
  unfold wholeSeconds Within total
  by_cases whole : 0 < d.nanos
  · rw [if_pos whole]
    omega
  · rw [if_neg whole]
    omega

theorem isLeast_wholeSeconds (d : Duration) : IsLeast {seconds | d.Within seconds} d.wholeSeconds :=
  ⟨wholeSeconds_le_iff.1 le_rfl, fun _ within => wholeSeconds_le_iff.2 within⟩

theorem wholeSeconds_lt_size_iff : d.wholeSeconds < UInt64.size ↔ d.Within (UInt64.size - 1) := by
  rw [← wholeSeconds_le_iff]
  exact Nat.lt_iff_le_pred (by decide)

theorem total_of_ofParts? {nanos : Nat} (made : ofParts? 0 nanos = some d) :
    d.total = nanos ∧ nanos / 1000000000 < UInt64.size := by
  unfold ofParts? at made
  dsimp only at made
  split at made
  next short =>
    rw [Nat.zero_add] at short made
    cases made
    refine ⟨?_, short⟩
    simp only [total, UInt64.toNat_ofNat', Nat.mod_eq_of_lt short]
    omega
  next => exact nomatch made

end Duration

namespace Decimal

theorem Binary.mantissa_lt {x : Float} {negative : Bool} {mantissa : Nat} {exponent : Int}
    (finite : Binary.ofFloat x = .finite negative mantissa exponent) :
    mantissa < 9007199254740992 := by
  have fraction : x.toBits.toNat % leadingUnit < leadingUnit := Nat.mod_lt _ (by decide)
  have unit : leadingUnit = 4503599627370496 := by decide
  unfold Binary.ofFloat Binary.ofBits at finite
  dsimp only at finite
  split at finite
  next => split at finite <;> cases finite
  next =>
    split at finite
    next => cases finite; omega
    next => cases finite; omega

theorem Ratio.round_le {r : Ratio} {bound : Nat} (tie : Tie) (positive : 0 < r.den)
    (below : r.num ≤ bound * r.den) : r.round tie ≤ bound := by
  have low : r.num / r.den ≤ bound := Nat.div_le_of_le_mul (by rwa [Nat.mul_comm])
  by_cases least : r.num / r.den = bound
  · have parts := Nat.div_add_mod' r.num r.den
    have rest : r.num % r.den = 0 := by
      rw [least] at parts
      omega
    rw [round, rest, if_pos (by omega)]
    exact low
  · unfold round
    dsimp only
    split_ifs <;> omega

theorem Ratio.round_of_den_eq_one {r : Ratio} (tie : Tie) (whole : r.den = 1) :
    r.round tie = r.num := by
  simp [round, whole, Nat.mod_one]

theorem Ratio.round_nanos (tie : Tie) (mantissa : Nat) (exponent : Int) :
    (∃ seconds, ((ofBinary mantissa exponent).shift 9).round tie = seconds * 1000000000) ∨
      ((ofBinary mantissa exponent).shift 9).round tie ≤ mantissa * 1000000000 := by
  by_cases whole : 0 ≤ exponent
  · have exact : ((ofBinary mantissa exponent).shift 9).den = 1 := by
      simp [ofBinary, shift, whole]
    exact .inl ⟨mantissa * Nat.pow 2 exponent.toNat, round_of_den_eq_one tie exact⟩
  · have none : exponent.toNat = 0 := Int.toNat_of_nonpos (by omega)
    have scaled : ((ofBinary mantissa exponent).shift 9).num = mantissa * 1000000000 := by
      simp [ofBinary, shift, none]
    have positive : 0 < ((ofBinary mantissa exponent).shift 9).den :=
      Nat.mul_pos (Nat.pow_pos (by decide)) (Nat.pow_pos (by decide))
    refine .inr (round_le tie positive ?_)
    rw [scaled]
    exact Nat.le_mul_of_pos_right _ positive

end Decimal

namespace Duration

-- A floating-point number of seconds is whole from 2 ^ 53 on, so that the last second there is
-- cannot be entered.
theorem within_of_ofSeconds? {x : Float} {d : Duration} (made : ofSeconds? x = some d) :
    d.Within (UInt64.size - 1) := by
  unfold ofSeconds? at made
  split at made
  next negative mantissa exponent finite =>
    have short := Decimal.Binary.mantissa_lt finite
    split at made
    next => cases made
    next =>
      obtain ⟨total, bounded⟩ := total_of_ofParts? made
      rw [Within, total]
      rcases Decimal.Ratio.round_nanos .toEven mantissa exponent with ⟨seconds, whole⟩ | few
      · rw [whole, Nat.mul_div_cancel _ (by decide)] at bounded
        rw [whole]
        exact Nat.mul_le_mul_right _ (Nat.le_pred_of_lt bounded)
      · have room : mantissa ≤ UInt64.size - 1 := short.le.trans (by decide)
        exact few.trans (Nat.mul_le_mul_right _ room)
  next => cases made

end Duration

namespace Clingo.Settings

def limitOption : String := "--time-limit="

def IsLimit (argument : String) : Prop := limitOption.toList <+: argument.toList

instance (argument : String) : Decidable (IsLimit argument) :=
  inferInstanceAs (Decidable (_ <+: _))

theorem isLimit_append (rest : String) : IsLimit (limitOption ++ rest) := by
  rw [IsLimit, String.toList_append]
  exact List.prefix_append _ _

theorem not_isLimit_append {front : String}
    (apart : ¬ (limitOption.toList <+: front.toList ∨ front.toList <+: limitOption.toList))
    (rest : String) : ¬ IsLimit (front ++ rest) := by
  intro limited
  rw [IsLimit, String.toList_append] at limited
  exact apart (List.prefix_or_prefix_of_prefix limited (List.prefix_append _ _))

theorem not_isLimit_of_mem_modeArguments {mode : Mode} {argument : String}
    (present : argument ∈ modeArguments mode) : ¬ IsLimit argument := by
  cases mode with
  | enumerate limit =>
    simp only [modeArguments, List.mem_cons, List.not_mem_nil, or_false] at present
    rcases present with rfl | rfl
    · exact not_isLimit_append (by decide) _
    · decide
  | optimize =>
    simp only [modeArguments, List.mem_cons, List.not_mem_nil, or_false] at present
    rcases present with rfl | rfl <;> decide

theorem arguments_of_limit (settings : Settings) (request : Request) {limit : List String}
    (said : limitArguments settings.timeLimit = .ok limit) :
    ∃ arguments, settings.arguments request = .ok arguments ∧
      arguments.filter IsLimit = limit.filter IsLimit := by
  refine ⟨_, by rw [Settings.arguments, said]; rfl, ?_⟩
  have front : (["-", "--outf=2", "-c", "t=" ++ toString request.horizon] ++
      modeArguments request.mode).filter IsLimit = [] := by
    refine List.filter_eq_nil_iff.2 fun argument present limited => ?_
    have limited := of_decide_eq_true limited
    rcases List.mem_append.1 present with first | second
    · simp only [List.mem_cons, List.not_mem_nil, or_false] at first
      rcases first with rfl | rfl | rfl | rfl
      · exact absurd limited (by decide)
      · exact absurd limited (by decide)
      · exact absurd limited (by decide)
      · exact not_isLimit_append (by decide) _ limited
    · exact not_isLimit_of_mem_modeArguments second limited
  have back : (if 1 < settings.threads then ["--parallel-mode=" ++ toString settings.threads]
      else []).filter IsLimit = [] := by
    refine List.filter_eq_nil_iff.2 fun argument present limited => ?_
    split at present
    next =>
      obtain rfl := List.mem_singleton.1 present
      exact not_isLimit_append (by decide) _ (of_decide_eq_true limited)
    next => exact absurd present List.not_mem_nil
  rw [List.filter_append, List.filter_append, front, back, List.nil_append, List.append_nil]

theorem arguments_cover_limit (settings : Settings) (request : Request) (limit : Duration) :
    let spelled := { settings with timeLimit := some limit }.arguments request
    ∃ least, IsLeast {seconds | limit.Within seconds} least ∧ limit.Within (max least 1) ∧
      (limit.Within (UInt64.size - 1) → ∃ arguments, spelled = .ok arguments ∧
        arguments.filter IsLimit = ["--time-limit=" ++ toString (max least 1)]) ∧
      (¬ limit.Within (UInt64.size - 1) → spelled = .error .undefinedAnswer) := by
  intro spelled
  refine ⟨limit.wholeSeconds, limit.isLeast_wholeSeconds,
    Duration.wholeSeconds_le_iff.1 (le_max_left _ _), fun short => ?_, fun long => ?_⟩
  · have said : limitArguments (some limit) =
        .ok ["--time-limit=" ++ toString (max limit.wholeSeconds 1)] :=
      if_pos (Duration.wholeSeconds_lt_size_iff.2 short)
    obtain ⟨arguments, same, kept⟩ :=
      arguments_of_limit { settings with timeLimit := some limit } request said
    refine ⟨arguments, same, kept.trans ?_⟩
    exact List.filter_cons_of_pos (decide_eq_true (isLimit_append _))
  · have unsaid : limitArguments (some limit) = .error .undefinedAnswer :=
      if_neg (mt Duration.wholeSeconds_lt_size_iff.1 long)
    change (limitArguments (some limit) >>= _) = _
    rw [unsaid]
    rfl

theorem exists_arguments_of_withTimeLimit {settings limited : Settings} {seconds : Float}
    (limiting : settings.withTimeLimit seconds = .ok limited) (request : Request) :
    ∃ arguments, limited.arguments request = .ok arguments := by
  unfold withTimeLimit at limiting
  split at limiting
  next limit made =>
    cases limiting
    have short := Duration.wholeSeconds_lt_size_iff.2 (Duration.within_of_ofSeconds? made)
    obtain ⟨arguments, said, -⟩ :=
      arguments_of_limit { settings with timeLimit := some limit } request (if_pos short)
    exact ⟨arguments, said⟩
  next => cases limiting

def observation : Request := ⟨default, ∅, ∅, 0, none, [], .enumerate 2⟩

theorem arguments_cover_limit_rounded :
    let limit : Duration := ⟨1, 500000000, by decide⟩
    let endless : Duration := ⟨18446744073709551615, 999999999, by decide⟩
    (limit.Within (UInt64.size - 1) ∧ ∃ arguments,
        { standard with timeLimit := some limit }.arguments observation = .ok arguments ∧
          arguments.filter IsLimit = ["--time-limit=2"]) ∧
      ¬ endless.Within (UInt64.size - 1) ∧
        { standard with timeLimit := some endless }.arguments observation =
          .error .undefinedAnswer := by
  intro limit endless
  have short : limit.Within (UInt64.size - 1) := by decide
  have long : ¬ endless.Within (UInt64.size - 1) := by decide
  obtain ⟨least, isLeast, -, covered, -⟩ := arguments_cover_limit standard observation limit
  obtain ⟨-, -, -, -, unsaid⟩ := arguments_cover_limit standard observation endless
  obtain rfl : least = 2 := isLeast.unique limit.isLeast_wholeSeconds
  exact ⟨⟨short, covered short⟩, long, unsaid long⟩

theorem last_second_unsaid :
    let limit : Duration := ⟨18446744073709551615, 1, by decide⟩
    IsLeast {seconds | limit.Within seconds} 18446744073709551616 ∧
      { standard with timeLimit := some limit }.arguments observation =
        .error .undefinedAnswer := by
  intro limit
  exact ⟨limit.isLeast_wholeSeconds, rfl⟩

end Clingo.Settings

end DeclarativeMdp
