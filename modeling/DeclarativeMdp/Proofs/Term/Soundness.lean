import DeclarativeMdp.Proofs.Except
import DeclarativeMdp.Proofs.Term.Grammar
import Mathlib.Data.List.DropRight

set_option autoImplicit false

namespace DeclarativeMdp.Term

open Text

theorem skipBlanks_append {gap : List Char} (blanks : Blanks gap) (cs : List Char) :
    skipBlanks (gap ++ cs) = skipBlanks cs :=
  List.dropWhile_append_of_pos blanks

theorem skipBlanks_cons {c : Char} (visible : isBlank c = false) (cs : List Char) :
    skipBlanks (c :: cs) = c :: cs := by
  simp [skipBlanks, visible]

theorem skipBlanks_skipBlanks (cs : List Char) : skipBlanks (skipBlanks cs) = skipBlanks cs :=
  List.dropWhile_idempotent ..

theorem exists_blanks (cs : List Char) : ∃ gap, Blanks gap ∧ cs = gap ++ skipBlanks cs :=
  ⟨cs.takeWhile isBlank, List.all_eq_true.1 List.all_takeWhile,
    List.takeWhile_append_dropWhile.symm⟩

theorem skipBlanks_eq_nil_iff {cs : List Char} : skipBlanks cs = [] ↔ Blanks cs :=
  List.dropWhile_eq_nil_iff

theorem natOfDigits_eq (ds : List Char) : natOfDigits ds = Nat.ofDigitChars 10 ds 0 :=
  Nat.ofDigitChars_eq_foldl.symm

theorem integer?_eq_some_iff {negative : Bool} {ds : List Char} {value : Int64} :
    integer? negative ds = some value ↔
      ds ≠ [] ∧ value.toInt =
        if negative then -(Nat.ofDigitChars 10 ds 0 : Int) else Nat.ofDigitChars 10 ds 0 := by
  have lower := value.le_toInt
  have upper := value.toInt_lt
  unfold integer?
  rw [natOfDigits_eq, Int64.toInt_minValue, Int64.toInt_maxValue]
  generalize (if negative then -(Nat.ofDigitChars 10 ds 0 : Int) else Nat.ofDigitChars 10 ds 0) =
    number
  simp only [List.isEmpty_iff]
  constructor
  · intro read
    split_ifs at read with outside
    obtain rfl := Option.some.inj read
    rw [not_or, not_or] at outside
    exact ⟨outside.1, Int64.toInt_ofInt_of_le (by omega) (by omega)⟩
  · rintro ⟨filled, rfl⟩
    have inside : ¬ (value.toInt < -2 ^ 63 ∨ 2 ^ 63 - 1 < value.toInt) := by omega
    rw [if_neg (not_or.2 ⟨filled, inside⟩), Int64.ofInt_toInt]

theorem integer_of_readNumber {cs rest : List Char} {t : Term}
    (read : readNumber cs = .ok (t, rest)) :
    ∃ body value, cs = body ++ rest ∧ Integer body value ∧ t = .number value := by
  have decimal (ds : List Char) : ∀ d ∈ ds.takeWhile Char.isDigit, d.isDigit = true :=
    List.all_eq_true.1 List.all_takeWhile
  unfold readNumber at read
  dsimp only at read
  split at read
  next value number =>
    obtain ⟨rfl, rfl⟩ := Prod.mk.inj (Except.ok.inj read)
    obtain ⟨filled, same⟩ := integer?_eq_some_iff.1 number
    by_cases negative : cs.head? = some '-'
    · simp only [negative, decide_true, if_true] at filled same ⊢
      obtain ⟨ds, rfl⟩ := List.head?_eq_some_iff.1 negative
      refine ⟨'-' :: ds.takeWhile Char.isDigit, value, ?_, .negative filled (decimal ds) same, rfl⟩
      simp
    · simp only [negative, decide_false, Bool.false_eq_true, if_false] at filled same ⊢
      refine ⟨cs.takeWhile Char.isDigit, value, ?_, .unsigned filled (decimal cs) same, rfl⟩
      simp
  next => simp at read

theorem quoted_of_readString {cs content rest : List Char}
    (read : readString cs = .ok (content, rest)) :
    ∃ body, cs = body ++ '"' :: rest ∧ Quoted body content := by
  fun_induction readString cs generalizing content rest with
  | case1 => simp at read
  | case2 => simp at read
  | case3 c cs ih =>
    obtain ⟨⟨later, left⟩, inner, same⟩ := map_eq_ok_iff.1 read
    obtain ⟨rfl, rfl⟩ := Prod.mk.inj same
    obtain ⟨body, rfl, quoted⟩ := ih inner
    refine ⟨'\\' :: c :: body, rfl, ?_⟩
    split_ifs with newline
    · rw [newline]
      exact .newline quoted
    · exact .escaped newline quoted
  | case4 cs =>
    obtain ⟨rfl, rfl⟩ := Prod.mk.inj (Except.ok.inj read)
    exact ⟨[], rfl, .empty⟩
  | case5 c cs notEnd notEscape unquoted ih =>
    obtain ⟨⟨later, left⟩, inner, same⟩ := map_eq_ok_iff.1 read
    obtain ⟨rfl, rfl⟩ := Prod.mk.inj same
    obtain ⟨body, rfl, quoted⟩ := ih inner
    have unescaped : c ≠ '\\' := by
      rintro rfl
      cases body with
      | nil => exact notEscape _ _ rfl rfl
      | cons d body => exact notEscape _ _ rfl rfl
    exact ⟨c :: body, rfl, .plain unquoted unescaped quoted⟩

def DerivesFirst (cs : List Char) (t : Term) (rest : List Char) : Prop :=
  ∃ before body after, cs = before ++ (body ++ (after ++ rest)) ∧ Blanks before ∧
    Derives body t ∧ Blanks after

def DerivesArgsFirst (cs : List Char) (ts : List Term) (rest : List Char) : Prop :=
  ∃ inner, cs = inner ++ rest ∧ DerivesArgs ('(' :: inner) ts

theorem DerivesFirst.of_skipBlanks {cs rest : List Char} {t : Term}
    (derivesFirst : DerivesFirst (skipBlanks cs) t rest) : DerivesFirst cs t rest := by
  obtain ⟨gap, blanks, same⟩ := exists_blanks cs
  obtain ⟨before, body, after, shown, left, derived, right⟩ := derivesFirst
  refine ⟨gap ++ before, body, after, ?_, ?_, derived, right⟩
  · rw [List.append_assoc, ← shown, ← same]
  · exact blanks.append left

theorem DerivesFirst.of_derives {cs : List Char} {t : Term} (derived : Derives cs t)
    (rest : List Char) : DerivesFirst (cs ++ rest) t rest :=
  ⟨[], cs, [], rfl, blanks_nil, derived, blanks_nil⟩

theorem DerivesArgsFirst.function {cs gap inner rest : List Char} {args : List Term}
    (named : IsName cs) (blanks : Blanks gap) (derivesFirst : DerivesArgsFirst inner args rest) :
    DerivesFirst (cs ++ (gap ++ '(' :: inner)) (.function (String.ofList cs) args) rest := by
  obtain ⟨inner, rfl, derived⟩ := derivesFirst
  have whole := DerivesFirst.of_derives (.function named blanks derived) rest
  simpa only [List.append_assoc, List.cons_append] using whole

theorem derivesFirst_of_readTerm {fuel : Nat} {cs rest : List Char} {t : Term}
    (args : ∀ {cs rest ts}, readArgs fuel cs = .ok (ts, rest) → DerivesArgsFirst cs ts rest)
    (read : readTerm (fuel + 1) cs = .ok (t, rest)) : DerivesFirst cs t rest := by
  refine .of_skipBlanks ?_
  unfold readTerm at read
  split at read
  next => simp at read
  next c cs shown =>
    rw [shown]
    split_ifs at read with number quoted opened started upper
    · obtain ⟨body, value, same, integer, rfl⟩ := integer_of_readNumber read
      rw [same]
      exact .of_derives (.integer integer) _
    · obtain ⟨⟨content, left⟩, inner, same⟩ := map_eq_ok_iff.1 read
      obtain ⟨rfl, rfl⟩ := Prod.mk.inj same
      obtain ⟨body, rfl, content⟩ := quoted_of_readString inner
      have whole := DerivesFirst.of_derives (.string content) left
      simpa only [quoted, List.append_assoc, List.cons_append, List.nil_append] using whole
    · obtain ⟨⟨terms, left⟩, inner, same⟩ := map_eq_ok_iff.1 read
      obtain ⟨rfl, rfl⟩ := Prod.mk.inj same
      obtain ⟨body, rfl, derived⟩ := args inner
      rw [opened]
      exact .of_derives (.tuple derived) _
    · have named : IsName (c :: cs.takeWhile isNameChar) :=
        ⟨started, List.all_eq_true.1 List.all_takeWhile⟩
      have split : c :: cs = (c :: cs.takeWhile isNameChar) ++ cs.dropWhile isNameChar := by simp
      obtain ⟨gap, blanks, same⟩ := exists_blanks (cs.dropWhile isNameChar)
      rw [split, same]
      dsimp only at read
      split at read
      next inside opened =>
        obtain ⟨⟨terms, left⟩, inner, same⟩ := map_eq_ok_iff.1 read
        obtain ⟨rfl, rfl⟩ := Prod.mk.inj same
        rw [opened]
        exact (args inner).function named blanks
      next =>
        obtain ⟨rfl, rfl⟩ := Prod.mk.inj (Except.ok.inj read)
        exact ⟨[], _, gap, rfl, blanks_nil, .name named, blanks⟩

theorem derivesArgsFirst_of_readArgs {fuel : Nat} {cs rest : List Char} {ts : List Term}
    (terms : ∀ {cs rest t}, readTerm fuel cs = .ok (t, rest) → DerivesFirst cs t rest)
    (args : ∀ {cs rest ts}, readArgs fuel cs = .ok (ts, rest) → DerivesArgsFirst cs ts rest)
    (read : readArgs (fuel + 1) cs = .ok (ts, rest)) : DerivesArgsFirst cs ts rest := by
  obtain ⟨gap, blanks, same⟩ := exists_blanks cs
  unfold readArgs at read
  split at read
  next left closed =>
    obtain ⟨rfl, rfl⟩ := Prod.mk.inj (Except.ok.inj read)
    rw [closed] at same
    exact ⟨gap ++ [')'], by simpa using same, .none blanks⟩
  next =>
    obtain ⟨⟨t, left⟩, first, read⟩ := bind_eq_ok_iff.1 read
    obtain ⟨before, body, after, shown, leftBlanks, derived, rightBlanks⟩ :=
      (terms first).of_skipBlanks
    obtain ⟨more, moreBlanks, split⟩ := exists_blanks left
    have blanksAfter : Blanks (after ++ more) := rightBlanks.append moreBlanks
    dsimp only at read
    split at read
    next inside comma =>
      obtain ⟨⟨later, left⟩, rest, same⟩ := map_eq_ok_iff.1 read
      obtain ⟨rfl, rfl⟩ := Prod.mk.inj same
      obtain ⟨inner, rfl, later⟩ := args rest
      refine ⟨before ++ body ++ (after ++ more) ++ ',' :: inner, ?_,
        .some leftBlanks derived blanksAfter (derivesMore_iff.2 (.inr ⟨inner, rfl, later⟩))⟩
      rw [shown, split, comma]
      simp only [List.append_assoc, List.cons_append]
    next inside closed =>
      obtain ⟨rfl, rfl⟩ := Prod.mk.inj (Except.ok.inj read)
      refine ⟨before ++ body ++ (after ++ more) ++ [')'], ?_,
        .some leftBlanks derived blanksAfter .close⟩
      rw [shown, split, closed]
      simp only [List.append_assoc, List.cons_append, List.nil_append]
    next => simp at read

-- By induction on the fuel: each reader calls the others with less of it.
theorem derivesFirst_of_read (fuel : Nat) :
    (∀ {cs rest t}, readTerm fuel cs = .ok (t, rest) → DerivesFirst cs t rest) ∧
      ∀ {cs rest ts}, readArgs fuel cs = .ok (ts, rest) → DerivesArgsFirst cs ts rest := by
  induction fuel with
  | zero => simp [readTerm, readArgs]
  | succ fuel ih =>
    obtain ⟨terms, args⟩ := ih
    exact ⟨derivesFirst_of_readTerm args, derivesArgsFirst_of_readArgs terms args⟩

theorem derivesText_of_readAll {text : String} {t : Term} (read : readAll text.toList = .ok t) :
    DerivesText text t := by
  unfold readAll at read
  obtain ⟨⟨_, left⟩, first, finished⟩ := bind_eq_ok_iff.1 read
  dsimp only at finished
  split at finished
  next none =>
    obtain rfl := Except.ok.inj finished
    obtain ⟨before, body, after, same, leftBlanks, derived, rightBlanks⟩ :=
      (derivesFirst_of_read _).1 first
    refine ⟨before, body, after ++ left, by simpa using same, leftBlanks, derived, ?_⟩
    exact rightBlanks.append (skipBlanks_eq_nil_iff.1 none)
  next => simp at finished

mutual

theorem Derives.wellNamed : ∀ {t : Term} {cs : List Char}, Derives cs t → t.WellNamed
  | .number _, _, _ | .text _, _, _ => trivial
  | .symbol _, _, derived => by
    cases derived with
    | name named => rwa [WellNamed, String.toList_ofList]
  | .function _ args, _, derived => by
    cases derived with
    | function named _ derived =>
      exact ⟨.inr (by rwa [String.toList_ofList]), derived.wellNamed⟩
    | tuple derived => exact ⟨.inl rfl, derived.wellNamed⟩

theorem DerivesArgs.wellNamed : ∀ {ts : List Term} {cs : List Char}, DerivesArgs cs ts →
    AllWellNamed ts
  | [], _, _ => trivial
  | t :: ts, cs, derived => by
    obtain ⟨inner, rfl⟩ := derived.exists_inner
    obtain ⟨_, _, _, _, _, _, first, _, later⟩ := derivesArgs_cons_iff.1 derived
    refine ⟨first.wellNamed, ?_⟩
    rcases derivesMore_iff.1 later with ⟨-, rfl⟩ | ⟨_, -, args⟩
    · trivial
    · exact args.wellNamed

end

theorem wellNamed_of_parse {text : String} {t : Term} (read : parse text = .ok t) :
    t.WellNamed := by
  obtain ⟨_, _, _, _, _, derived, _⟩ := derivesText_of_readAll (mapError_eq_ok_iff.1 read)
  exact derived.wellNamed

end DeclarativeMdp.Term
