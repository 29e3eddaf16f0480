import DeclarativeMdp.Proofs.Term.Soundness

set_option autoImplicit false

namespace DeclarativeMdp

namespace Term

open Text

def Outside (p : Char → Bool) (rest : List Char) : Prop := ∀ c, rest.head? = some c → p c = false

theorem span_exact {p : Char → Bool} {body rest : List Char} (inside : ∀ c ∈ body, p c = true)
    (outside : Outside p rest) :
    (body ++ rest).takeWhile p = body ∧ (body ++ rest).dropWhile p = rest := by
  rw [List.takeWhile_append_of_pos inside, List.dropWhile_append_of_pos inside]
  cases rest with
  | nil => simp
  | cons c cs => simp [outside c rfl]

theorem outside_of_skipBlanks {p : Char → Bool} {rest : List Char}
    (blanks : ∀ c, isBlank c = true → p c = false) (outside : Outside p (skipBlanks rest)) :
    Outside p rest := by
  intro c head
  obtain ⟨cs, rfl⟩ := List.head?_eq_some_iff.1 head
  cases visible : isBlank c with
  | true => exact blanks c visible
  | false => exact outside c (by rw [skipBlanks_cons visible, List.head?_cons])

-- What can follow a term inside arguments, or at the end of a text. None of it extends a term.
def Ends (rest : List Char) : Prop := rest = [] ∨ ∃ cs, rest = ',' :: cs ∨ rest = ')' :: cs

theorem Ends.outside {p : Char → Bool} {rest : List Char} (ends : Ends rest)
    (comma : p ',' = false) (closing : p ')' = false) : Outside p rest := by
  rintro c head
  rcases ends with rfl | ⟨cs, rfl | rfl⟩
  · simp at head
  · rwa [← Option.some.inj head]
  · rwa [← Option.some.inj head]

theorem Integer.readNumber {body rest : List Char} {value : Int64} (integer : Integer body value)
    (outside : Outside Char.isDigit rest) :
    readNumber (body ++ rest) = .ok (.number value, rest) := by
  cases integer with
  | unsigned filled decimal same =>
    obtain ⟨taken, left⟩ := span_exact decimal outside
    have read : integer? false body = some value := integer?_eq_some_iff.2 ⟨filled, same⟩
    obtain ⟨d, ds, rfl⟩ := List.exists_cons_of_ne_nil filled
    have digit : d ≠ '-' := by
      rintro rfl
      simpa using decimal '-' (by simp)
    rw [List.cons_append] at taken left ⊢
    simp [Term.readNumber, digit, taken, left, read]
  | @negative ds _ filled decimal same =>
    obtain ⟨taken, left⟩ := span_exact decimal outside
    have read : integer? true ds = some value := integer?_eq_some_iff.2 ⟨filled, same⟩
    simp [Term.readNumber, taken, left, read]

theorem Quoted.readString {body content : List Char} (quoted : Quoted body content)
    (rest : List Char) : readString (body ++ '"' :: rest) = .ok (content, rest) := by
  induction quoted with
  | empty => simp [Term.readString]
  | plain unquoted unescaped _ ih =>
    rw [List.cons_append, Term.readString.eq_def]
    split <;> simp_all [Except.map]
  | newline _ ih => simp [Term.readString, ih, Except.map]
  | escaped other _ ih => simp [Term.readString, ih, Except.map, other]

theorem exists_of_isName {cs : List Char} (named : IsName cs) :
    ∃ c ds, cs = c :: ds ∧ isNameStart c = true := by
  cases cs with
  | nil => exact named.elim
  | cons c ds => exact ⟨c, ds, rfl, named.1⟩

def afterName (fuel : Nat) (name : String) : List Char → Except Stop (Term × List Char)
  | '(' :: inner => (readArgs fuel inner).map fun (args, rest) => (.function name args, rest)
  | rest => .ok (.symbol name, rest)

theorem readTerm_name {cs rest : List Char} (fuel : Nat) (named : IsName cs)
    (outside : Outside isNameChar rest) :
    readTerm (fuel + 1) (cs ++ rest) = afterName fuel (String.ofList cs) (skipBlanks rest) := by
  obtain ⟨c, ds, rfl, start⟩ := exists_of_isName named
  obtain ⟨visible, unsigned, unquoted, closed, _⟩ := nameStart_plain start
  obtain ⟨taken, left⟩ := span_exact named.2 outside
  rw [List.cons_append, readTerm, skipBlanks_cons visible]
  refine (if_neg unsigned).trans ((if_neg unquoted).trans ((if_neg closed).trans
    ((if_pos start).trans ?_)))
  rw [taken, left]
  rfl

theorem readTerm_skipBlanks (fuel : Nat) (cs : List Char) :
    readTerm (fuel + 1) (skipBlanks cs) = readTerm (fuel + 1) cs := by
  rw [readTerm, readTerm, skipBlanks_skipBlanks]

theorem readArgs_skipBlanks (fuel : Nat) (cs : List Char) :
    readArgs (fuel + 1) (skipBlanks cs) = readArgs (fuel + 1) cs := by
  rw [readArgs, readArgs, skipBlanks_skipBlanks]

theorem Integer.exists_cons {cs : List Char} {value : Int64} (integer : Integer cs value) :
    ∃ c ds, cs = c :: ds ∧ (c = '-' ∨ c.isDigit = true) := by
  cases integer with
  | unsigned filled decimal =>
    obtain ⟨d, ds, rfl⟩ := List.exists_cons_of_ne_nil filled
    exact ⟨d, ds, rfl, .inr (decimal d (by simp))⟩
  | negative => exact ⟨_, _, rfl, .inl rfl⟩

theorem Derives.exists_cons {cs : List Char} {t : Term} (derived : Derives cs t) :
    ∃ c ds, cs = c :: ds ∧ isBlank c = false ∧ c ≠ ')' := by
  cases derived with
  | integer number =>
    obtain ⟨c, ds, rfl, numeric⟩ := number.exists_cons
    exact ⟨c, ds, rfl, digit_plain numeric⟩
  | string => exact ⟨_, _, rfl, by decide, by decide⟩
  | name named | function named =>
    obtain ⟨c, ds, rfl, start⟩ := exists_of_isName named
    obtain ⟨visible, _, _, _, unclosed⟩ := nameStart_plain start
    exact ⟨c, _, rfl, visible, unclosed⟩
  | tuple inner =>
    obtain ⟨inner, rfl⟩ := inner.exists_inner
    exact ⟨_, _, rfl, by decide, by decide⟩

theorem Derives.skipBlanks_append {cs : List Char} {t : Term} (derived : Derives cs t)
    (rest : List Char) : skipBlanks (cs ++ rest) = cs ++ rest := by
  obtain ⟨c, ds, rfl, visible, -⟩ := derived.exists_cons
  rw [List.cons_append, skipBlanks_cons visible]

theorem DerivesMore.exists_cons {more : List Char} {ts : List Term}
    (derived : DerivesMore more ts) :
    ∃ c ds, more = c :: ds ∧ (c = ',' ∨ c = ')') := by
  rcases derivesMore_iff.1 derived with ⟨rfl, -⟩ | ⟨inner, rfl, -⟩
  · exact ⟨_, _, rfl, .inr rfl⟩
  · exact ⟨_, _, rfl, .inl rfl⟩

theorem readArgs_term {t : Term} {fuel : Nat} {cs rest left : List Char} (derived : Derives cs t)
    (read : readTerm fuel (cs ++ rest) = .ok (t, left)) :
    readArgs (fuel + 1) (cs ++ rest) =
      match skipBlanks left with
      | ',' :: rest => (readArgs fuel rest).map fun (terms, rest) => (t :: terms, rest)
      | ')' :: rest => .ok ([t], rest)
      | rest => .error ⟨.missingSeparator, rest.drop 1⟩ := by
  obtain ⟨c, ds, rfl, visible, unclosed⟩ := derived.exists_cons
  rw [readArgs, derived.skipBlanks_append]
  split
  next heq => simp_all
  next =>
    rw [read]
    rfl

mutual

def cost : Term → Nat
  | .number _ | .symbol _ | .text _ => 1
  | .function _ args => costAll args + 1

def costAll : List Term → Nat
  | [] => 1
  | t :: ts => cost t + costAll ts + 1

end

mutual

theorem Derives.readTerm : ∀ {t : Term} {cs rest : List Char} {fuel : Nat}, Derives cs t →
    t.cost ≤ fuel → Ends (skipBlanks rest) →
    ∃ left, readTerm fuel (cs ++ rest) = .ok (t, left) ∧ skipBlanks left = skipBlanks rest
  | .number value, cs, rest, fuel + 1, derived, _, ends => by
    have kept := derived.skipBlanks_append rest
    cases derived with
    | integer number =>
      obtain ⟨c, ds, rfl, numeric⟩ := number.exists_cons
      have outside : Outside Char.isDigit rest :=
        outside_of_skipBlanks (fun _ => not_digit_of_blank) (ends.outside (by decide) (by decide))
      refine ⟨rest, ?_, rfl⟩
      rw [Term.readTerm, kept]
      exact (if_pos numeric).trans (number.readNumber outside)
  | .text value, cs, rest, fuel + 1, derived, _, _ => by
    cases derived with
    | string quoted =>
      refine ⟨rest, ?_, rfl⟩
      simp [Term.readTerm, skipBlanks_cons, isBlank, quoted.readString, Except.map]
  | .symbol name, cs, rest, fuel + 1, derived, _, ends => by
    cases derived with
    | name named =>
      have outside : Outside isNameChar rest :=
        outside_of_skipBlanks (fun _ => not_nameChar_of_blank)
          (ends.outside (by decide) (by decide))
      refine ⟨skipBlanks rest, ?_, skipBlanks_skipBlanks rest⟩
      rw [readTerm_name fuel named outside]
      rcases ends with same | ⟨_, same | same⟩ <;> rw [same] <;> rfl
  | .function name args, cs, rest, fuel + 1, derived, enough, _ => by
    have deep : costAll args ≤ fuel := by
      simp only [cost] at enough
      omega
    cases derived with
    | @function cs gap inner _ named blanks derived =>
      obtain ⟨inner, rfl⟩ := derived.exists_inner
      have opened : skipBlanks (gap ++ '(' :: (inner ++ rest)) = '(' :: (inner ++ rest) := by
        rw [skipBlanks_append blanks, skipBlanks_cons (by decide)]
      have outside : Outside isNameChar (gap ++ '(' :: (inner ++ rest)) := by
        refine outside_of_skipBlanks (fun _ => not_nameChar_of_blank) ?_
        rw [opened]
        rintro c ⟨⟩
        decide
      refine ⟨rest, ?_, rfl⟩
      rw [List.append_assoc, List.append_assoc, List.cons_append, readTerm_name fuel named outside,
        opened, afterName, derived.readArgs deep]
      rfl
    | tuple derived =>
      obtain ⟨inner, rfl⟩ := derived.exists_inner
      refine ⟨rest, ?_, rfl⟩
      simp [Term.readTerm, skipBlanks_cons, isBlank, derived.readArgs deep, Except.map]

theorem DerivesArgs.readArgs : ∀ {ts : List Term} {inner rest : List Char} {fuel : Nat},
    DerivesArgs ('(' :: inner) ts → costAll ts ≤ fuel →
    readArgs fuel (inner ++ rest) = .ok (ts, rest)
  | [], inner, rest, fuel + 1, derived, _ => by
    obtain ⟨gap, rfl, blanks⟩ := derivesArgs_nil_iff.1 derived
    rw [Term.readArgs, List.append_assoc, Term.skipBlanks_append blanks]
    rfl
  | t :: ts, inner, rest, fuel + 1, derived, enough => by
    obtain ⟨before, cs, after, more, rfl, left, first, right, later⟩ :=
      derivesArgs_cons_iff.1 derived
    have deep : t.cost ≤ fuel ∧ costAll ts ≤ fuel := by
      simp only [costAll] at enough
      omega
    have behind : skipBlanks (after ++ (more ++ rest)) = more ++ rest := by
      rw [skipBlanks_append right]
      obtain ⟨c, ds, rfl, rfl | rfl⟩ := later.exists_cons <;> rfl
    have ends : Ends (skipBlanks (after ++ (more ++ rest))) := by
      rw [behind]
      obtain ⟨c, ds, rfl, rfl | rfl⟩ := later.exists_cons
      · exact .inr ⟨_, .inl rfl⟩
      · exact .inr ⟨_, .inr rfl⟩
    obtain ⟨stop, read, same⟩ := first.readTerm deep.1 ends
    rw [List.append_assoc, List.append_assoc, List.append_assoc, ← readArgs_skipBlanks,
      skipBlanks_append left, readArgs_skipBlanks, readArgs_term first read, same, behind]
    rcases derivesMore_iff.1 later with ⟨rfl, rfl⟩ | ⟨further, rfl, args⟩
    · rfl
    · simp [args.readArgs deep.2, Except.map]

end

mutual

theorem Derives.cost_le : ∀ {t : Term} {cs : List Char}, Derives cs t → t.cost ≤ 2 * cs.length
  | .number _, cs, derived | .symbol _, cs, derived | .text _, cs, derived => by
    obtain ⟨c, ds, rfl, -⟩ := derived.exists_cons
    simp only [cost, List.length_cons]
    omega
  | .function name args, cs, derived => by
    cases derived with
    | function _ _ derived =>
      have inner := derived.costAll_lt
      simp only [cost, List.length_append]
      omega
    | tuple derived =>
      have inner := derived.costAll_lt
      simp only [cost]
      omega

theorem DerivesArgs.costAll_lt : ∀ {ts : List Term} {cs : List Char}, DerivesArgs cs ts →
    costAll ts < 2 * cs.length
  | [], cs, derived => by
    obtain ⟨inner, rfl⟩ := derived.exists_inner
    simp only [costAll, List.length_cons]
    omega
  | t :: ts, cs, derived => by
    obtain ⟨inner, rfl⟩ := derived.exists_inner
    obtain ⟨before, cs, after, more, rfl, -, first, -, later⟩ := derivesArgs_cons_iff.1 derived
    have head := first.cost_le
    have tail : costAll ts < 2 * more.length := by
      rcases derivesMore_iff.1 later with ⟨rfl, rfl⟩ | ⟨further, rfl, args⟩
      · decide
      · simpa using args.costAll_lt
    simp only [costAll, List.length_cons, List.length_append]
    omega

end

theorem readAll_of_derivesText {text : String} {t : Term} (derived : DerivesText text t) :
    readAll text.toList = .ok t := by
  obtain ⟨before, body, after, same, left, derived, right⟩ := derived
  have nothing := skipBlanks_eq_nil_iff.2 right
  have deep : t.cost ≤ 2 * text.toList.length + 2 := by
    have bound := derived.cost_le
    simp only [same, List.length_append]
    omega
  obtain ⟨rest, read, stop⟩ := derived.readTerm deep (.inl nothing)
  rw [nothing] at stop
  refine bind_eq_ok_iff.2 ⟨(t, rest), ?_, ?_⟩
  · rw [← read, ← readTerm_skipBlanks, same, List.append_assoc, skipBlanks_append left,
      readTerm_skipBlanks]
  · dsimp only
    rw [stop]

theorem parse_eq_ok_iff {text : String} {t : Term} : parse text = .ok t ↔ DerivesText text t :=
  mapError_eq_ok_iff.trans ⟨derivesText_of_readAll, readAll_of_derivesText⟩

theorem DerivesText.unique {text : String} {s t : Term} (first : DerivesText text s)
    (second : DerivesText text t) : s = t := by
  have read := parse_eq_ok_iff.2 first
  rw [parse_eq_ok_iff.2 second] at read
  exact (Except.ok.inj read).symm

end Term

open Term

theorem readAtom_ok_iff_derivesText (text : String) :
    (∀ t, readAtom text = .ok t ↔ DerivesText text t) ∧
      (∀ s t, DerivesText text s → DerivesText text t → s = t) ∧
      ((¬ ∃ t, DerivesText text t) →
        ∃ misreading, readAtom text = .error (.malformedAtom text (.unreadable misreading))) := by
  refine ⟨fun t => mapError_eq_ok_iff.trans parse_eq_ok_iff, fun s t => DerivesText.unique, ?_⟩
  intro none
  cases read : parse text with
  | ok t => exact absurd ⟨t, parse_eq_ok_iff.1 read⟩ none
  | error misreading => exact ⟨misreading, by rw [readAtom, read]; rfl⟩

end DeclarativeMdp
