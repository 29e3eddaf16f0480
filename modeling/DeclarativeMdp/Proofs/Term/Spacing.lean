import DeclarativeMdp.Proofs.Term.Blanks
import DeclarativeMdp.Proofs.Text.Spacing

set_option autoImplicit false

namespace DeclarativeMdp

namespace Term

open Text

theorem Blanks.squeezed {gap : List Char} (blanks : Blanks gap) : Squeezed gap [] := by
  induction gap with
  | nil => exact .nil
  | cons c cs ih =>
    obtain ⟨blank, later⟩ := List.forall_mem_cons.1 blanks
    intro rest
    simpa [squeeze, blank] using ih later rest

theorem squeezed_mark {c : Char} (punctuation : c = '(' ∨ c = ',' ∨ c = ')') :
    Squeezed [c] [c] :=
  (IsToken.mark punctuation).squeezed

mutual

-- Without its blanks a text stands for the same term. By the rules for texts, one case each.
theorem Derives.exists_squeezed : ∀ {t : Term} {cs : List Char}, Derives cs t →
    ∃ ds, Squeezed cs ds ∧ Derives ds t
  | .number _, _, derived => by
    cases derived with
    | integer number => exact ⟨_, (IsToken.number number).squeezed, .integer number⟩
  | .text _, _, derived => by
    cases derived with
    | string quoted => exact ⟨_, (IsToken.string quoted).squeezed, .string quoted⟩
  | .symbol _, _, derived => by
    cases derived with
    | name named => exact ⟨_, (IsToken.name named).squeezed, .name named⟩
  | .function _ args, _, derived => by
    cases derived with
    | function named blanks derived =>
      obtain ⟨inner, rfl⟩ := derived.exists_inner
      obtain ⟨left, squeezed, args⟩ := derived.exists_squeezed
      have whole := ((IsToken.name named).squeezed.append blanks.squeezed).append
        ((squeezed_mark (.inl rfl)).append squeezed)
      exact ⟨_, whole, .function named blanks_nil args⟩
    | tuple derived =>
      obtain ⟨inner, rfl⟩ := derived.exists_inner
      obtain ⟨left, squeezed, args⟩ := derived.exists_squeezed
      exact ⟨_, (squeezed_mark (.inl rfl)).append squeezed, .tuple args⟩

theorem DerivesArgs.exists_squeezed : ∀ {ts : List Term} {inner : List Char},
    DerivesArgs ('(' :: inner) ts → ∃ ds, Squeezed inner ds ∧ DerivesArgs ('(' :: ds) ts
  | [], _, derived => by
    obtain ⟨gap, rfl, blanks⟩ := derivesArgs_nil_iff.1 derived
    exact ⟨_, blanks.squeezed.append (squeezed_mark (.inr (.inr rfl))), .none blanks_nil⟩
  | t :: ts, _, derived => by
    obtain ⟨before, cs, after, more, rfl, left, first, right, later⟩ :=
      derivesArgs_cons_iff.1 derived
    obtain ⟨ds, squeezed, first⟩ := first.exists_squeezed
    have enough {less : List Char} (rest : Squeezed more less) (later : DerivesMore less ts) :
        ∃ ds, Squeezed (before ++ (cs ++ (after ++ more))) ds ∧
          DerivesArgs ('(' :: ds) (t :: ts) := by
      refine ⟨_, left.squeezed.append (squeezed.append (right.squeezed.append rest)), ?_⟩
      exact derivesArgs_cons_iff.2 ⟨[], ds, [], less, rfl, blanks_nil, first, blanks_nil, later⟩
    rcases derivesMore_iff.1 later with ⟨rfl, rfl⟩ | ⟨inner, rfl, args⟩
    · exact enough (squeezed_mark (.inr (.inr rfl))) .close
    · obtain ⟨es, rest, args⟩ := args.exists_squeezed
      exact enough ((squeezed_mark (.inr (.inl rfl))).append rest)
        (derivesMore_iff.2 (.inr ⟨es, rfl, args⟩))

end

theorem parse_normalize {text : String} {t : Term} (read : parse text = .ok t) :
    parse (Text.normalize text) = .ok t := by
  obtain ⟨before, cs, after, same, left, derived, right⟩ := parse_eq_ok_iff.1 read
  obtain ⟨ds, squeezed, derived⟩ := derived.exists_squeezed
  have whole : Squeezed text.toList ([] ++ ds ++ []) := by
    rw [same]
    exact (left.squeezed.append squeezed).append right.squeezed
  rw [whole.normalize]
  refine parse_eq_ok_iff.2 ⟨[], ds, [], ?_, blanks_nil, derived, blanks_nil⟩
  rw [String.toList_ofList]

def Spaced : List (List Char) → List Char → Prop
  | [], cs => Blanks cs
  | token :: tokens, cs =>
    ∃ gap rest, cs = gap ++ (token ++ rest) ∧ Blanks gap ∧ Spaced tokens rest

theorem Spaced.squeezed {tokens : List (List Char)} {cs : List Char} (spaced : Spaced tokens cs)
    (each : ∀ token ∈ tokens, IsToken token) : Squeezed cs tokens.flatten := by
  induction tokens generalizing cs with
  | nil =>
    have blanks : Blanks cs := spaced
    exact blanks.squeezed
  | cons token tokens ih =>
    obtain ⟨gap, rest, rfl, blanks, later⟩ := spaced
    obtain ⟨first, others⟩ := List.forall_mem_cons.1 each
    exact blanks.squeezed.append (first.squeezed.append (ih later others))

def Opens (t : Term) (more : List (List Char)) (cs : List Char) : Prop :=
  ∃ gap body rest, cs = gap ++ (body ++ rest) ∧ Blanks gap ∧ Derives body t ∧ Spaced more rest

def OpensArgs (ts : List Term) (more : List (List Char)) (cs : List Char) : Prop :=
  ∃ inner rest, cs = inner ++ rest ∧ DerivesArgs ('(' :: inner) ts ∧ Spaced more rest

theorem Opens.cons {t : Term} {ts : List Term} {stop more : List (List Char)} {cs : List Char}
    (first : Opens t stop cs)
    (later : ∀ {rest}, Spaced stop rest → ∃ gap others last, rest = gap ++ (others ++ last) ∧
      Blanks gap ∧ DerivesMore others ts ∧ Spaced more last) : OpensArgs (t :: ts) more cs := by
  obtain ⟨before, body, rest, rfl, left, derived, stopped⟩ := first
  obtain ⟨after, others, last, rfl, right, args, spaced⟩ := later stopped
  refine ⟨before ++ (body ++ (after ++ others)), last, by simp, ?_, spaced⟩
  exact derivesArgs_cons_iff.2 ⟨before, body, after, others, rfl, left, derived, right, args⟩

mutual

theorem opens_of_spaced : ∀ {t : Term} {more : List (List Char)} {cs : List Char}, t.WellNamed →
    Spaced (tokens t ++ more) cs → Opens t more cs
  | .number value, _, _, _, ⟨gap, rest, same, blanks, later⟩ =>
    ⟨gap, _, rest, same, blanks, .integer (integer_digits value), later⟩
  | .symbol _, _, _, named, ⟨gap, rest, same, blanks, later⟩ =>
    ⟨gap, _, rest, same, blanks, derives_chars named, later⟩
  | .text _, _, _, named, ⟨gap, rest, same, blanks, later⟩ =>
    ⟨gap, _, rest, same, blanks, derives_chars named, later⟩
  | .function name args, more, cs, named, spaced => by
    have inner {rest : List Char}
        (spaced : Spaced ((tokensAll args ++ (closing name args).map fun c => [c]) ++ more) rest) :
        OpensArgs args more rest := by
      rw [List.append_assoc] at spaced
      exact opensArgs_of_spaced named.2 (closes_closing name args) spaced
    unfold tokens at spaced
    split_ifs at spaced with unnamed
    · obtain ⟨gap, rest, rfl, blanks, spaced⟩ := spaced
      obtain ⟨body, rest, rfl, derived, later⟩ := inner spaced
      rw [unnamed]
      exact ⟨gap, '(' :: body, rest, rfl, blanks, .tuple derived, later⟩
    · obtain ⟨gap, rest, rfl, blanks, between, _, rfl, moreBlanks, spaced⟩ := spaced
      obtain ⟨body, rest, rfl, derived, later⟩ := inner spaced
      have whole := Derives.function (named.1.resolve_left unnamed) moreBlanks derived
      rw [String.ofList_toList] at whole
      exact ⟨gap, _, rest, by simp, blanks, whole, later⟩

theorem opensArgs_of_spaced : ∀ {ts : List Term} {stop : List Char} {more : List (List Char)}
    {cs : List Char}, AllWellNamed ts → Closes ts stop →
    Spaced (tokensAll ts ++ (stop.map (fun c => [c]) ++ more)) cs → OpensArgs ts more cs
  | [], stop, more, cs, _, closes, spaced => by
    obtain rfl : stop = [')'] := closes.resolve_right fun tuple => tuple.2 rfl
    obtain ⟨gap, rest, rfl, blanks, later⟩ := spaced
    exact ⟨gap ++ [')'], rest, by simp, .none blanks, later⟩
  | [t], stop, more, cs, named, closes, spaced => by
    refine (opens_of_spaced named.1 spaced).cons fun stopped => ?_
    rcases closes with rfl | ⟨rfl, -⟩
    · obtain ⟨gap, last, rfl, blanks, later⟩ := stopped
      exact ⟨gap, _, last, rfl, blanks, .close, later⟩
    · obtain ⟨gap, _, rfl, blanks, between, last, rfl, moreBlanks, later⟩ := stopped
      exact ⟨gap, _, last, by simp, blanks, .comma moreBlanks, later⟩
  | t :: u :: ts, stop, more, cs, named, closes, spaced => by
    have split : tokensAll (t :: u :: ts) = tokens t ++ [','] :: tokensAll (u :: ts) := rfl
    rw [split, List.append_assoc] at spaced
    refine (opens_of_spaced named.1 spaced).cons fun stopped => ?_
    obtain ⟨gap, _, rfl, blanks, stopped⟩ := stopped
    have left : Closes (u :: ts) stop := by simpa [Closes] using closes
    obtain ⟨inner, last, rfl, args, later⟩ := opensArgs_of_spaced named.2 left stopped
    exact ⟨gap, ',' :: inner, last, rfl, blanks, derivesMore_iff.2 (.inr ⟨inner, rfl, args⟩), later⟩

end

theorem normalize_agrees_with_parse (text : String) :
    Text.normalize (Text.normalize text) = Text.normalize text ∧
      (∀ t, parse text = .ok t → parse (Text.normalize text) = .ok t) ∧
      ∀ t, (∃ source, parse source = .ok t) →
        t.tokens.flatten = t.render.toList ∧ (∀ token ∈ t.tokens, IsToken token) ∧
          ∀ padded : String, Spaced t.tokens padded.toList →
            Text.normalize padded = t.render ∧ parse padded = .ok t := by
  refine ⟨normalize_normalize text, fun t => parse_normalize, fun t read => ?_⟩
  obtain ⟨source, read⟩ := read
  have named := wellNamed_of_parse read
  have each := isToken_of_mem_tokens named
  refine ⟨by rw [flatten_tokens, render, String.toList_ofList], each, fun padded spaced => ?_⟩
  have squeezed := spaced.squeezed each
  rw [flatten_tokens] at squeezed
  refine ⟨squeezed.normalize, parse_eq_ok_iff.2 ?_⟩
  have alone : Spaced (t.tokens ++ []) padded.toList := by rwa [List.append_nil]
  obtain ⟨gap, body, rest, same, left, derived, right⟩ := opens_of_spaced named alone
  exact ⟨gap, body, rest, by rw [same, List.append_assoc], left, derived, right⟩

def quoting : Term :=
  .function "f" [.number (-1), .text "a \" b", .function "" [.symbol "x"]]

theorem normalize_agrees_with_parse_quoting :
    ∃ padded : String, padded = "f\u00a0( -1, \"a \\\" b\" ,(x\t, )\n)" ∧
      Spaced quoting.tokens padded.toList ∧ Text.normalize padded = quoting.render ∧
      parse padded = .ok quoting ∧ parse (Text.normalize padded) = .ok quoting := by
  have named : quoting.WellNamed := by
    simp only [quoting, WellNamed, AllWellNamed]
    decide
  have printed : ∃ source, parse source = .ok quoting := ⟨_, parse_render named⟩
  have spaced : Spaced quoting.tokens "f\u00a0( -1, \"a \\\" b\" ,(x\t, )\n)".toList := by
    have blank (c : Char) (isBlank : isBlank c = true) : Blanks [c] := by simpa [Blanks]
    have nothing := blanks_nil
    exact ⟨[], _, rfl, nothing, ['\u00a0'], _, rfl, blank _ rfl, [' '], _, rfl, blank _ rfl,
      [], _, rfl, nothing, [' '], _, rfl, blank _ rfl, [' '], _, rfl, blank _ rfl,
      [], _, rfl, nothing, [], _, rfl, nothing, ['\t'], _, rfl, blank _ rfl,
      [' '], _, rfl, blank _ rfl, ['\n'], _, rfl, blank _ rfl, nothing⟩
  obtain ⟨-, again, padding⟩ :=
    normalize_agrees_with_parse "f\u00a0( -1, \"a \\\" b\" ,(x\t, )\n)"
  obtain ⟨-, -, each⟩ := padding quoting printed
  obtain ⟨stripped, read⟩ := each _ spaced
  exact ⟨_, rfl, spaced, stripped, read, again quoting read⟩

end Term

end DeclarativeMdp
