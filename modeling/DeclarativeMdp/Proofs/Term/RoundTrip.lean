import DeclarativeMdp.Proofs.Term.Completeness

set_option autoImplicit false

namespace DeclarativeMdp

namespace Term

open Text

-- How arguments may be closed: the comma that marks a tuple of one is read behind any of them.
def Closes (terms : List Term) (cs : List Char) : Prop :=
  cs = [')'] ∨ cs = [',', ')'] ∧ terms ≠ []

theorem closes_closing (name : String) (args : List Term) : Closes args (closing name args) := by
  unfold closing
  split_ifs with single
  · exact .inr ⟨rfl, by rintro rfl; simp at single⟩
  · exact .inl rfl

theorem quoted_escape (content : List Char) : Quoted (escape content) content := by
  induction content with
  | nil => exact .empty
  | cons c cs ih =>
    unfold escape
    split_ifs with quote backslash newline
    · rw [quote]
      exact .escaped (by decide) ih
    · rw [backslash]
      exact .escaped (by decide) ih
    · rw [newline]
      exact .newline ih
    · exact .plain quote backslash ih

theorem integer_digits (value : Int64) : Integer (digits value) value := by
  have decimal : ∀ d ∈ Nat.toDigits 10 value.toInt.natAbs, d.isDigit = true := fun d present =>
    Nat.isDigit_of_mem_toDigits (by decide) (by decide) present
  unfold digits
  split_ifs with negative
  · refine .negative Nat.toDigits_ne_nil decimal ?_
    rw [Nat.ofDigitChars_ten_toDigits]
    omega
  · refine .unsigned Nat.toDigits_ne_nil decimal ?_
    rw [Nat.ofDigitChars_ten_toDigits]
    omega

mutual

theorem derives_chars : ∀ {t : Term}, t.WellNamed → Derives (chars t) t
  | .number value, _ => .integer (integer_digits value)
  | .symbol name, named => by
    have derived := Derives.name named
    rwa [String.ofList_toList] at derived
  | .text value, _ => by
    have derived := Derives.string (quoted_escape value.toList)
    rwa [String.ofList_toList] at derived
  | .function name args, named => by
    have inner := derivesArgs_charsAll named.2 (closes_closing name args)
    rcases named.1 with rfl | isName
    · exact .tuple inner
    · have derived := Derives.function isName blanks_nil inner
      rw [String.ofList_toList] at derived
      simpa [chars] using derived

theorem derivesArgs_charsAll : ∀ {ts : List Term} {stop : List Char}, AllWellNamed ts →
    Closes ts stop → DerivesArgs ('(' :: charsAll ts ++ stop) ts
  | [], stop, _, closes => by
    obtain rfl : stop = [')'] := closes.resolve_right fun tuple => tuple.2 rfl
    exact .none blanks_nil
  | [t], stop, named, closes => by
    have later : DerivesMore stop [] := by
      rcases closes with rfl | ⟨rfl, -⟩
      · exact .close
      · exact .comma blanks_nil
    have derived := DerivesArgs.some blanks_nil (derives_chars named.1) blanks_nil later
    simpa [charsAll] using derived
  | t :: u :: ts, stop, named, closes => by
    have args : DerivesArgs ('(' :: (charsAll (u :: ts) ++ stop)) (u :: ts) :=
      derivesArgs_charsAll named.2 (by simpa [Closes] using closes)
    have later := derivesMore_iff.2 (.inr ⟨_, rfl, args⟩)
    have derived := DerivesArgs.some blanks_nil (derives_chars named.1) blanks_nil later
    have shown : charsAll (t :: u :: ts) = chars t ++ ',' :: charsAll (u :: ts) := rfl
    simpa [shown] using derived

end

theorem parse_render {t : Term} (named : t.WellNamed) : parse t.render = .ok t := by
  refine parse_eq_ok_iff.2 ⟨[], chars t, [], ?_, blanks_nil, derives_chars named, blanks_nil⟩
  simp [render, String.toList_ofList]

theorem render_injective {s t : Term} (sNamed : s.WellNamed) (tNamed : t.WellNamed)
    (same : s.render = t.render) : s = t := by
  have read := parse_render sNamed
  rw [same, parse_render tNamed] at read
  exact (Except.ok.inj read).symm

end Term

theorem readAtom_render {t : Term} (named : t.WellNamed) : readAtom t.render = .ok t :=
  mapError_eq_ok_iff.2 (Term.parse_render named)

theorem wellNamed_of_readAtom {text : String} {t : Term} (read : readAtom text = .ok t) :
    t.WellNamed :=
  Term.wellNamed_of_parse (mapError_eq_ok_iff.1 read)

theorem readAtom_render_iff (t : Term) :
    (readAtom t.render = .ok t ↔ t.WellNamed) ∧
      ∀ text, readAtom text = .ok t → readAtom t.render = .ok t := by
  have inverse : readAtom t.render = .ok t ↔ t.WellNamed := by
    rw [readAtom, mapError_eq_ok_iff]
    exact ⟨Term.wellNamed_of_parse, Term.parse_render⟩
  refine ⟨inverse, fun text read => inverse.2 ?_⟩
  exact Term.wellNamed_of_parse (mapError_eq_ok_iff.1 read)

end DeclarativeMdp
