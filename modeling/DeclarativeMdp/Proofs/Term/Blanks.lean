import DeclarativeMdp.State
import DeclarativeMdp.Proofs.Term.Tokens

set_option autoImplicit false

namespace DeclarativeMdp

namespace Term

open Text

def Kept (c : Char) : Prop := isBlank c = false ∧ c ≠ '"'

theorem kept_of_range {c : Char} (range : 35 ≤ c.toNat ∧ c.toNat ≤ 122) : Kept c := by
  refine ⟨visible_of_range (by omega), ?_⟩
  rintro rfl
  simp at range

theorem kept_of_isName {cs : List Char} (named : IsName cs) : ∀ c ∈ cs, Kept c := by
  obtain ⟨d, ds, rfl, start⟩ := exists_of_isName named
  intro c present
  apply kept_of_range
  rcases List.mem_cons.1 present with rfl | present
  · have range := nameStart_range start
    omega
  · have range := nameChar_range (named.2 c present)
    omega

theorem kept_of_integer {cs : List Char} {value : Int64} (integer : Integer cs value) :
    ∀ c ∈ cs, Kept c := by
  have numeric {c : Char} (digit : c.isDigit = true) : Kept c := by
    have range := digit_range digit
    exact kept_of_range (by omega)
  cases integer with
  | unsigned _ decimal => exact fun c present => numeric (decimal c present)
  | negative _ decimal =>
    exact List.forall_mem_cons.2 ⟨kept_of_range (by decide), fun c present =>
      numeric (decimal c present)⟩

theorem squeeze_quoted {cs content : List Char} (quoted : Quoted cs content) (rest : List Char) :
    squeeze .inside (cs ++ '"' :: rest) = cs ++ '"' :: squeeze .outside rest := by
  induction quoted with
  | empty => simp [squeeze, Place.next]
  | plain unquoted unescaped _ ih => simp [squeeze, Place.next, unquoted, unescaped, ih]
  | newline _ ih => simp [squeeze, Place.next, ih]
  | escaped _ _ ih => simp [squeeze, Place.next, ih]

-- A piece of text in which every string that starts there ends, and what is left of it without the
-- blanks outside strings, whatever follows.
def Squeezed (cs ds : List Char) : Prop :=
  ∀ rest, squeeze .outside (cs ++ rest) = ds ++ squeeze .outside rest

theorem Squeezed.nil : Squeezed [] [] := fun _ => rfl

theorem Squeezed.append {cs ds more less : List Char} (left : Squeezed cs ds)
    (right : Squeezed more less) : Squeezed (cs ++ more) (ds ++ less) := fun rest => by
  rw [List.append_assoc, left, right, List.append_assoc]

theorem Squeezed.normalize {text : String} {cs : List Char} (squeezed : Squeezed text.toList cs) :
    Text.normalize text = String.ofList cs := by
  have whole := squeezed []
  simp only [List.append_nil, squeeze] at whole
  rw [Text.normalize, whole]

theorem squeezed_kept {cs : List Char} (kept : ∀ c ∈ cs, Kept c) : Squeezed cs cs := by
  induction cs with
  | nil => exact .nil
  | cons c cs ih =>
    obtain ⟨visible, unquoted⟩ := kept c (by simp)
    have later := ih fun d present => kept d (by simp [present])
    intro rest
    simp [squeeze, Place.next, visible, unquoted, later rest]

theorem IsToken.squeezed {token : List Char} (isToken : IsToken token) : Squeezed token token := by
  cases isToken with
  | name named => exact squeezed_kept (kept_of_isName named)
  | number integer => exact squeezed_kept (kept_of_integer integer)
  | @string cs _ quoted =>
    intro rest
    have inside := squeeze_quoted quoted rest
    simp [squeeze, Place.next, isBlank, inside]
  | mark punctuation =>
    refine squeezed_kept fun c present => ?_
    obtain rfl := List.mem_singleton.1 present
    rcases punctuation with rfl | rfl | rfl <;> exact kept_of_range (by decide)

theorem squeezed_flatten {tokens : List (List Char)} (each : ∀ token ∈ tokens, IsToken token) :
    Squeezed tokens.flatten tokens.flatten := by
  induction tokens with
  | nil => exact .nil
  | cons token tokens ih =>
    obtain ⟨first, later⟩ := List.forall_mem_cons.1 each
    exact first.squeezed.append (ih later)

theorem not_kept_newline : ¬ Kept '\n' := fun kept => absurd kept.1 (by decide)

theorem newline_not_mem_escape (content : List Char) : '\n' ∉ escape content := by
  induction content with
  | nil => exact List.not_mem_nil
  | cons c cs ih =>
    unfold escape
    split_ifs with quote backslash newline
    · simp [ih]
    · simp [ih]
    · simp [ih]
    · simp [ih, Ne.symm newline]

mutual

theorem newline_not_mem_chars : ∀ {t : Term}, t.WellNamed → '\n' ∉ chars t
  | .number value, _, present =>
    not_kept_newline (kept_of_integer (integer_digits value) _ present)
  | .symbol _, named, present => not_kept_newline (kept_of_isName named _ present)
  | .text value, _, present => by
    have inner := newline_not_mem_escape value.toList
    simp [chars, inner] at present
  | .function name args, named, present => by
    have unbroken : '\n' ∉ name.toList := by
      rcases named.1 with rfl | isName
      · exact List.not_mem_nil
      · exact fun present => not_kept_newline (kept_of_isName isName _ present)
    have inner := newline_not_mem_charsAll named.2
    have last : '\n' ∉ closing name args := by
      rcases closes_closing name args with same | ⟨same, -⟩ <;> simp [same]
    simp [chars, unbroken, inner, last] at present

theorem newline_not_mem_charsAll : ∀ {ts : List Term}, AllWellNamed ts → '\n' ∉ charsAll ts
  | [], _ => List.not_mem_nil
  | [_], named => newline_not_mem_chars named.1
  | t :: u :: ts, named => by
    have first := newline_not_mem_chars named.1
    have later : '\n' ∉ charsAll (u :: ts) := newline_not_mem_charsAll named.2
    have shown : charsAll (t :: u :: ts) = chars t ++ ',' :: charsAll (u :: ts) := rfl
    simp [shown, first, later]

end

theorem newline_not_mem_render {t : Term} (named : t.WellNamed) : '\n' ∉ t.render.toList := by
  rw [render, String.toList_ofList]
  exact newline_not_mem_chars named

theorem normalize_render {t : Term} (named : t.WellNamed) :
    Text.normalize t.render = t.render := by
  have kept := squeezed_flatten (isToken_of_mem_tokens named)
  rw [flatten_tokens] at kept
  exact Squeezed.normalize (by rwa [render, String.toList_ofList])

end Term

section

variable {t : Term} {text : String}

theorem Fact.term_ofTerm (named : t.WellNamed) : (Fact.ofTerm t).term = .ok t :=
  Term.parse_render named

theorem Fact.parse_render (named : t.WellNamed) : Fact.parse t.render = .ok (.ofTerm t) :=
  map_eq_ok_iff.2 ⟨t, readAtom_render named, rfl⟩

theorem Fact.exists_wellNamed {fact : Fact} (parsed : Fact.parse text = .ok fact) :
    ∃ t : Term, t.WellNamed ∧ .ofTerm t = fact := by
  obtain ⟨t, read, same⟩ := map_eq_ok_iff.1 parsed
  exact ⟨t, wellNamed_of_readAtom read, same⟩

theorem Action.term_ofTerm (named : t.WellNamed) : (Action.ofTerm t).term = .ok t :=
  Term.parse_render named

theorem Action.parse_render (named : t.WellNamed) : Action.parse t.render = .ok (.ofTerm t) :=
  map_eq_ok_iff.2 ⟨t, readAtom_render named, rfl⟩

theorem Action.exists_wellNamed {action : Action} (parsed : Action.parse text = .ok action) :
    ∃ t : Term, t.WellNamed ∧ .ofTerm t = action := by
  obtain ⟨t, read, same⟩ := map_eq_ok_iff.1 parsed
  exact ⟨t, wellNamed_of_readAtom read, same⟩

end

end DeclarativeMdp
