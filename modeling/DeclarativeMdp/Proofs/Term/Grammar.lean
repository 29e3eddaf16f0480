import DeclarativeMdp.Proofs.Term.WellNamed

set_option autoImplicit false

namespace DeclarativeMdp.Term

open Text

def Blanks (cs : List Char) : Prop := ∀ c ∈ cs, isBlank c = true

theorem blanks_nil : Blanks [] := List.forall_mem_nil _

theorem Blanks.append {cs ds : List Char} (left : Blanks cs) (right : Blanks ds) :
    Blanks (cs ++ ds) :=
  List.forall_mem_append.2 ⟨left, right⟩

inductive Integer : List Char → Int64 → Prop
  | unsigned {ds : List Char} {value : Int64} (filled : ds ≠ [])
      (decimal : ∀ d ∈ ds, d.isDigit = true) (same : value.toInt = Nat.ofDigitChars 10 ds 0) :
      Integer ds value
  | negative {ds : List Char} {value : Int64} (filled : ds ≠ [])
      (decimal : ∀ d ∈ ds, d.isDigit = true) (same : value.toInt = -Nat.ofDigitChars 10 ds 0) :
      Integer ('-' :: ds) value

inductive Quoted : List Char → List Char → Prop
  | empty : Quoted [] []
  | plain {c : Char} {cs content : List Char} (unquoted : c ≠ '"') (unescaped : c ≠ '\\')
      (rest : Quoted cs content) : Quoted (c :: cs) (c :: content)
  | newline {cs content : List Char} (rest : Quoted cs content) :
      Quoted ('\\' :: 'n' :: cs) ('\n' :: content)
  | escaped {c : Char} {cs content : List Char} (other : c ≠ 'n') (rest : Quoted cs content) :
      Quoted ('\\' :: c :: cs) (c :: content)

mutual

inductive Derives : List Char → Term → Prop
  | integer {cs : List Char} {value : Int64} (number : Integer cs value) :
      Derives cs (.number value)
  | string {cs content : List Char} (quoted : Quoted cs content) :
      Derives ('"' :: cs ++ ['"']) (.text (String.ofList content))
  | name {cs : List Char} (named : IsName cs) : Derives cs (.symbol (String.ofList cs))
  | function {cs gap inner : List Char} {args : List Term} (named : IsName cs)
      (blanks : Blanks gap) (derived : DerivesArgs inner args) :
      Derives (cs ++ gap ++ inner) (.function (String.ofList cs) args)
  | tuple {inner : List Char} {args : List Term} (derived : DerivesArgs inner args) :
      Derives inner (.function "" args)

inductive DerivesArgs : List Char → List Term → Prop
  | none {gap : List Char} (blanks : Blanks gap) : DerivesArgs ('(' :: gap ++ [')']) []
  | some {before cs after more : List Char} {t : Term} {ts : List Term} (left : Blanks before)
      (first : Derives cs t) (right : Blanks after) (rest : DerivesMore more ts) :
      DerivesArgs ('(' :: before ++ cs ++ after ++ more) (t :: ts)

inductive DerivesMore : List Char → List Term → Prop
  | close : DerivesMore [')'] []
  | comma {gap : List Char} (blanks : Blanks gap) : DerivesMore (',' :: gap ++ [')']) []
  | next {before cs after more : List Char} {t : Term} {ts : List Term} (left : Blanks before)
      (first : Derives cs t) (right : Blanks after) (rest : DerivesMore more ts) :
      DerivesMore (',' :: before ++ cs ++ after ++ more) (t :: ts)

end

def DerivesText (text : String) (t : Term) : Prop :=
  ∃ before cs after, text.toList = before ++ cs ++ after ∧ Blanks before ∧ Derives cs t ∧
    Blanks after

theorem derivesArgs_nil_iff {inner : List Char} :
    DerivesArgs ('(' :: inner) [] ↔ ∃ gap, inner = gap ++ [')'] ∧ Blanks gap := by
  constructor
  · generalize shown : '(' :: inner = text
    intro derived
    cases derived with
    | none blanks => exact ⟨_, (List.cons.inj shown).2, blanks⟩
  · rintro ⟨gap, rfl, blanks⟩
    exact .none blanks

theorem derivesArgs_cons_iff {inner : List Char} {t : Term} {ts : List Term} :
    DerivesArgs ('(' :: inner) (t :: ts) ↔
      ∃ before cs after more, inner = before ++ (cs ++ (after ++ more)) ∧ Blanks before ∧
        Derives cs t ∧ Blanks after ∧ DerivesMore more ts := by
  constructor
  · generalize shown : '(' :: inner = text
    intro derived
    cases derived with
    | @some before cs after more _ _ left first right rest =>
      refine ⟨before, cs, after, more, ?_, left, first, right, rest⟩
      simpa using shown
  · rintro ⟨before, cs, after, more, rfl, left, first, right, rest⟩
    simpa using DerivesArgs.some left first right rest

-- What may follow a comma is what may follow the opening parenthesis.
theorem derivesMore_iff {more : List Char} {ts : List Term} :
    DerivesMore more ts ↔
      more = [')'] ∧ ts = [] ∨ ∃ inner, more = ',' :: inner ∧ DerivesArgs ('(' :: inner) ts := by
  constructor
  · intro derived
    cases derived with
    | close => exact .inl ⟨rfl, rfl⟩
    | comma blanks => exact .inr ⟨_, rfl, .none blanks⟩
    | next left first right rest => exact .inr ⟨_, rfl, .some left first right rest⟩
  · rintro (⟨rfl, rfl⟩ | ⟨inner, rfl, derived⟩)
    · exact .close
    · cases derived with
      | none blanks => exact .comma blanks
      | some left first right rest => exact .next left first right rest

theorem DerivesArgs.exists_inner {cs : List Char} {ts : List Term} (derived : DerivesArgs cs ts) :
    ∃ inner, cs = '(' :: inner := by
  cases derived with
  | none => exact ⟨_, rfl⟩
  | some => exact ⟨_, rfl⟩

end DeclarativeMdp.Term
