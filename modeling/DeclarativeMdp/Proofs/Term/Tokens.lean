import DeclarativeMdp.Proofs.Term.RoundTrip

set_option autoImplicit false

namespace DeclarativeMdp.Term

open Text

inductive IsToken : List Char → Prop
  | name {cs : List Char} (named : IsName cs) : IsToken cs
  | number {cs : List Char} {value : Int64} (integer : Integer cs value) : IsToken cs
  | string {cs content : List Char} (quoted : Quoted cs content) : IsToken ('"' :: cs ++ ['"'])
  | mark {c : Char} (punctuation : c = '(' ∨ c = ',' ∨ c = ')') : IsToken [c]

mutual

def tokens : Term → List (List Char)
  | .number value => [digits value]
  | .symbol name => [name.toList]
  | .text value => ['"' :: escape value.toList ++ ['"']]
  | .function name args =>
    (if name = "" then [] else [name.toList]) ++
      ['('] :: (tokensAll args ++ (closing name args).map fun c => [c])

def tokensAll : List Term → List (List Char)
  | [] => []
  | [t] => tokens t
  | t :: ts => tokens t ++ [','] :: tokensAll ts

end

mutual

theorem flatten_tokens : ∀ t : Term, (tokens t).flatten = chars t
  | .number _ | .symbol _ | .text _ => by simp [tokens, chars]
  | .function name args => by
    have named : (if name = "" then [] else [name.toList]).flatten = name.toList := by
      split_ifs with unnamed <;> simp [unnamed]
    have closed : ((closing name args).map fun c => [c]).flatten = closing name args := by
      rw [← List.flatMap_def, List.flatMap_singleton']
    simp [tokens, chars, named, closed, flatten_tokensAll args]

theorem flatten_tokensAll : ∀ ts : List Term, (tokensAll ts).flatten = charsAll ts
  | [] => rfl
  | [t] => flatten_tokens t
  | t :: u :: ts => by
    have later := flatten_tokensAll (u :: ts)
    simp only [tokensAll, charsAll, List.flatten_append, List.flatten_cons, flatten_tokens t]
    simp [later]

end

mutual

theorem isToken_of_mem_tokens : ∀ {t : Term}, t.WellNamed → ∀ token ∈ tokens t, IsToken token
  | .number value, _, token, present => by
    rw [List.mem_singleton.1 present]
    exact .number (integer_digits value)
  | .symbol name, named, token, present => by
    rw [List.mem_singleton.1 present]
    exact .name named
  | .text value, _, token, present => by
    rw [List.mem_singleton.1 present]
    exact .string (quoted_escape value.toList)
  | .function name args, named, token, present => by
    rcases List.mem_append.1 present with first | inner
    · split_ifs at first with unnamed
      · simp at first
      · rw [List.mem_singleton.1 first]
        exact .name (named.1.resolve_left unnamed)
    · rcases List.mem_cons.1 inner with rfl | inner
      · exact .mark (.inl rfl)
      · rcases List.mem_append.1 inner with arg | closed
        · exact isToken_of_mem_tokensAll named.2 token arg
        · obtain ⟨c, there, rfl⟩ := List.mem_map.1 closed
          refine .mark (.inr ?_)
          rcases closes_closing name args with same | ⟨same, -⟩
          · exact .inr (by simpa [same] using there)
          · simpa [same] using there

theorem isToken_of_mem_tokensAll : ∀ {ts : List Term}, AllWellNamed ts →
    ∀ token ∈ tokensAll ts, IsToken token
  | [], _, token, present => by simp [tokensAll] at present
  | [t], named, token, present => isToken_of_mem_tokens named.1 token present
  | t :: u :: ts, named, token, present => by
    rcases List.mem_append.1 present with first | later
    · exact isToken_of_mem_tokens named.1 token first
    · rcases List.mem_cons.1 later with rfl | later
      · exact .mark (.inr (.inl rfl))
      · exact isToken_of_mem_tokensAll named.2 token later

end

end DeclarativeMdp.Term
