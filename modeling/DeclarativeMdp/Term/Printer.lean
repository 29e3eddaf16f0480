import DeclarativeMdp.Term.Basic

set_option autoImplicit false

namespace DeclarativeMdp.Term

def escape : List Char → List Char
  | [] => []
  | c :: cs =>
    if c = '"' then '\\' :: '"' :: escape cs
    else if c = '\\' then '\\' :: '\\' :: escape cs
    else if c = '\n' then '\\' :: 'n' :: escape cs
    else c :: escape cs

def digits (value : Int64) : List Char :=
  if value.toInt < 0 then '-' :: Nat.toDigits 10 value.toInt.natAbs
  else Nat.toDigits 10 value.toInt.natAbs

mutual

def chars : Term → List Char
  | .number value => digits value
  | .symbol name => name.toList
  | .text value => '"' :: escape value.toList ++ ['"']
  | .function name args => name.toList ++ '(' :: charsAll args ++ closing name args

def charsAll : List Term → List Char
  | [] => []
  | [t] => chars t
  | t :: ts => chars t ++ ',' :: charsAll ts

-- The comma tells a tuple of one element from a term in parentheses.
def closing (name : String) (args : List Term) : List Char :=
  if name.isEmpty ∧ args.length = 1 then [',', ')'] else [')']

end

def render (term : Term) : String := String.ofList term.chars

instance : ToString Term := ⟨render⟩

end DeclarativeMdp.Term
