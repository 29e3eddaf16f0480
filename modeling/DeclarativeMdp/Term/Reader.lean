import DeclarativeMdp.Term.Basic
import DeclarativeMdp.Text.Blank

set_option autoImplicit false

namespace DeclarativeMdp.Term

open Text

inductive Flaw where
  | trailingInput
  | variable
  | unexpectedCharacter
  | unexpectedEnd
  | invalidInteger
  | unterminatedEscape
  | unterminatedString
  | missingSeparator
  deriving DecidableEq, Repr

def Flaw.message : Flaw → String
  | .trailingInput => "trailing input after term"
  | .variable => "variables are not ground"
  | .unexpectedCharacter => "unexpected character"
  | .unexpectedEnd => "unexpected end of input"
  | .invalidInteger => "invalid integer"
  | .unterminatedEscape => "unterminated escape"
  | .unterminatedString => "unterminated string"
  | .missingSeparator => "expected `,` or `)`"

structure Stop where
  flaw : Flaw
  rest : List Char
  deriving DecidableEq, Repr

structure Misreading where
  flaw : Flaw
  offset : Nat
  deriving DecidableEq, Repr

def Misreading.message (m : Misreading) : String :=
  m.flaw.message ++ " at byte " ++ toString m.offset

def isNameStart (c : Char) : Bool := c.isLower || c = '_' || c = '#'

def isNameChar (c : Char) : Bool := c.isAlphanum || c = '_' || c = Char.ofNat 39

def skipBlanks (cs : List Char) : List Char := cs.dropWhile isBlank

def natOfDigits (ds : List Char) : Nat :=
  ds.foldl (fun n d => 10 * n + (d.toNat - '0'.toNat)) 0

def integer? (negative : Bool) (ds : List Char) : Option Int64 :=
  let value : Int := if negative then -natOfDigits ds else natOfDigits ds
  if ds.isEmpty ∨ value < Int64.minValue.toInt ∨ Int64.maxValue.toInt < value then none
  else some (Int64.ofInt value)

def readNumber (cs : List Char) : Except Stop (Term × List Char) :=
  let negative := cs.head? = some '-'
  let unsigned := if negative then cs.drop 1 else cs
  let rest := unsigned.dropWhile Char.isDigit
  match integer? negative (unsigned.takeWhile Char.isDigit) with
  | some value => .ok (.number value, rest)
  | none => .error ⟨.invalidInteger, rest⟩

def readString : List Char → Except Stop (List Char × List Char)
  | [] => .error ⟨.unterminatedString, []⟩
  | ['\\'] => .error ⟨.unterminatedEscape, []⟩
  | '\\' :: c :: cs => (readString cs).map fun (content, rest) =>
    ((if c = 'n' then '\n' else c) :: content, rest)
  | c :: cs =>
    if c = '"' then .ok ([], cs)
    else (readString cs).map fun (content, rest) => (c :: content, rest)

mutual

-- Reads one term and hands back the text behind it. The fuel bounds the nesting; twice the length
-- of the text and two more is always enough.
def readTerm : Nat → List Char → Except Stop (Term × List Char)
  | 0, cs => .error ⟨.unexpectedEnd, cs⟩
  | fuel + 1, cs =>
    match skipBlanks cs with
    | [] => .error ⟨.unexpectedEnd, []⟩
    | c :: cs =>
      if c = '-' ∨ c.isDigit then readNumber (c :: cs)
      else if c = '"' then
        (readString cs).map fun (content, rest) => (.text (String.ofList content), rest)
      else if c = '(' then
        (readArgs fuel cs).map fun (args, rest) => (.function "" args, rest)
      else if isNameStart c then
        let name := String.ofList (c :: cs.takeWhile isNameChar)
        match skipBlanks (cs.dropWhile isNameChar) with
        | '(' :: cs => (readArgs fuel cs).map fun (args, rest) => (.function name args, rest)
        | rest => .ok (.symbol name, rest)
      else if c.isUpper then .error ⟨.variable, c :: cs⟩
      else .error ⟨.unexpectedCharacter, c :: cs⟩

def readArgs : Nat → List Char → Except Stop (List Term × List Char)
  | 0, cs => .error ⟨.unexpectedEnd, cs⟩
  | fuel + 1, cs =>
    match skipBlanks cs with
    | ')' :: rest => .ok ([], rest)
    | cs => do
      let (term, rest) ← readTerm fuel cs
      match skipBlanks rest with
      | ',' :: rest => (readArgs fuel rest).map fun (terms, rest) => (term :: terms, rest)
      | ')' :: rest => .ok ([term], rest)
      | rest => .error ⟨.missingSeparator, rest.drop 1⟩

end

def byteCount (cs : List Char) : Nat := (cs.map Char.utf8Size).foldr (· + ·) 0

def readAll (cs : List Char) : Except Stop Term := do
  let (term, rest) ← readTerm (2 * cs.length + 2) cs
  match skipBlanks rest with
  | [] => .ok term
  | rest => .error ⟨.trailingInput, rest⟩

def parse (text : String) : Except Misreading Term :=
  (readAll text.toList).mapError fun stop =>
    ⟨stop.flaw, byteCount text.toList - byteCount stop.rest⟩

end DeclarativeMdp.Term
