import DeclarativeMdp.Json.Reader

set_option autoImplicit false

namespace DeclarativeMdp

def digitsValue (digits : List UInt8) : Nat :=
  digits.foldl (fun n d => 10 * n + (d.toNat - 0x30)) 0

namespace Numeral

def int? (n : Numeral) : Option Int :=
  if n.fraction.isSome || n.exponent.isSome then none
  else
    let value := digitsValue n.whole
    if n.negative then if value = 0 then none else some (-value) else some value

def float? (n : Numeral) : Option Float :=
  let fraction := n.fraction.getD []
  let mantissa := digitsValue (n.whole ++ fraction)
  let shift : Int := match n.exponent with
    | some (true, digits) => -digitsValue digits
    | some (false, digits) => digitsValue digits
    | none => 0
  let exponent := shift - fraction.length
  -- Beyond these bounds the number is zero or infinite whatever its digits are.
  let magnitude := exponent + (n.whole ++ fraction).length
  let value :=
    if mantissa = 0 ∨ magnitude < -400 then 0.0
    else if 400 < exponent then 1.0 / 0.0
    else Float.ofScientific mantissa (exponent < 0) exponent.natAbs
  if value.isFinite then some (if n.negative then -value else value) else none

end Numeral

namespace Json

def hexValue (b : UInt8) : Nat :=
  if isDigit b then b.toNat - 0x30 else if b < 0x61 then b.toNat - 0x37 else b.toNat - 0x57

def hexValues (bs : List UInt8) : Nat := bs.foldl (fun n b => 16 * n + hexValue b) 0

def charBytes (value : Nat) : List UInt8 := Text.toBytes (String.singleton (Char.ofNat value))

def escapedByte (b : UInt8) : UInt8 :=
  if b = 0x62 then 0x08 else if b = 0x66 then 0x0C else if b = 0x6E then 0x0A
  else if b = 0x72 then 0x0D else if b = 0x74 then 0x09 else b

/-- The bytes of a text from its written form, in reverse in front of `read`. Surrogates stand for
something only in pairs. -/
def unescape (read : List UInt8) : List UInt8 → Option (List UInt8)
  | [] => some read.reverse
  | 0x5C :: 0x75 :: a :: b :: c :: d :: bs =>
    let high := hexValues [a, b, c, d]
    if 0xDC00 ≤ high ∧ high < 0xE000 then none
    else if 0xD800 ≤ high ∧ high < 0xDC00 then
      match bs with
      | 0x5C :: 0x75 :: e :: f :: g :: h :: bs =>
        let low := hexValues [e, f, g, h]
        if 0xDC00 ≤ low ∧ low < 0xE000 then
          let value := 0x10000 + (high - 0xD800) * 0x400 + (low - 0xDC00)
          unescape ((charBytes value).reverse ++ read) bs
        else none
      | _ => none
    else unescape ((charBytes high).reverse ++ read) bs
  | 0x5C :: b :: bs => unescape (escapedByte b :: read) bs
  | b :: bs => unescape (b :: read) bs

def text? (raw : List UInt8) : Option String := do Text.ofBytes? (← unescape [] raw)

def string? : Json → Option String
  | .string raw => text? raw
  | _ => none

def bool? : Json → Option Bool
  | .bool value => some value
  | _ => none

def float? : Json → Option Float
  | .number numeral => numeral.float?
  | _ => none

def int? : Json → Option Int
  | .number numeral => numeral.int?
  | _ => none

def below? (bound : Nat) (value : Json) : Option Nat := do
  let n ← value.int?
  if 0 ≤ n ∧ n < bound then some n.toNat else none

def uint32? (value : Json) : Option UInt32 := (value.below? UInt32.size).map UInt32.ofNat

def uint64? (value : Json) : Option UInt64 := (value.below? UInt64.size).map UInt64.ofNat

def int64? (value : Json) : Option Int64 := do
  let n ← value.int?
  if Int64.minValue.toInt ≤ n ∧ n ≤ Int64.maxValue.toInt then some (Int64.ofInt n) else none

def list? {α : Type} (item? : Json → Option α) : Json → Option (List α)
  | .array items => items.mapM item?
  | _ => none

def option? {α : Type} (value? : Json → Option α) : Json → Option (Option α)
  | .null => some none
  | value => (value? value).map some

def named? (closed : Bool) (names : List String) (members : List (List UInt8 × Json)) :
    Option (List (Option Json)) := do
  let members ← members.mapM fun (key, value) => (text? key).map fun key => (key, value)
  if closed ∧ members.any (·.1 ∉ names) then none
  else names.mapM fun name =>
    match members.filter (·.1 = name) with
    | [] => some none
    | [(_, value)] => some (some value)
    | _ => none

def fields? (names : List String) (value : Json) (closed : Bool) (defaults : Bool) :
    Option (List (Option Json)) :=
  match value with
  | .object members => named? closed names members
  | .array items =>
    if items.length = names.length ∨ (defaults ∧ items.length < names.length) then
      some (items.map some ++ List.replicate (names.length - items.length) none)
    else none
  | _ => none

def record? (names : List String) (value : Json) : Option (List Json) :=
  (value.fields? names false false).map fun fields => fields.map (·.getD .null)

end Json

end DeclarativeMdp
