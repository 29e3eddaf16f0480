import DeclarativeMdp.Text.Utf8

set_option autoImplicit false

namespace DeclarativeMdp

structure Numeral where
  negative : Bool
  whole : List UInt8
  fraction : Option (List UInt8)
  exponent : Option (Bool × List UInt8)
  deriving DecidableEq, Repr

/-- A JSON document by its form alone. Strings are kept as the bytes between their quotes and
members in their order, so that a part nobody asks for is never judged by what it means. -/
inductive Json where
  | null
  | bool (value : Bool)
  | number (numeral : Numeral)
  | string (raw : List UInt8)
  | array (items : List Json)
  | object (members : List (List UInt8 × Json))
  deriving Inhabited, Repr

namespace Json

def isSpace (b : UInt8) : Bool := b = 0x20 || b = 0x0A || b = 0x0D || b = 0x09

def isDigit (b : UInt8) : Bool := 0x30 ≤ b && b ≤ 0x39

def isHexDigit (b : UInt8) : Bool :=
  isDigit b || (0x41 ≤ b && b ≤ 0x46) || (0x61 ≤ b && b ≤ 0x66)

def skipSpace (bs : List UInt8) : List UInt8 := bs.dropWhile isSpace

def isEscape (b : UInt8) : Bool :=
  b ∈ [0x22, 0x5C, 0x2F, 0x62, 0x66, 0x6E, 0x72, 0x74]

def readString (read : List UInt8) : List UInt8 → Option (List UInt8 × List UInt8)
  | [] => none
  | 0x22 :: bs => some (read.reverse, bs)
  | 0x5C :: 0x75 :: a :: b :: c :: d :: bs =>
    if isHexDigit a && isHexDigit b && isHexDigit c && isHexDigit d then
      readString (d :: c :: b :: a :: 0x75 :: 0x5C :: read) bs
    else none
  | 0x5C :: b :: bs => if isEscape b then readString (b :: 0x5C :: read) bs else none
  | b :: bs => if b < 0x20 ∨ b = 0x5C then none else readString (b :: read) bs

def readDigits (bs : List UInt8) : Option (List UInt8 × List UInt8) :=
  let (digits, rest) := bs.span isDigit
  if digits.isEmpty then none else some (digits, rest)

def readFraction : List UInt8 → Option (Option (List UInt8) × List UInt8)
  | 0x2E :: bs => (readDigits bs).map fun (digits, rest) => (some digits, rest)
  | bs => some (none, bs)

def readExponent : List UInt8 → Option (Option (Bool × List UInt8) × List UInt8)
  | b :: bs =>
    if b = 0x65 ∨ b = 0x45 then
      match bs with
      | 0x2B :: bs => (readDigits bs).map fun (digits, rest) => (some (false, digits), rest)
      | 0x2D :: bs => (readDigits bs).map fun (digits, rest) => (some (true, digits), rest)
      | bs => (readDigits bs).map fun (digits, rest) => (some (false, digits), rest)
    else some (none, b :: bs)
  | [] => some (none, [])

def readWhole (bs : List UInt8) : Option (List UInt8 × List UInt8) := do
  let (digits, rest) ← readDigits bs
  if digits.head? = some 0x30 ∧ digits.length ≠ 1 then none else some (digits, rest)

def readUnsigned (negative : Bool) (bs : List UInt8) : Option (Numeral × List UInt8) := do
  let (whole, rest) ← readWhole bs
  let (fraction, rest) ← readFraction rest
  let (exponent, rest) ← readExponent rest
  some (⟨negative, whole, fraction, exponent⟩, rest)

def readNumber : List UInt8 → Option (Numeral × List UInt8)
  | 0x2D :: bs => readUnsigned true bs
  | bs => readUnsigned false bs

mutual

-- Reads one value and hands back the bytes behind it. The fuel bounds the steps; two for every byte
-- and two more are always enough.
def readValue : Nat → List UInt8 → Option (Json × List UInt8)
  | 0, _ => none
  | fuel + 1, bs =>
    match skipSpace bs with
    | 0x6E :: 0x75 :: 0x6C :: 0x6C :: rest => some (.null, rest)
    | 0x74 :: 0x72 :: 0x75 :: 0x65 :: rest => some (.bool true, rest)
    | 0x66 :: 0x61 :: 0x6C :: 0x73 :: 0x65 :: rest => some (.bool false, rest)
    | 0x22 :: rest => (readString [] rest).map fun (raw, rest) => (.string raw, rest)
    | 0x5B :: rest =>
      match skipSpace rest with
      | 0x5D :: rest => some (.array [], rest)
      | rest => (readItems fuel [] rest).map fun (items, rest) => (.array items, rest)
    | 0x7B :: rest =>
      match skipSpace rest with
      | 0x7D :: rest => some (.object [], rest)
      | rest => (readMembers fuel [] rest).map fun (members, rest) => (.object members, rest)
    | rest => (readNumber rest).map fun (numeral, rest) => (.number numeral, rest)

def readItems : Nat → List Json → List UInt8 → Option (List Json × List UInt8)
  | 0, _, _ => none
  | fuel + 1, read, bs => do
    let (item, rest) ← readValue fuel bs
    match skipSpace rest with
    | 0x2C :: rest => readItems fuel (item :: read) rest
    | 0x5D :: rest => some ((item :: read).reverse, rest)
    | _ => none

def readMembers : Nat → List (List UInt8 × Json) → List UInt8 →
    Option (List (List UInt8 × Json) × List UInt8)
  | 0, _, _ => none
  | fuel + 1, read, bs =>
    match skipSpace bs with
    | 0x22 :: rest => do
      let (key, rest) ← readString [] rest
      match skipSpace rest with
      | 0x3A :: rest => do
        let (value, rest) ← readValue fuel rest
        match skipSpace rest with
        | 0x2C :: rest => readMembers fuel ((key, value) :: read) rest
        | 0x7D :: rest => some (((key, value) :: read).reverse, rest)
        | _ => none
      | _ => none
    | _ => none

end

def ofBytes? (bytes : List UInt8) : Option Json := do
  let (value, rest) ← readValue (2 * bytes.length + 2) bytes
  if (skipSpace rest).isEmpty then some value else none

def ofText? (text : String) : Option Json := ofBytes? (Text.toBytes text)

end Json

end DeclarativeMdp
