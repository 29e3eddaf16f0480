import DeclarativeMdp.Decimal.Shortest

set_option autoImplicit false

namespace DeclarativeMdp.Decimal

structure Layout where
  tie : Tie
  positional : Option (Int × Int)
  point : Bool
  plus : Bool
  deriving Repr

def Layout.data : Layout := ⟨.toEven, some (-5, 15), true, true⟩

def Layout.message : Layout := ⟨.up, none, false, false⟩

def Layout.inspection : Layout := ⟨.up, some (-4, 15), true, false⟩

def zeros (n : Int) : List Char := List.replicate n.toNat '0'

def Scaled.positional (point : Bool) (s : Scaled) : List Char :=
  let digits := Nat.toDigits 10 s.digits
  let whole := digits.length + s.power
  if 0 ≤ s.power then digits ++ zeros s.power ++ if point then ['.', '0'] else []
  else if 0 < whole then digits.take whole.toNat ++ '.' :: digits.drop whole.toNat
  else '0' :: '.' :: zeros (-whole) ++ digits

def Scaled.scientific (plus : Bool) (s : Scaled) : List Char :=
  let digits := Nat.toDigits 10 s.digits
  let exponent := digits.length + s.power - 1
  let fraction := digits.drop 1
  digits.take 1 ++ (if fraction.isEmpty then [] else '.' :: fraction) ++
    'e' :: (if exponent < 0 then ['-'] else if plus then ['+'] else []) ++
    Nat.toDigits 10 exponent.natAbs

def Layout.writeFinite (layout : Layout) (mantissa : Nat) (exponent : Int) : List Char :=
  let s : Scaled :=
    if mantissa = 0 then ⟨0, 0⟩ else (shortest layout.tie mantissa exponent).trimmed
  let scientific := digitCount s.digits + s.power - 1
  match layout.positional with
  | some (first, last) =>
    if mantissa = 0 ∨ (first ≤ scientific ∧ scientific ≤ last) then s.positional layout.point
    else s.scientific layout.plus
  | none => s.positional layout.point

def sign (negative : Bool) : List Char := if negative then ['-'] else []

def Layout.write (layout : Layout) (x : Float) : String :=
  match Binary.ofFloat x with
  | .nan => "NaN"
  | .infinite negative => String.ofList (sign negative ++ ['i', 'n', 'f'])
  | .finite negative mantissa exponent =>
    String.ofList (sign negative ++ layout.writeFinite mantissa exponent)

def writeFixed (places : Nat) (x : Float) : String :=
  match Binary.ofFloat x with
  | .nan => "NaN"
  | .infinite negative => String.ofList (sign negative ++ ['i', 'n', 'f'])
  | .finite negative mantissa exponent =>
    let scaled := ((Ratio.ofBinary mantissa exponent).shift places).round .toEven
    let digits := Nat.toDigits 10 scaled
    let padded := zeros (places + 1 - digits.length) ++ digits
    let whole := padded.length - places
    String.ofList (sign negative ++ padded.take whole ++
      if places = 0 then [] else '.' :: padded.drop whole)

end DeclarativeMdp.Decimal
