set_option autoImplicit false

namespace DeclarativeMdp.Decimal

inductive Binary where
  | nan
  | infinite (negative : Bool)
  | finite (negative : Bool) (mantissa : Nat) (exponent : Int)
  deriving DecidableEq, Repr

def Binary.leadingUnit : Nat := Nat.pow 2 52

def Binary.ofBits (bits : UInt64) : Binary :=
  let negative : Bool := bits.toNat / Nat.pow 2 63 = 1
  let biased : Nat := bits.toNat / leadingUnit % 2048
  let fraction : Nat := bits.toNat % leadingUnit
  if biased = 2047 then if fraction = 0 then .infinite negative else .nan
  else if biased = 0 then .finite negative fraction (-1074)
  else .finite negative (leadingUnit + fraction) ((biased : Int) - 1075)

def Binary.ofFloat (x : Float) : Binary := .ofBits x.toBits

def ofInteger (value : Int64) : Float :=
  if value < 0 then -(-value).toUInt64.toFloat else value.toUInt64.toFloat

structure Ratio where
  num : Nat
  den : Nat
  deriving Repr

def Ratio.ofBinary (mantissa : Nat) (exponent : Int) : Ratio :=
  ⟨mantissa * Nat.pow 2 exponent.toNat, Nat.pow 2 (-exponent).toNat⟩

def Ratio.shift (r : Ratio) (places : Int) : Ratio :=
  ⟨r.num * Nat.pow 10 places.toNat, r.den * Nat.pow 10 (-places).toNat⟩

inductive Tie where
  | toEven
  | up
  deriving DecidableEq, Repr

def Ratio.round (tie : Tie) (r : Ratio) : Nat :=
  let low := r.num / r.den
  let twice := 2 * (r.num % r.den)
  if twice < r.den then low
  else if r.den < twice then low + 1
  else if tie = .toEven ∧ low % 2 = 0 then low
  else low + 1

end DeclarativeMdp.Decimal
