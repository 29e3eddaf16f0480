import DeclarativeMdp.Decimal.Binary

set_option autoImplicit false

namespace DeclarativeMdp.Decimal

structure Scaled where
  digits : Nat
  power : Int
  deriving DecidableEq, Repr

-- The numbers that read as one floating-point number: those between the midpoints to its two
-- neighbours, the midpoints included if `closed`. All three are quarters of the unit `2 ^ unit`.
structure Reach where
  low : Nat
  mid : Nat
  high : Nat
  unit : Int
  closed : Bool
  deriving Repr

-- Below a power of two the neighbour is only half as far away.
def Reach.ofBinary (mantissa : Nat) (exponent : Int) : Reach where
  low := 4 * mantissa - if mantissa = Binary.leadingUnit ∧ -1074 < exponent then 1 else 2
  mid := 4 * mantissa
  high := 4 * mantissa + 2
  unit := exponent - 2
  closed := mantissa % 2 = 0

def Reach.holds (reach : Reach) (s : Scaled) : Bool :=
  let one := (Ratio.ofBinary 1 reach.unit).shift (-s.power)
  let value := s.digits * one.den
  if reach.closed then reach.low * one.num ≤ value && value ≤ reach.high * one.num
  else reach.low * one.num < value && value < reach.high * one.num

def Reach.onGrid (tie : Tie) (reach : Reach) (power : Int) : Option Scaled :=
  let value := (Ratio.ofBinary reach.mid reach.unit).shift (-power)
  let below : Scaled := ⟨value.num / value.den, power⟩
  let above : Scaled := ⟨value.num / value.den + 1, power⟩
  match reach.holds below, reach.holds above with
  | true, true => some ⟨value.round tie, power⟩
  | true, false => some below
  | false, true => some above
  | false, false => none

def digitCount (n : Nat) : Nat := (Nat.toDigits 10 n).length

def Ratio.magnitude (r : Ratio) : Int :=
  if r.den ≤ r.num then digitCount (r.num / r.den)
  else 1 - (digitCount ((r.den + r.num - 1) / r.num - 1) : Int)

-- The fewest digits that read back as `mantissa * 2 ^ exponent`, and of those the nearest.
-- Seventeen always do.
def shortest (tie : Tie) (mantissa : Nat) (exponent : Int) : Scaled :=
  let reach := Reach.ofBinary mantissa exponent
  let magnitude := (Ratio.ofBinary mantissa exponent).magnitude
  ((List.range 17).findSome? fun n : Nat => reach.onGrid tie (magnitude - (n + 1))).getD
    ⟨mantissa, exponent⟩

def Scaled.trimmed (s : Scaled) : Scaled :=
  let shown := Nat.toDigits 10 s.digits
  let zeros := (shown.reverse.takeWhile (· = '0')).length
  if s.digits = 0 then s else ⟨s.digits / Nat.pow 10 zeros, s.power + zeros⟩

end DeclarativeMdp.Decimal
