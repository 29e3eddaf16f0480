import DeclarativeMdp.Decimal.Binary

set_option autoImplicit false

namespace DeclarativeMdp

structure Duration where
  secs : UInt64
  nanos : Nat
  nanos_lt : nanos < 1000000000
  deriving DecidableEq, Repr

namespace Duration

def ofParts? (secs nanos : Nat) : Option Duration :=
  let total := secs + nanos / 1000000000
  if total < UInt64.size then
    some ⟨UInt64.ofNat total, nanos % 1000000000, Nat.mod_lt _ (by decide)⟩
  else none

def ofSeconds? (seconds : Float) : Option Duration :=
  match Decimal.Binary.ofFloat seconds with
  | .finite negative mantissa exponent =>
    if negative ∧ mantissa ≠ 0 then none
    else ofParts? 0 (((Decimal.Ratio.ofBinary mantissa exponent).shift 9).round .toEven)
  | _ => none

def wholeSeconds (d : Duration) : Nat :=
  d.secs.toNat + if 0 < d.nanos then 1 else 0

def decimal (whole part places : Nat) : String :=
  let digits := Nat.toDigits 10 part
  let padded := List.replicate (places - digits.length) '0' ++ digits
  let kept := (padded.reverse.dropWhile (· = '0')).reverse
  toString whole ++ if kept.isEmpty then "" else "." ++ String.ofList kept

def render (d : Duration) : String :=
  if 0 < d.secs then decimal d.secs.toNat d.nanos 9 ++ "s"
  else if 1000000 ≤ d.nanos then decimal (d.nanos / 1000000) (d.nanos % 1000000) 6 ++ "ms"
  else if 1000 ≤ d.nanos then decimal (d.nanos / 1000) (d.nanos % 1000) 3 ++ "µs"
  else toString d.nanos ++ "ns"

end Duration

end DeclarativeMdp
