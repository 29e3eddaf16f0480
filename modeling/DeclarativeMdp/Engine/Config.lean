import DeclarativeMdp.Error
import DeclarativeMdp.Json.Decode
import DeclarativeMdp.Json.Writer

set_option autoImplicit false

namespace DeclarativeMdp

structure Config where
  discountRate : Float
  planningHorizon : Option UInt32
  checkLegality : Bool
  deriving DecidableEq, Repr

namespace Config

def standard : Config := ⟨1.0, none, true⟩

def validate (config : Config) : Except Error Unit :=
  if 0.0 ≤ config.discountRate ∧ config.discountRate ≤ 1.0 then .ok ()
  else .error (.invalidDiscount config.discountRate)

def maxHorizon : UInt32 := 4294967295

def horizonFor (config : Config) (stateSize : Nat) : UInt32 :=
  match config.planningHorizon with
  | some horizon => horizon
  | none => if 2 * stateSize ≤ maxHorizon.toNat then UInt32.ofNat (2 * stateSize) else maxHorizon

def defaultHorizon (config : Config) (stateSize : UInt64) : Except Error UInt32 :=
  if config.planningHorizon = none ∧ UInt64.size ≤ 2 * stateSize.toNat then
    .error .undefinedAnswer
  else .ok (config.horizonFor stateSize.toNat)

open Json

def toJson (config : Config) : String :=
  writeObject [
    ("discount_rate", writeFloat config.discountRate),
    ("planning_horizon", writeOption toString config.planningHorizon),
    ("check_action_legality", writeBool config.checkLegality)]

def ofJson? (value : Json) : Option Config := do
  match ← value.record? ["discount_rate", "planning_horizon", "check_action_legality"] with
  | [rate, horizon, check] => some ⟨← rate.float?, ← option? uint32? horizon, ← check.bool?⟩
  | _ => none

end Config

end DeclarativeMdp
