import DeclarativeMdp.Episode.Basic

set_option autoImplicit false

namespace DeclarativeMdp.Scripting

inductive Value where
  | none
  | bool (value : Bool)
  | int (value : Int)
  | float (value : Float)
  | text (value : String)
  | path (value : Path)
  | bytes (value : List UInt8)
  | list (items : List Value)
  | record (value : Record)
  | trajectory (value : Trajectory)
  deriving Inhabited, Repr

inductive Failure where
  | wrongType
  | outOfRange
  | unknownMember
  | inside (error : Error)
  deriving DecidableEq, Repr

inductive Kind where
  | type
  | overflow
  | attribute
  | fileNotFound
  | timeout
  | value
  | runtime
  deriving DecidableEq, Repr

def Failure.kind : Failure → Kind
  | .wrongType => .type
  | .outOfRange => .overflow
  | .unknownMember => .attribute
  | .inside (.missingProgram _) => .fileNotFound
  | .inside (.timedOut _) => .timeout
  | .inside (.illegalAction _) | .inside (.invalidDiscount _) | .inside (.invalidTimeLimit _)
  | .inside (.malformedAtom _ _) => .value
  | .inside _ => .runtime

def Failure.message? : Failure → Option String
  | .inside error => error.message?
  | _ => none

def lift {α : Type} (result : Except Error α) : Except Failure α := result.mapError .inside

namespace Value

def ofOption {α : Type} (value : α → Value) : Option α → Value
  | some a => value a
  | Option.none => .none

def ofState (state : State) : Value := .list (state.texts.map .text)

def ofFloats (values : List Float) : Value := .list (values.map .float)

def ofRewards (run : Trajectory) : Value :=
  .list (run.rewards.map (ofOption fun reward => .float reward.value))

def ofActions (actions : List Action) : Value := .list (actions.map fun action => .text action.text)

def string : Value → Except Failure String
  | .text value => .ok value
  | .path value => .ok value.render
  | _ => .error .wrongType

def filePath : Value → Except Failure Path
  | .text value => .ok (.ofText value)
  | .path value => .ok value
  | _ => .error .wrongType

def strings : Value → Except Failure (List String)
  | .list items => items.mapM string
  | .bytes [] => .ok []
  | _ => .error .wrongType

def raw : Value → Except Failure (List UInt8)
  | .bytes value => .ok value
  | _ => .error .wrongType

def flag : Value → Except Failure Bool
  | .bool value => .ok value
  | _ => .error .wrongType

def ofInt (value : Int) : Except Failure Float :=
  let magnitude := Float.ofScientific value.natAbs false 0
  if magnitude.isFinite then .ok (if value < 0 then -magnitude else magnitude)
  else .error .outOfRange

def real : Value → Except Failure Float
  | .float value => .ok value
  | .int value => ofInt value
  | .bool value => .ok (if value then 1.0 else 0.0)
  | _ => .error .wrongType

def natural (bits : Nat) : Value → Except Failure Nat
  | .int value =>
    if 0 ≤ value ∧ value.toNat < Nat.pow 2 bits then .ok value.toNat else .error .outOfRange
  | .bool value => .ok value.toNat
  | _ => .error .wrongType

def optional {α : Type} (read : Value → Except Failure α) : Value → Except Failure (Option α)
  | .none => .ok Option.none
  | value => some <$> read value

end Value

end DeclarativeMdp.Scripting
