import DeclarativeMdp.Scripting.Value

set_option autoImplicit false

namespace DeclarativeMdp.Scripting

structure Arguments where
  positional : List Value
  named : List (String × Value)
  deriving Repr

structure Parameter where
  name : String
  fallback : Option Value
  deriving Repr

namespace Arguments

def empty : Arguments := ⟨[], []⟩

def Fit (parameters : List Parameter) (arguments : Arguments) : Prop :=
  arguments.positional.length ≤ parameters.length ∧
    ∀ argument ∈ arguments.named,
      argument.1 ∈ (parameters.drop arguments.positional.length).map Parameter.name

instance (parameters : List Parameter) (arguments : Arguments) :
    Decidable (arguments.Fit parameters) :=
  inferInstanceAs (Decidable (_ ∧ _))

def valueOf (arguments : Arguments) (parameter : Parameter) : Except Failure Value :=
  match (arguments.named.find? (·.1 = parameter.name)).map (·.2) <|> parameter.fallback with
  | some value => .ok value
  | none => .error .wrongType

def bind (parameters : List Parameter) (arguments : Arguments) : Except Failure (List Value) :=
  if arguments.Fit parameters then do
    let rest ← (parameters.drop arguments.positional.length).mapM arguments.valueOf
    return arguments.positional ++ rest
  else .error .wrongType

end Arguments

end DeclarativeMdp.Scripting
