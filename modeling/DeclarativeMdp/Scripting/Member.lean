import DeclarativeMdp.Scripting.Arguments

set_option autoImplicit false

namespace DeclarativeMdp.Scripting

inductive Member (α : Type) where
  | part (read : α → Except Failure Value)
  | method (parameters : List Parameter) (call : List Value → α → Except Failure Value × α)

namespace Member

def field {α : Type} (value : α → Value) : Member α := .part fun object => .ok (value object)

def query {α : Type} (read : α → Except Failure Value) : Member α :=
  .method [] fun _ object => (read object, object)

def apply {α : Type} (member : Member α) (arguments : Arguments) (object : α) :
    Except Failure Value × α :=
  match member with
  | .part read => (read object, object)
  | .method parameters call =>
    match arguments.bind parameters with
    | .error failure => (.error failure, object)
    | .ok values => call values object

end Member

def use {α : Type} (member? : String → Option (Member α)) (name : String) (arguments : Arguments)
    (object : α) : Except Failure Value × α :=
  match member? name with
  | some member => member.apply arguments object
  | none => (.error .unknownMember, object)

end DeclarativeMdp.Scripting
