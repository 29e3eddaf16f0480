import DeclarativeMdp.Json.Decode
import DeclarativeMdp.Json.Writer
import DeclarativeMdp.Term.Printer

set_option autoImplicit false

namespace DeclarativeMdp

open Json

namespace Term

mutual

def toJson : Term → String
  | .number value => writeObject [("Number", String.ofList (digits value))]
  | .symbol name => writeObject [("Symbol", writeString name)]
  | .text value => writeObject [("Str", writeString value)]
  | .function name args =>
    writeObject [("Function",
      writeObject [("name", writeString name), ("args", writeArray (toJsonAll args))])]

def toJsonAll : List Term → List String
  | [] => []
  | t :: ts => toJson t :: toJsonAll ts

end

/-- A document is at most 127 brackets deep. A function adds three to those around it and every
term has one of its own, so functions nest 42 deep. -/
def maxNesting : Nat := 42

def ofJson? (positional : Bool) : (nesting : Nat) → Json → Option Term
  | nesting, .object [(key, content)] => do
    match ← text? key with
    | "Number" => content.int64?.map .number
    | "Symbol" => content.string?.map .symbol
    | "Str" => content.string?.map .text
    | "Function" =>
      match nesting, content with
      | nesting + 1, .object _ => function? nesting content
      | nesting + 1, .array _ => if positional then function? nesting content else none
      | _, _ => none
    | _ => none
  | _, _ => none
where
  function? (nesting : Nat) (content : Json) : Option Term := do
    match ← content.record? ["name", "args"] with
    | [name, args] => some (.function (← name.string?) (← args.list? (ofJson? positional nesting)))
    | _ => none

end Term

namespace Signature

def toJson (signature : Signature) : String :=
  writeObject [("name", writeString signature.name), ("arity", toString signature.arity)]

def ofJson? (value : Json) : Option Signature := do
  match ← value.record? ["name", "arity"] with
  | [name, arity] => some ⟨← name.string?, ← arity.below? UInt64.size⟩
  | _ => none

end Signature

end DeclarativeMdp
