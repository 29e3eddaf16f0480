import DeclarativeMdp.Json.Decode
import DeclarativeMdp.Model

set_option autoImplicit false

namespace DeclarativeMdp.Clingo

structure Witness where
  value : List String
  costs : List Int64
  deriving DecidableEq, Repr

structure Report where
  result : String
  calls : List (List Witness)
  deriving DecidableEq, Repr

open Json

def listOrEmpty? {α : Type} (item? : Json → Option α) : Option Json → Option (List α)
  | none => some []
  | some value => value.list? item?

namespace Witness

def ofJson? (value : Json) : Option Witness := do
  match ← value.fields? ["Value", "Costs"] false true with
  | [atoms, costs] => some ⟨← listOrEmpty? string? atoms, ← listOrEmpty? int64? costs⟩
  | _ => none

def model (witness : Witness) : Except Error Model := do
  return ⟨← witness.value.mapM readAtom, witness.costs⟩

end Witness

namespace Report

def witnesses? (call : Json) : Option (List Witness) := do
  match ← call.fields? ["Witnesses"] false true with
  | [witnesses] => listOrEmpty? Witness.ofJson? witnesses
  | _ => none

def ofJson? (value : Json) : Option Report := do
  match ← value.fields? ["Result", "Call"] false true with
  | [some result, calls] => some ⟨← result.string?, ← listOrEmpty? witnesses? calls⟩
  | _ => none

def ofBytes (bytes : List UInt8) : Except Error Report :=
  match (Json.ofBytes? bytes).bind ofJson? with
  | some report => .ok report
  | none => .error .unreadableDocument

def models (report : Report) : Except Error (List Model) :=
  report.calls.flatten.mapM Witness.model

end Report

end DeclarativeMdp.Clingo
