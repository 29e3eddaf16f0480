import DeclarativeMdp.Event
import DeclarativeMdp.Model

set_option autoImplicit false

namespace DeclarativeMdp

structure Outcome (σ α : Type) where
  result : Except Error α
  events : List Event
  next : σ

class Solver (σ : Type) where
  solve : Request → σ → Outcome σ (List Model)

structure Recorded (σ : Type) where
  solver : σ
  requests : List Request

def Recorded.start {σ : Type} (solver : σ) : Recorded σ := ⟨solver, []⟩

instance {σ : Type} [Solver σ] : Solver (Recorded σ) where
  solve request recorded :=
    let outcome := Solver.solve request recorded.solver
    ⟨outcome.result, outcome.events, outcome.next, recorded.requests ++ [request]⟩

inductive Line where
  | models (atoms : List (List String))
  | failure (text : String)
  deriving Repr

structure Scripted where
  lines : List Line
  deriving Repr

instance : Solver Scripted where
  solve _ scripted :=
    match scripted.lines with
    | [] => ⟨.error (.solver (.reported "script exhausted")), [], scripted⟩
    | .failure text :: rest => ⟨.error (.solver (.reported text)), [], ⟨rest⟩⟩
    | .models atoms :: rest => ⟨atoms.mapM Model.parse, [], ⟨rest⟩⟩

end DeclarativeMdp
