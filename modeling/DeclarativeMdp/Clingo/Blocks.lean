import DeclarativeMdp.BlocksWorld.Solver
import DeclarativeMdp.Clingo.Launch
import DeclarativeMdp.Json.Writer
import DeclarativeMdp.Text.Utf8

set_option autoImplicit false

namespace DeclarativeMdp.Clingo

structure BlocksProgram where
  deriving Repr

namespace BlocksProgram

-- A line may end in a carriage return.
def withoutReturn (line : List Char) : List Char :=
  match line.getLast? with
  | some '\r' => line.dropLast
  | _ => line

def statements (input : String) : List Statement :=
  (input.splitOn "\n").filterMap fun line => Statement.ofLine? (withoutReturn line.toList)

def argument? (start : String) (arguments : List String) : Option Nat :=
  arguments.findSome? fun argument =>
    if argument.startsWith start then (argument.drop start.length).toNat? else none

def currentFact? : Statement → Option Fact
  | .current fact => some (.ofText fact.text)
  | _ => none

def subgoalFact? : Statement → Option Fact
  | .subgoal fact => some (.ofText fact.text)
  | _ => none

def chosenAction? : Statement → Option Action
  | .action chosen => some (.ofText chosen.text)
  | _ => none

def shownSignature? : Statement → Option Signature
  | .shown signature => some signature
  | _ => none

def request (invocation : Invocation) : Request :=
  let given := statements invocation.input
  { programs := ⟨invocation.programs.headD default, invocation.programs.getLastD default⟩
    current := .ofList (given.filterMap currentFact?)
    subgoal := .ofList (given.filterMap subgoalFact?)
    horizon := UInt32.ofNat ((argument? "t=" invocation.arguments).getD 0)
    action := given.findSome? chosenAction?
    shown := given.filterMap shownSignature?
    mode :=
      if "--opt-mode=opt" ∈ invocation.arguments then .optimize
      else .enumerate ((argument? "--models=" invocation.arguments).getD 0) }

open Json

def witness (model : Model) : String :=
  writeObject [("Value", writeArray (model.atoms.map fun atom => writeString atom.render))]

def report (models : List Model) : String :=
  writeObject [
    ("Call", writeArray [writeObject [("Witnesses", writeArray (models.map witness))]]),
    ("Result", writeString (if models.isEmpty then "UNSATISFIABLE" else "SATISFIABLE"))]

def answer (request : Request) : Reply :=
  match BlocksWorld.answer request with
  | .ok models =>
    ⟨true, Text.toBytes (report models), [], .exited (if models.isEmpty then 20 else 30)⟩
  | .error error => ⟨true, [], Text.toBytes (error.message?.getD ""), .exited 65⟩

instance : Program BlocksProgram where
  reply invocation program := (answer (request invocation), program)

end BlocksProgram

end DeclarativeMdp.Clingo
