import DeclarativeMdp.Programs
import DeclarativeMdp.State

set_option autoImplicit false

namespace DeclarativeMdp

namespace Predicates

def state : Signature := ⟨"state", 1⟩

def nextReward : Signature := ⟨"nextReward", 1⟩

def executable : Signature := ⟨"executable", 1⟩

def maxReturn : Signature := ⟨"maxReturn", 1⟩

end Predicates

inductive Mode where
  -- All of them for a limit of zero.
  | enumerate (limit : Nat)
  | optimize
  deriving DecidableEq, Repr, Inhabited

def Mode.render : Mode → String
  | .enumerate limit => "Enumerate \x7b limit: " ++ toString limit ++ " \x7d"
  | .optimize => "Optimize"

structure Request where
  programs : ProgramSet
  current : State
  subgoal : State
  horizon : UInt32
  action : Option Action
  shown : List Signature
  mode : Mode
  deriving DecidableEq, Repr

inductive Statement where
  | current (fact : Fact)
  | subgoal (fact : Fact)
  | action (action : Action)
  | plan
  | shown (signature : Signature)
  deriving DecidableEq, Repr

namespace Statement

def line : Statement → List Char
  | .current fact => "current(".toList ++ fact.text.toList ++ ").".toList
  | .subgoal fact => "subgoal(".toList ++ fact.text.toList ++ ").".toList
  | .action chosen => "action(".toList ++ chosen.text.toList ++ ").".toList
  | .plan => "plan.".toList
  | .shown signature => "#show ".toList ++ signature.render.toList ++ ['.']

theorem line_current (fact : Fact) :
    (current fact).line = "current(".toList ++ fact.text.toList ++ ").".toList := rfl

theorem line_subgoal (fact : Fact) :
    (subgoal fact).line = "subgoal(".toList ++ fact.text.toList ++ ").".toList := rfl

theorem line_action (chosen : Action) :
    (action chosen).line = "action(".toList ++ chosen.text.toList ++ ").".toList := rfl

theorem line_shown (signature : Signature) :
    (shown signature).line = "#show ".toList ++ signature.render.toList ++ ['.'] := rfl

def between? (first last text : List Char) : Option (List Char) :=
  if first.isPrefixOf text ∧ last.isSuffixOf (text.drop first.length) then
    some ((text.drop first.length).take (text.length - first.length - last.length))
  else none

def signature? (text : List Char) : Option Signature :=
  let arity := (text.reverse.takeWhile Char.isDigit).reverse
  let name := text.take (text.length - arity.length - 1)
  if arity.isEmpty ∨ name ++ '/' :: arity ≠ text then none
  else some ⟨String.ofList name, Term.natOfDigits arity⟩

def ofLine? (line : List Char) : Option Statement :=
  if line = "plan.".toList then some .plan
  else
    let closing := ").".toList
    ((between? "current(".toList closing line).map fun text => .current ⟨String.ofList text⟩) <|>
      ((between? "subgoal(".toList closing line).map fun text => .subgoal ⟨String.ofList text⟩) <|>
      ((between? "action(".toList closing line).map fun text => .action ⟨String.ofList text⟩) <|>
      (((between? "#show ".toList ['.'] line).bind signature?).map .shown)

end Statement

namespace Request

def shows (request : Request) (signature : Signature) : Bool := signature ∈ request.shown

def statements (request : Request) : List Statement :=
  request.current.toList.map .current ++ request.subgoal.toList.map .subgoal ++
    request.action.toList.map .action ++
    (if request.mode = .optimize then [.plan] else []) ++ request.shown.map .shown

def programText (request : Request) : String :=
  String.ofList (request.statements.flatMap fun statement => statement.line ++ ['\n'])

end Request

end DeclarativeMdp
