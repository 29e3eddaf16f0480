import DeclarativeMdp.Decimal.Layout
import DeclarativeMdp.Duration
import DeclarativeMdp.State
import DeclarativeMdp.Path
import DeclarativeMdp.Text.Quoted

set_option autoImplicit false

namespace DeclarativeMdp

inductive Query where
  | availableActions
  | transition
  | optimalReturn
  deriving DecidableEq, Repr

def Query.name : Query → String
  | .availableActions => "available-actions"
  | .transition => "transition"
  | .optimalReturn => "optimal-return"

inductive AtomFlaw where
  | unreadable (misreading : Term.Misreading)
  | notFluent
  | missing
  | repeated (signature : Signature)
  | notInteger
  deriving DecidableEq, Repr

def AtomFlaw.message : AtomFlaw → String
  | .unreadable misreading => misreading.message
  | .notFluent => "not a blocks-world fluent"
  | .missing => "atom missing from model"
  | .repeated signature => "more than one " ++ signature.render ++ " atom"
  | .notInteger => "expected an integer argument"

inductive SolverFailure where
  | notStarted (executable : Path) (reason : String)
  | stoppedReading (reason complaint : String)
  | signalled
  | exited (code : Int) (complaint : String)
  | interrupted (result : String)
  | unsupported (horizon : UInt32) (action : Option Action)
  | reported (text : String)
  deriving DecidableEq, Repr

def showAction : Option Action → String
  | none => "None"
  | some action => "Some(Action(" ++ Text.showQuoted action.text ++ "))"

def SolverFailure.message : SolverFailure → String
  | .notStarted executable reason => "failed to spawn " ++ executable.render ++ ": " ++ reason
  | .stoppedReading reason complaint =>
    "clingo stopped reading its input (" ++ reason ++ "): " ++ complaint
  | .signalled => "clingo terminated by a signal"
  | .exited code complaint => "clingo exited with code " ++ toString code ++ ": " ++ complaint
  | .interrupted result => "clingo search interrupted (" ++ result ++ ")"
  | .unsupported horizon action =>
    "blocks world cannot enumerate t=" ++ toString horizon ++ " with action " ++ showAction action
  | .reported text => text

inductive SnapshotFlaw where
  | noInitialState
  | lengths (states actions rewards : Nat)
  | misplacedReward
  deriving DecidableEq, Repr

def SnapshotFlaw.message : SnapshotFlaw → String
  | .noInitialState => "no initial state"
  | .lengths states actions rewards =>
    toString states ++ " states, " ++ toString actions ++ " actions, " ++
      toString rewards ++ " rewards"
  | .misplacedReward => "reward sentinel misplaced"

inductive Error where
  | modelNotFound (query : Query)
  | ambiguousModel (query : Query) (count : Nat)
  | malformedAtom (atom : String) (flaw : AtomFlaw)
  | missingProgram (path : Path)
  | timedOut (budget : Duration)
  | illegalAction (action : Action)
  | invalidDiscount (rate : Float)
  | invalidTimeLimit (seconds : Float)
  | solver (failure : SolverFailure)
  | corruptSnapshot (flaw : SnapshotFlaw)
  | unreadableSnapshot
  | unreadableDocument
  -- The value has no answer to the question, such as the last of no states.
  | undefinedAnswer
  deriving DecidableEq, Repr

def Error.message? : Error → Option String
  | .modelNotFound query => some ("solver produced no model for the " ++ query.name ++ " query")
  | .ambiguousModel query count =>
    some ("solver produced " ++ toString count ++ " models for the " ++ query.name ++
      " query, expected exactly one")
  | .malformedAtom atom flaw => some ("malformed atom `" ++ atom ++ "`: " ++ flaw.message)
  | .missingProgram path => some ("program file not found: " ++ path.render)
  | .timedOut budget => some ("solver search interrupted after " ++ budget.render)
  | .illegalAction action =>
    some ("action `" ++ action.text ++ "` is not executable in the current state")
  | .invalidDiscount rate =>
    some ("discount rate " ++ Decimal.Layout.message.write rate ++ " is outside [0, 1]")
  | .invalidTimeLimit seconds =>
    some ("time limit " ++ Decimal.Layout.message.write seconds ++
      " is not a valid number of seconds")
  | .solver failure => some ("solver error: " ++ failure.message)
  | .corruptSnapshot flaw => some ("corrupt trajectory snapshot: " ++ flaw.message)
  | .unreadableSnapshot | .unreadableDocument | .undefinedAnswer => none

def readAtom (text : String) : Except Error Term :=
  (Term.parse text).mapError fun misreading => .malformedAtom text (.unreadable misreading)

def Fact.parse (text : String) : Except Error Fact := Fact.ofTerm <$> readAtom text

def Action.parse (text : String) : Except Error Action := Action.ofTerm <$> readAtom text

end DeclarativeMdp
