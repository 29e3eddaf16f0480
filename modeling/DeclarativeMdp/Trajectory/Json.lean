import DeclarativeMdp.Json.Decode
import DeclarativeMdp.Json.Writer
import DeclarativeMdp.Trajectory.Basic

set_option autoImplicit false

namespace DeclarativeMdp

open Json

def Fact.toJson (fact : Fact) : String := writeString fact.text

def Fact.ofJson? (value : Json) : Option Fact := value.string?.map Fact.mk

def Action.toJson (action : Action) : String := writeString action.text

def Action.ofJson? (value : Json) : Option Action := value.string?.map Action.mk

def State.toJson (state : State) : String :=
  writeObject [("facts", writeArray (state.toList.map Fact.toJson))]

def State.ofJson? (value : Json) : Option State := do
  match ← value.record? ["facts"] with
  | [facts] => (facts.list? Fact.ofJson?).map .ofList
  | _ => none

def AvailableActions.toJson (actions : AvailableActions) : String :=
  writeObject [("actions", writeArray (actions.toList.map Action.toJson))]

def AvailableActions.ofJson? (value : Json) : Option AvailableActions := do
  match ← value.record? ["actions"] with
  | [actions] => (actions.list? Action.ofJson?).map .ofList
  | _ => none

namespace Trajectory

def toJson (run : Trajectory) : String :=
  writeObject [
    ("states", writeArray (run.states.map State.toJson)),
    ("actions", writeArray (run.actions.map Action.toJson)),
    ("rewards", writeArray (run.rewards.map (writeOption fun reward => writeFloat reward.value)))]

-- The run of a document. Its parts need not fit together.
def ofJson? (value : Json) : Option Trajectory := do
  match ← value.record? ["states", "actions", "rewards"] with
  | [states, actions, rewards] =>
    some ⟨← states.list? State.ofJson?, ← actions.list? Action.ofJson?,
      ← rewards.list? (option? fun reward => reward.float?.map Reward.ofFloat)⟩
  | _ => none

end Trajectory

end DeclarativeMdp
