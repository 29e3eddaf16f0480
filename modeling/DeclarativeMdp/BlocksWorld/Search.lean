import DeclarativeMdp.BlocksWorld.World
import Std.Data.HashSet

set_option autoImplicit false

namespace DeclarativeMdp.BlocksWorld

namespace World

def successors (goal : State) (world : World) : List World :=
  (world.moves goal).map world.apply

-- The worlds whose states were not seen before, each state once, and all states seen by then.
def fresh : Std.HashSet State → List World → List World × Std.HashSet State
  | seen, [] => ([], seen)
  | seen, world :: worlds =>
    let state := world.toState
    if state ∈ seen then fresh seen worlds
    else
      let (rest, seen) := fresh (seen.insert state) worlds
      (world :: rest, seen)

inductive Expansion where
  | exhausted
  | arrived
  | next (seen : Std.HashSet State) (layer : List World)

def expand (goal : State) (seen : Std.HashSet State) (layer : List World) : Expansion :=
  if layer.isEmpty then .exhausted
  else
    let worlds := layer.flatMap (successors goal)
    if worlds.any fun world => decide (world.Reaches goal) then .arrived
    else
      let (layer, seen) := fresh seen worlds
      .next seen layer

-- How many layers a search has expanded by its end. At the goal, this many moves lead there.
structure Ending where
  layers : Nat
  arrived : Bool
  deriving DecidableEq, Repr

def Ending.deeper (ending : Ending) : Ending := { ending with layers := ending.layers + 1 }

def Ending.steps? (ending : Ending) : Option Nat :=
  if ending.arrived then some ending.layers else none

def search (goal : State) : (horizon : Nat) → Std.HashSet State → List World → Ending
  | 0, _, _ => ⟨0, false⟩
  | horizon + 1, seen, layer =>
    match expand goal seen layer with
    | .exhausted => ⟨0, false⟩
    | .arrived => ⟨1, true⟩
    | .next seen layer => (search goal horizon seen layer).deeper

def searchFrom {α : Type} (goal : State) (here : α) (away : Std.HashSet State → List World → α)
    (world : World) : α :=
  if world.Reaches goal then here
  else away (Std.HashSet.emptyWithCapacity.insert world.toState) [world]

def planSearch (goal : State) (horizon : Nat) : World → Ending :=
  searchFrom goal ⟨0, true⟩ (search goal horizon)

def planLength (goal : State) (horizon : Nat) (world : World) : Option Nat :=
  (world.planSearch goal horizon).steps?

end World

def goalReward : Int := 100

def stepReward : Int := -1

-- All steps before the last one earn the same, so that a best plan is a shortest one.
def planReturn : Nat → Int
  | 0 => 0
  | steps + 1 => goalReward + stepReward * steps

end DeclarativeMdp.BlocksWorld
