import DeclarativeMdp.Error
import DeclarativeMdp.State

set_option autoImplicit false

namespace DeclarativeMdp.BlocksWorld

structure World where
  -- A block and the block it stands on; no block comes twice.
  on : List (String × String)
  onTable : List String
  clear : List String
  deriving DecidableEq, Repr, Inhabited

structure Move where
  block : String
  target : String
  deriving DecidableEq, Repr, Inhabited

def table : String := "table"

def Move.term (move : Move) : Term :=
  .function "move" [.symbol move.block, .symbol move.target]

namespace World

def empty : World := ⟨[], [], []⟩

def below? (world : World) (block : String) : Option String :=
  (world.on.find? (·.1 = block)).map (·.2)

def lift (world : World) (block : String) : World :=
  { world with on := world.on.filter (·.1 ≠ block) }

def stack (world : World) (block target : String) : World :=
  { world with on := (block, target) :: (world.lift block).on }

def addFact (world : World) (fact : Fact) : Except Error World := do
  let term ← readAtom fact.text
  match term.name?, term.args with
  | some "on", [x, y] => return world.stack x.render y.render
  | some "ontable", [x] => return { world with onTable := x.render :: world.onTable }
  | some "clear", [x] => return { world with clear := x.render :: world.clear }
  | _, _ => throw (.malformedAtom fact.text .notFluent)

/-- The world that a state describes. Of several blocks that one block stands on, the last in the
order of the facts counts. -/
def ofState (state : State) : Except Error World := state.toList.foldlM addFact empty

def toState (world : World) : State :=
  .ofList (
    (world.on.map fun (x, y) => .ofText ("on(" ++ x ++ "," ++ y ++ ")")) ++
    (world.onTable.map fun x => .ofText ("ontable(" ++ x ++ ")")) ++
    (world.clear.map fun x => .ofText ("clear(" ++ x ++ ")")))

def Reaches (world : World) (goal : State) : Prop := State.Satisfies world.toState goal

instance (world : World) (goal : State) : Decidable (world.Reaches goal) :=
  inferInstanceAs (Decidable (State.Satisfies _ _))

def blocks (world : World) : List String :=
  (SortedSet.ofList (world.on.flatMap (fun (x, y) => [x, y]) ++ world.onTable)).toList

def movesOf (world : World) (blocks : List String) (block : String) : List Move :=
  if block ∈ world.clear then
    (if (world.below? block).isSome then [⟨block, table⟩] else []) ++
      (blocks.filter fun target =>
        block ≠ target ∧ target ∈ world.clear ∧ world.below? block ≠ some target).map (⟨block, ·⟩)
  else []

def moves (world : World) (goal : State) : List Move :=
  if world.Reaches goal then [] else world.blocks.flatMap (world.movesOf world.blocks)

def apply (world : World) (move : Move) : World :=
  let clear := (world.below? move.block).toList ++ world.clear
  let onTable := world.onTable.filter (· ≠ move.block)
  if move.target = table then
    ⟨(world.lift move.block).on, move.block :: onTable, clear⟩
  else
    ⟨(world.stack move.block move.target).on, onTable, clear.filter (· ≠ move.target)⟩

end World

end DeclarativeMdp.BlocksWorld
