import DeclarativeMdp.Trajectory.Snapshot
import Mathlib.Data.Nat.Digits.Defs

set_option autoImplicit false

namespace DeclarativeMdp.Snapshot

structure IsWord (bytes : List UInt8) (n : Nat) : Prop where
  eight : bytes.length = 8
  value : Nat.ofDigits 256 (bytes.map UInt8.toNat) = n

def IsText (bytes : List UInt8) (text : String) : Prop :=
  ∃ size, bytes = size ++ Text.toBytes text ∧ IsWord size (Text.toBytes text).length

section

variable {α : Type} (form : List UInt8 → α → Prop)

inductive AreItems : List UInt8 → List α → Prop
  | nil : AreItems [] []
  | cons {front back : List UInt8} {a : α} {as : List α} (first : form front a)
      (rest : AreItems back as) : AreItems (front ++ back) (a :: as)

def IsList (bytes : List UInt8) (items : List α) : Prop :=
  ∃ size body, bytes = size ++ body ∧ IsWord size items.length ∧ AreItems form body items

inductive IsOption : List UInt8 → Option α → Prop
  | absent : IsOption [0] none
  | present {bytes : List UInt8} {a : α} (value : form bytes a) : IsOption (1 :: bytes) (some a)

end

def IsFact (bytes : List UInt8) (fact : Fact) : Prop := IsText bytes fact.text

def IsAction (bytes : List UInt8) (action : Action) : Prop := IsText bytes action.text

def IsReward (bytes : List UInt8) (reward : Reward) : Prop := IsWord bytes reward.bits.toNat

-- A list of facts stands for the set of them, in whatever order they are.
def IsState (bytes : List UInt8) (state : State) : Prop :=
  ∃ facts, IsList IsFact bytes facts ∧ state = .ofList facts

def IsTrajectory (bytes : List UInt8) (run : Trajectory) : Prop :=
  ∃ states actions rewards, bytes = states ++ (actions ++ rewards) ∧
    IsList IsState states run.states ∧ IsList IsAction actions run.actions ∧
    IsList (IsOption IsReward) rewards run.rewards

end DeclarativeMdp.Snapshot
