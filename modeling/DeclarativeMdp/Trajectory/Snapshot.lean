import DeclarativeMdp.Text.Utf8
import DeclarativeMdp.Trajectory.Basic

set_option autoImplicit false

/-!
Snapshots of runs. Numbers have eight bytes, the lowest first. A text is its length in bytes and
these, a list is its length and its items, and what may be missing has a byte before it that tells.
-/

namespace DeclarativeMdp.Snapshot

def word (n : UInt64) : List UInt8 :=
  (List.range 8).map fun i => UInt8.ofNat (n.toNat / Nat.pow 256 i)

def count (n : Nat) : List UInt8 := word (UInt64.ofNat n)

def text (value : String) : List UInt8 :=
  let bytes := Text.toBytes value
  count bytes.length ++ bytes

def list {α : Type} (item : α → List UInt8) (items : List α) : List UInt8 :=
  count items.length ++ items.flatMap item

def option {α : Type} (value : α → List UInt8) : Option α → List UInt8
  | none => [0]
  | some a => 1 :: value a

def state (value : State) : List UInt8 := list (fun fact => text fact.text) value.toList

def trajectory (run : Trajectory) : List UInt8 :=
  list state run.states ++ list (fun action => text action.text) run.actions ++
    list (option fun reward => word reward.bits) run.rewards

abbrev Read (α : Type) := List UInt8 → Option (α × List UInt8)

def readWord : Read UInt64
  | a :: b :: c :: d :: e :: f :: g :: h :: bs =>
    let value := [a, b, c, d, e, f, g, h].foldr (fun byte n => byte.toNat + 256 * n) 0
    some (UInt64.ofNat value, bs)
  | _ => none

def readText : Read String := fun bs => do
  let (length, bs) ← readWord bs
  let (front, rest) := bs.splitAt length.toNat
  if front.length = length.toNat then some (← Text.ofBytes? front, rest) else none

def readItems {α : Type} (item : Read α) : Nat → Read (List α)
  | 0, bs => some ([], bs)
  | n + 1, bs => do
    let (a, bs) ← item bs
    let (rest, bs) ← readItems item n bs
    some (a :: rest, bs)

def readList {α : Type} (item : Read α) : Read (List α) := fun bs => do
  let (length, bs) ← readWord bs
  readItems item length.toNat bs

def readOption {α : Type} (value : Read α) : Read (Option α)
  | 0 :: bs => some (none, bs)
  | 1 :: bs => (value bs).map fun (a, bs) => (some a, bs)
  | _ => none

def readFact : Read Fact := fun bs => (readText bs).map fun (value, bs) => (⟨value⟩, bs)

def readAction : Read Action := fun bs => (readText bs).map fun (value, bs) => (⟨value⟩, bs)

def readReward : Read Reward := fun bs => (readWord bs).map fun (bits, bs) => (⟨bits⟩, bs)

def readState : Read State := fun bs =>
  (readList readFact bs).map fun (facts, bs) => (.ofList facts, bs)

def readTrajectory : Read Trajectory := fun bs => do
  let (states, bs) ← readList readState bs
  let (actions, bs) ← readList readAction bs
  let (rewards, bs) ← readList (readOption readReward) bs
  some (⟨states, actions, rewards⟩, bs)

end DeclarativeMdp.Snapshot

namespace DeclarativeMdp.Trajectory

def toBytes (run : Trajectory) : List UInt8 := Snapshot.trajectory run

def ofBytes (bytes : List UInt8) : Except Error Trajectory :=
  match Snapshot.readTrajectory bytes with
  | none => .error .unreadableSnapshot
  | some (run, _) => do
    run.check
    return run

end DeclarativeMdp.Trajectory
