import DeclarativeMdp.Json.Decode
import DeclarativeMdp.Json.Writer
import DeclarativeMdp.Random.Generator

set_option autoImplicit false

namespace DeclarativeMdp

structure Checkpoint where
  seed : UInt64
  wordPosition : Nat
  deriving DecidableEq, Repr

def Generator.checkpoint (g : Generator) : Checkpoint := ⟨g.seed, g.stream.position⟩

def Generator.resume (checkpoint : Checkpoint) : Generator :=
  let fresh := Generator.ofSeed checkpoint.seed
  ⟨fresh.stream.seek checkpoint.wordPosition, fresh.seed⟩

namespace Checkpoint

open Json

def toJson (checkpoint : Checkpoint) : String :=
  writeObject [
    ("seed", toString checkpoint.seed), ("word_pos", toString checkpoint.wordPosition)]

def ofJson? (value : Json) : Option Checkpoint := do
  match ← value.record? ["seed", "word_pos"] with
  | [seed, position] =>
    some ⟨← seed.uint64?, ← position.below? (Nat.pow 2 128)⟩
  | _ => none

end Checkpoint

end DeclarativeMdp
