import DeclarativeMdp.Random.Generator
import DeclarativeMdp.Trajectory.Basic

set_option autoImplicit false

namespace DeclarativeMdp

class Policy (π : Type) where
  beginEpisode : UInt64 → π → π
  select : State → AvailableActions → π → Option Action × π
  observe : Trajectory → Float → π → π

structure UniformRandom where
  base : Generator
  current : Generator
  deriving DecidableEq, Repr

namespace UniformRandom

def ofSeed (seed : UInt64) : UniformRandom := ⟨.ofSeed seed, .ofSeed seed⟩

def reseed (policy : UniformRandom) (episode : UInt64) : UniformRandom :=
  { policy with current := policy.base.forEpisode episode }

instance : Policy UniformRandom where
  beginEpisode episode policy := policy.reseed episode
  select _ available policy :=
    let (chosen, current) := policy.current.choose available.toList
    (chosen, { policy with current := current })
  observe _ _ policy := policy

end UniformRandom

structure Script where
  remaining : List Action
  deriving DecidableEq, Repr

instance : Policy Script where
  beginEpisode _ script := script
  select _ _ script := (script.remaining.head?, ⟨script.remaining.drop 1⟩)
  observe _ _ script := script

inductive Notice where
  | begin (episode : UInt64)
  | observe (length : Nat) (discountRate : Float)
  deriving DecidableEq, Repr

structure Watched (π : Type) where
  policy : π
  notices : List Notice

def Watched.start {π : Type} (policy : π) : Watched π := ⟨policy, []⟩

instance {π : Type} [Policy π] : Policy (Watched π) where
  beginEpisode episode watched :=
    ⟨Policy.beginEpisode episode watched.policy, watched.notices ++ [.begin episode]⟩
  select state available watched :=
    let (chosen, policy) := Policy.select state available watched.policy
    (chosen, ⟨policy, watched.notices⟩)
  observe run discountRate watched :=
    ⟨Policy.observe run discountRate watched.policy,
      watched.notices ++ [.observe run.length discountRate]⟩

end DeclarativeMdp
