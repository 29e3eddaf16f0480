import DeclarativeMdp.Proofs.BlocksWorld.Search
import DeclarativeMdp.Proofs.BlocksWorld.Buildable

set_option autoImplicit false

namespace DeclarativeMdp.BlocksWorld.World

variable {w v u : World} {goal : State}

def Walk : Nat → World → World → Prop
  | 0, world, last => world.Alike last
  | count + 1, world, last =>
    ∃ move, world.Feasible move ∧ Walk count (world.apply move) last

theorem Alike.rfl : w.Alike w := fun _ => .rfl

theorem Alike.trans (left : w.Alike v) (right : v.Alike u) : w.Alike u :=
  fun fluent => (left fluent).trans (right fluent)

theorem Alike.feasible {move : Move} (alike : w.Alike v) (feasible : w.Feasible move) :
    v.Feasible move := by
  have same : w.Holds = v.Holds := funext fun fluent => propext (alike fluent)
  unfold Feasible at feasible ⊢
  rwa [← same, ← alike.blocks_eq]

theorem Walk.of_alike {count : Nat} (walk : Walk count w u) (buildable : Buildable w.Holds)
    (alike : w.Alike v) : Walk count v u := by
  induction count generalizing w v with
  | zero => exact alike.symm.trans walk
  | succ count ih =>
    obtain ⟨move, feasible, rest⟩ := walk
    have other := buildable.of_alike alike
    have next : (w.apply move).Alike (v.apply move) := alike.apply buildable.proper other.proper
    exact ⟨move, alike.feasible feasible, ih rest (buildable.apply feasible) next⟩

theorem Walk.append {count more : Nat} (walk : Walk count w v) (buildable : Buildable w.Holds)
    (further : Walk more v u) : Walk (count + more) w u := by
  induction count generalizing w with
  | zero =>
    rw [Nat.zero_add]
    exact further.of_alike (buildable.of_alike walk) (Alike.symm walk)
  | succ count ih =>
    obtain ⟨move, feasible, rest⟩ := walk
    rw [Nat.succ_add]
    exact ⟨move, feasible, ih rest (buildable.apply feasible)⟩

theorem Walk.buildable {count : Nat} (walk : Walk count w v) (buildable : Buildable w.Holds) :
    Buildable v.Holds := by
  induction count generalizing w with
  | zero => exact buildable.of_alike walk
  | succ count ih =>
    obtain ⟨move, feasible, rest⟩ := walk
    exact ih rest (buildable.apply feasible)

theorem Walk.blocks_eq {count : Nat} (walk : Walk count w v) (buildable : Buildable w.Holds) :
    v.blocks = w.blocks := by
  induction count generalizing w with
  | zero => exact (Alike.blocks_eq walk).symm
  | succ count ih =>
    obtain ⟨move, feasible, rest⟩ := walk
    rw [ih rest (buildable.apply feasible), buildable.blocks_apply feasible]

-- By induction on the number of moves: the way back starts where the way there ends.
theorem Walk.reverse {count : Nat} (walk : Walk count w v) (buildable : Buildable w.Holds) :
    Walk count v w := by
  induction count generalizing w with
  | zero => exact Alike.symm walk
  | succ count ih =>
    obtain ⟨move, feasible, rest⟩ := walk
    obtain ⟨z, -, possible, alike⟩ := buildable.exists_back feasible
    have next := buildable.apply feasible
    have last : Walk 1 (w.apply move) w := ⟨_, possible, alike⟩
    exact (ih rest next).append (rest.buildable next) last

theorem Walk.within {count : Nat} (walk : Walk count w v) (buildable : Buildable w.Holds)
    (reached : v.Reaches goal) : ∃ fewer, fewer ≤ count ∧ Within goal fewer w := by
  by_cases here : w.Reaches goal
  · exact ⟨0, Nat.zero_le _, here⟩
  · induction count generalizing w with
    | zero => exact absurd ((Alike.reaches_iff walk).2 reached) here
    | succ count ih =>
      obtain ⟨move, feasible, rest⟩ := walk
      have possible : move ∈ w.moves goal := buildable.proper.mem_moves.2 ⟨here, feasible⟩
      by_cases next : (w.apply move).Reaches goal
      · exact ⟨1, by omega, move, possible, next⟩
      · obtain ⟨fewer, short, within⟩ := ih rest (buildable.apply feasible) next
        exact ⟨fewer + 1, by omega, move, possible, within⟩

theorem Within.exists_walk {count : Nat} (within : Within goal count w) (proper : w.Proper) :
    ∃ v, Walk count w v ∧ v.Reaches goal := by
  induction count generalizing w with
  | zero => exact ⟨w, Alike.rfl, within⟩
  | succ count ih =>
    obtain ⟨move, possible, later⟩ := within
    obtain ⟨v, walk, reached⟩ := ih later (proper.apply possible)
    exact ⟨v, ⟨move, (proper.mem_moves.1 possible).2, walk⟩, reached⟩

end DeclarativeMdp.BlocksWorld.World
