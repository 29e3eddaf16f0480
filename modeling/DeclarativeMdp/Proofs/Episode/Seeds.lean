import DeclarativeMdp.Proofs.Episode.Policy
import DeclarativeMdp.Proofs.Random.Streams
import Mathlib.Logic.Function.Basic

set_option autoImplicit false

namespace DeclarativeMdp

namespace Generator

variable {g : Generator}

theorem seed_forEpisode (g : Generator) (episode : UInt64) :
    (g.forEpisode episode).seed = g.seed + episode * episodeStride := rfl

-- The stride is odd, so it has an inverse, and no two of its multiples are the same.
def strideInverse : UInt64 := 0xF1DE83E19937733D

theorem episodeStride_mul_inverse : episodeStride * strideInverse = 1 := by decide

theorem strideInverse_mul_stride : strideInverse * episodeStride = 1 := by decide

def episodeOf (g : Generator) (seed : UInt64) : UInt64 := (seed - g.seed) * strideInverse

theorem episodeOf_seed (g : Generator) (episode : UInt64) :
    g.episodeOf (g.forEpisode episode).seed = episode := by
  have apart : g.seed + episode * episodeStride - g.seed = episode * episodeStride := by
    rw [UInt64.add_comm, UInt64.add_sub_cancel]
  rw [episodeOf, seed_forEpisode, apart, UInt64.mul_assoc, episodeStride_mul_inverse,
    UInt64.mul_one]

theorem seed_episodeOf (g : Generator) (seed : UInt64) :
    (g.forEpisode (g.episodeOf seed)).seed = seed := by
  rw [seed_forEpisode, episodeOf, UInt64.mul_assoc, strideInverse_mul_stride, UInt64.mul_one,
    UInt64.add_comm, UInt64.sub_add_cancel]

theorem bijective_seed (g : Generator) :
    Function.Bijective fun episode => (g.forEpisode episode).seed :=
  Function.bijective_iff_has_inverse.2 ⟨g.episodeOf, g.episodeOf_seed, g.seed_episodeOf⟩

theorem seed_forEpisode_zero (g : Generator) : (g.forEpisode 0).seed = g.seed := by
  rw [seed_forEpisode, UInt64.zero_mul, UInt64.add_zero]

theorem seed_forEpisode_forEpisode (g : Generator) (first second : UInt64) :
    ((g.forEpisode first).forEpisode second).seed = (g.forEpisode (first + second)).seed := by
  simp only [seed_forEpisode]
  rw [UInt64.add_assoc, ← UInt64.add_mul]

end Generator

namespace Episode

open Generator

inductive DuringEpisode (fresh : UniformRandom) (episode : UInt64) : UniformRandom → Prop
  | begun {policy : UniformRandom} (before : Used fresh policy) :
      DuringEpisode fresh episode (Policy.beginEpisode episode policy)
  | asked {policy : UniformRandom} (before : DuringEpisode fresh episode policy) (state : State)
      (available : AvailableActions) :
      DuringEpisode fresh episode (Policy.select state available policy).2
  | shown {policy : UniformRandom} (before : DuringEpisode fresh episode policy) (run : Trajectory)
      (discountRate : Float) : DuringEpisode fresh episode (Policy.observe run discountRate policy)

variable {fresh policy : UniformRandom} {episode : UInt64}

theorem DuringEpisode.seed_eq (during : DuringEpisode fresh episode policy) :
    policy.current.seed = (fresh.base.forEpisode episode).seed := by
  induction during with
  | begun before =>
    obtain ⟨current, rfl⟩ := exists_current before
    rfl
  | @asked policy before state available same =>
    exact (shares_choose available.toList policy.current).seed.trans same
  | shown before run discountRate same => exact same

theorem DuringEpisode.of_run {σ : Type} [Solver σ] (used : Used fresh policy)
    (config : EpisodeConfig) (engine : Engine σ) (episode : UInt64) :
    DuringEpisode fresh episode (run config engine policy episode).next.2 :=
  run_keeps (fun _ state available before => before.asked state available) (.begun used)
    (fun _ run discountRate before => before.shown run discountRate) config engine

theorem episode_seeds_apart (g : Generator) :
    Function.Bijective (fun episode => (g.forEpisode episode).seed) ∧
      (g.forEpisode 0).seed = g.seed ∧
      (∀ first second, ((g.forEpisode first).forEpisode second).seed =
        (g.forEpisode (first + second)).seed) ∧
      ∀ (fresh policy other : UniformRandom) (first second : UInt64), fresh.base = g →
        DuringEpisode fresh first policy → DuringEpisode fresh second other →
          (policy.current.seed = other.current.seed ↔ first = second) := by
  refine ⟨g.bijective_seed, g.seed_forEpisode_zero, g.seed_forEpisode_forEpisode, ?_⟩
  rintro fresh policy other first second rfl during during'
  rw [during.seed_eq, during'.seed_eq]
  exact fresh.base.bijective_seed.injective.eq_iff

def crossroads : Engine Scripted :=
  ⟨∅, ∅, .standard, default, ⟨[]⟩, .ofList [⟨"left"⟩, ⟨"right"⟩], .start ∅⟩

theorem episode_seeds_apart_crossroads :
    let first := (run .standard crossroads (UniformRandom.ofSeed 7) 3).next.2
    let second := (run .standard crossroads first 5).next.2
    DuringEpisode (.ofSeed 7) 3 first ∧ DuringEpisode (.ofSeed 7) 5 second ∧
      first.current.seed ≠ second.current.seed := by
  intro first second
  have used : Used (UniformRandom.ofSeed 7) (.ofSeed 7) := .unused
  have during : DuringEpisode (.ofSeed 7) 3 first := .of_run used .standard crossroads 3
  have during' : DuringEpisode (.ofSeed 7) 5 second :=
    .of_run (used.run .standard crossroads 3) .standard crossroads 5
  obtain ⟨-, -, -, apart⟩ := episode_seeds_apart (.ofSeed 7)
  refine ⟨during, during', fun same => ?_⟩
  exact absurd ((apart (.ofSeed 7) first second 3 5 rfl during during').1 same) (by decide)

end Episode

end DeclarativeMdp
