import DeclarativeMdp.Episode.Basic

set_option autoImplicit false

namespace DeclarativeMdp.Episode

variable {σ π : Type} [Solver σ] [Policy π]

inductive Used (fresh : π) : π → Prop
  | unused : Used fresh fresh
  | begun {policy : π} (before : Used fresh policy) (episode : UInt64) :
      Used fresh (Policy.beginEpisode episode policy)
  | asked {policy : π} (before : Used fresh policy) (state : State)
      (available : AvailableActions) : Used fresh (Policy.select state available policy).2
  | shown {policy : π} (before : Used fresh policy) (run : Trajectory) (discountRate : Float) :
      Used fresh (Policy.observe run discountRate policy)

variable {fresh policy : π}

section

variable {Q : π → Prop}
  (asked : ∀ policy state available, Q policy → Q (Policy.select state available policy).2)
include asked

theorem play_keeps (holds : Q policy) (limit : Nat) (engine : Engine σ) :
    Q (play limit engine policy).next.2 := by
  induction limit generalizing engine policy with
  | zero => exact holds
  | succ limit ih =>
    have kept := asked policy engine.state engine.available holds
    unfold Episode.play
    split
    next => exact holds
    next =>
      split
      next policy same =>
        rw [same] at kept
        exact kept
      next action policy same =>
        rw [same] at kept
        dsimp only
        split
        next => exact kept
        next => exact ih kept _

theorem run_keeps {episode : UInt64} (begun : Q (Policy.beginEpisode episode policy))
    (shown : ∀ policy run discountRate, Q policy → Q (Policy.observe run discountRate policy))
    (config : EpisodeConfig) (engine : Engine σ) :
    Q (run config engine policy episode).next.2 := by
  unfold Episode.run
  dsimp only
  split
  next => exact begun
  next =>
    have played := play_keeps asked begun config.maxLength (planned config engine).next
    split
    next => exact played
    next =>
      split
      next => exact shown _ _ _ played
      next => exact shown _ _ _ played

end

theorem Used.run (used : Used fresh policy) (config : EpisodeConfig) (engine : Engine σ)
    (episode : UInt64) : Used fresh (run config engine policy episode).next.2 :=
  run_keeps (fun _ state available before => before.asked state available) (used.begun episode)
    (fun _ run discountRate before => before.shown run discountRate) config engine

def Restarts (fresh : π) : Prop :=
  ∀ policy, Used fresh policy → ∀ episode,
    Policy.beginEpisode episode policy = Policy.beginEpisode episode fresh

theorem run_of_restarts (restarts : Restarts fresh) (used : Used fresh policy)
    (config : EpisodeConfig) (engine : Engine σ) (episode : UInt64) :
    run config engine policy episode = run config engine fresh episode := by
  rw [run, restarts policy used episode]
  rfl

theorem exists_current {fresh policy : UniformRandom} (used : Used fresh policy) :
    ∃ current, policy = ⟨fresh.base, current⟩ := by
  induction used with
  | unused => exact ⟨fresh.current, rfl⟩
  | begun before episode same =>
    obtain ⟨current, rfl⟩ := same
    exact ⟨fresh.base.forEpisode episode, rfl⟩
  | asked before state available same =>
    obtain ⟨current, rfl⟩ := same
    exact ⟨(current.choose available.toList).2, by simp only [Policy.select]⟩
  | shown before run discountRate same => exact same

theorem uniformRandom_restarts (fresh : UniformRandom) : Restarts fresh := by
  intro policy used episode
  obtain ⟨current, rfl⟩ := exists_current used
  rfl

end DeclarativeMdp.Episode
