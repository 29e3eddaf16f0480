import DeclarativeMdp.Proofs.BlocksWorld.Horizon
import DeclarativeMdp.Proofs.BlocksWorld.Legality

set_option autoImplicit false

namespace DeclarativeMdp.BlocksWorld

variable {engine : Engine BlocksWorld} {w : World} {action : Action}

inductive Failure (engine : Engine BlocksWorld) (action : Action) : Error → Prop
  | refused (unknown : engine.Refuses action) : Failure engine action (.illegalAction action)
  | impossible {t : Term} (asked : ¬ engine.Refuses action) (meant : action.term = .ok t) :
      Failure engine action (.modelNotFound .transition)
  | unreadable {misreading : Term.Misreading} (unchecked : engine.config.checkLegality = false)
      (unread : action.term = .error misreading) :
      Failure engine action (.malformedAtom action.text (.unreadable misreading))

theorem InWorld.unchecked {misreading : Term.Misreading} (inWorld : InWorld engine w)
    (asked : ¬ engine.Refuses action) (unread : action.term = .error misreading) :
    engine.config.checkLegality = false := by
  rw [← Bool.not_eq_true]
  intro checked
  have offered : action ∈ engine.available := by
    by_contra missing
    exact asked ⟨checked, missing⟩
  obtain ⟨s, t, meant, -⟩ := term_of_offered inWorld.proper (inWorld.available ▸ offered)
  simp [unread] at meant

theorem InWorld.failure {error : Error} (inWorld : InWorld engine w)
    (failed : (engine.transition action).result = .error error) : Failure engine action error := by
  by_cases refused : engine.Refuses action
  · rw [Engine.transition_refused refused] at failed
    obtain rfl := Except.error.inj failed
    exact .refused refused
  cases stepped : engine.stepAnswer action with
  | ok successor => simp [(Engine.transition_advanced refused stepped).1] at failed
  | error other =>
    obtain rfl := Except.error.inj ((Engine.transition_failed refused stepped).1.symm.trans failed)
    cases meant : action.term with
    | error misreading =>
      rw [stepAnswer_of_unreadable inWorld.read meant] at stepped
      obtain rfl := Except.error.inj stepped
      exact .unreadable (inWorld.unchecked refused meant) meant
    | ok t =>
      by_cases possible : ∃ move ∈ w.moves engine.goal, move.term = t
      · obtain ⟨move, possible, rfl⟩ := possible
        simp [stepAnswer_of_mem_moves inWorld.read possible meant] at stepped
      · have none : ∀ move ∈ w.moves engine.goal, move.term ≠ t :=
          fun move present same => possible ⟨move, present, same⟩
        rw [stepAnswer_of_not_mem_moves inWorld.read meant none] at stepped
        obtain rfl := Except.error.inj stepped
        exact .impossible refused meant

theorem optimalReturn_failure {horizon : Option UInt32} {error : Error}
    (read : World.ofState engine.state = .ok w)
    (failed : (engine.optimalReturn horizon).result = .error error) :
    error = .modelNotFound .optimalReturn := by
  rw [optimalReturn_result read] at failed
  split at failed
  next => simp at failed
  next => exact (Except.error.inj failed).symm

theorem performAll_fails_only {initial goal : State} {programs : ProgramSet}
    {solver : BlocksWorld} {config : Config}
    (made : (Engine.create initial goal programs solver config).result = .ok engine)
    (operations : List Operation) :
    let last := engine.performAll operations
    (∃ actions, last.resolveAvailable.result = .ok actions) ∧
      (∀ horizon error, (last.optimalReturn horizon).result = .error error →
        error = .modelNotFound .optimalReturn) ∧
      (∀ action error, (last.transition action).result = .error error →
        Failure last action error) ∧
      (∃ history, last.returnHistory = .ok history) ∧
      (last.state.size < 9223372036854775808 →
        last.config.defaultHorizon (.ofNat last.state.size) =
          .ok (last.config.horizonFor last.state.size)) := by
  intro last
  obtain ⟨w, inWorld⟩ :=
    inWorld_of_reachable ((Engine.Reachable.created made).performedAll operations)
  have consistent := (Engine.create_consistent made).performAll operations
  refine ⟨⟨_, resolveAvailable_result inWorld.read⟩, ?_, ?_, ?_, defaultHorizon_eq_ok⟩
  · exact fun horizon error => optimalReturn_failure inWorld.read
  · exact fun action error => inWorld.failure
  · exact consistent.valid.exists_returnHistory _

theorem performAll_fails_only_tower :
    ∃ engine : Engine BlocksWorld, engine.state = tower "a" "b" ∧
      ∀ error, ((engine.performAll attempts).transition ⟨"move("⟩).result = .error error →
        Failure (engine.performAll attempts) ⟨"move("⟩ error := by
  have a : IsConstant "a" := by decide
  have b : IsConstant "b" := by decide
  obtain ⟨engine, made, stands, -⟩ := exists_tower a.isBlock b.isBlock (by decide) default
  obtain ⟨-, -, failure, -⟩ := performAll_fails_only made attempts
  exact ⟨engine, stands, failure ⟨"move("⟩⟩

end DeclarativeMdp.BlocksWorld
