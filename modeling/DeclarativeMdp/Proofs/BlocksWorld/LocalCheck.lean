import DeclarativeMdp.Proofs.BlocksWorld.Legality
import DeclarativeMdp.Proofs.BlocksWorld.Replay

set_option autoImplicit false

namespace DeclarativeMdp

def Action.Canonical (action : Action) : Prop := ∃ text, Action.parse text = .ok action

theorem Action.Canonical.exists_term {action : Action} (canonical : action.Canonical) :
    ∃ t, action.term = .ok t ∧ action = .ofTerm t := by
  obtain ⟨text, parsed⟩ := canonical
  obtain ⟨t, named, rfl⟩ := exists_wellNamed parsed
  exact ⟨t, Action.term_ofTerm named, rfl⟩

theorem Action.canonical_ofTerm {t : Term} (named : t.WellNamed) : (Action.ofTerm t).Canonical :=
  ⟨t.render, parse_render named⟩

namespace BlocksWorld

variable {engine other : Engine BlocksWorld} {w : World} {action : Action}

theorem InWorld.available_of_stepAnswer {successor : Engine.Successor} (inWorld : InWorld engine w)
    (canonical : action.Canonical) (stepped : engine.stepAnswer action = .ok successor) :
    action ∈ engine.available := by
  obtain ⟨t, meant, rfl⟩ := canonical.exists_term
  obtain ⟨move, possible, again, -⟩ := inWorld.stepAnswer stepped
  rw [inWorld.available, World.mem_offered]
  exact ⟨move, possible, by rw [Except.ok.inj (meant.symm.trans again)]⟩

inductive SameOutcome (engine other : Engine BlocksWorld) (action : Action) : Prop
  | accepted {reward : Float} (left : (engine.transition action).result = .ok reward)
      (right : (other.transition action).result = .ok reward)
  | failed {error error' : Error} (left : (engine.transition action).result = .error error)
      (right : (other.transition action).result = .error error')

theorem InWorld.sameOutcome (inWorld : InWorld engine w) (samePlace : engine.SamePlace other)
    (canonical : action.Canonical) :
    SameOutcome engine other action ∧
      (engine.transition action).next.SamePlace (other.transition action).next := by
  cases stepped : engine.stepAnswer action with
  | ok successor =>
    have known := inWorld.available_of_stepAnswer canonical stepped
    have asked : ¬ engine.Refuses action := fun refused => refused.2 known
    have asked' : ¬ other.Refuses action := fun refused => refused.2 (samePlace.available ▸ known)
    obtain ⟨left, right, next⟩ := samePlace.transition_advanced historyFree asked asked' stepped
    exact ⟨.accepted left right, next⟩
  | error error =>
    obtain ⟨_, left⟩ := Engine.exists_error_of_stepAnswer stepped
    obtain ⟨_, right⟩ :=
      Engine.exists_error_of_stepAnswer
        ((samePlace.stepAnswer_eq historyFree action).symm.trans stepped)
    have back := Engine.transition_samePlace_of_error left
    have back' := Engine.transition_samePlace_of_error right
    exact ⟨.failed left right, back.trans (samePlace.trans back'.symm)⟩

theorem performAll_samePlace (reachable : engine.Reachable) (samePlace : engine.SamePlace other)
    (actions : List Action) (canonical : ∀ action ∈ actions, action.Canonical) :
    (engine.performAll (actions.map .transition)).SamePlace
      (other.performAll (actions.map .transition)) := by
  induction actions generalizing engine other with
  | nil => exact samePlace
  | cons action rest ih =>
    obtain ⟨first, later⟩ := List.forall_mem_cons.1 canonical
    obtain ⟨w, inWorld⟩ := inWorld_of_reachable reachable
    exact ih (reachable.performed (.transition action))
      (inWorld.sameOutcome samePlace first).2 later

theorem check_agrees_with_solver {initial goal : State} {programs : ProgramSet}
    {solver : BlocksWorld} {config : Config}
    (made : (Engine.create initial goal programs solver config).result = .ok engine)
    (check : Bool) (another : BlocksWorld) :
    ∃ twin, (Engine.create initial goal programs another
        { config with checkLegality := check }).result = .ok twin ∧
      ∀ (played : List Action) (action : Action),
        (∀ each ∈ action :: played, each.Canonical) →
          let left := engine.performAll (played.map .transition)
          let right := twin.performAll (played.map .transition)
          left.SamePlace right ∧ SameOutcome left right action ∧
            (left.transition action).next.SamePlace (right.transition action).next := by
  have valid : ({ config with checkLegality := check } : Config).validate = .ok () :=
    (Engine.create_eq_ok_iff.1 made).1
  obtain ⟨twin, created, -, samePlace⟩ := exists_samePlace made valid another
  refine ⟨twin, created, fun played action canonical => ?_⟩
  obtain ⟨last, before⟩ := List.forall_mem_cons.1 canonical
  have reachable := Engine.Reachable.created made
  have along := performAll_samePlace reachable samePlace.symm played before
  obtain ⟨w, inWorld⟩ := inWorld_of_reachable (reachable.performedAll (played.map .transition))
  obtain ⟨sameOutcome, next⟩ := inWorld.sameOutcome along last
  exact ⟨along, sameOutcome, next⟩

theorem check_agrees_with_solver_tower :
    ∃ engine twin : Engine BlocksWorld,
      (Engine.create (tower "a" "b") (reversed "a" "b") default start .standard).result =
          .ok engine ∧
        (Engine.create (tower "a" "b") (reversed "a" "b") default start
          { Config.standard with checkLegality := false }).result = .ok twin ∧
        SameOutcome (engine.performAll [.transition (.ofTerm (Move.term ⟨"a", table⟩))])
          (twin.performAll [.transition (.ofTerm (Move.term ⟨"a", table⟩))])
          (.ofTerm (Move.term ⟨"a", "a"⟩)) := by
  have a : IsConstant "a" := by decide
  have b : IsConstant "b" := by decide
  obtain ⟨engine, made, -⟩ := exists_tower a.isBlock b.isBlock (by decide) default
  obtain ⟨twin, created, agrees⟩ := check_agrees_with_solver made false start
  have canonical {y : String} (named : IsConstant y) :
      (Action.ofTerm (Move.term ⟨"a", y⟩)).Canonical :=
    Action.canonical_ofTerm ⟨.inr (by decide), a.wellNamed, named.wellNamed, trivial⟩
  obtain ⟨-, sameOutcome, -⟩ := agrees [.ofTerm (Move.term ⟨"a", table⟩)] _
    (List.forall_mem_cons.2 ⟨canonical a, List.forall_mem_singleton.2 (canonical isConstant_table)⟩)
  exact ⟨engine, twin, made, created, sameOutcome⟩

end BlocksWorld

end DeclarativeMdp
