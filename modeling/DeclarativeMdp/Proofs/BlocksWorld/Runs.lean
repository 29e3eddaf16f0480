import DeclarativeMdp.Proofs.BlocksWorld.Answers
import DeclarativeMdp.Proofs.Engine.Consistency

set_option autoImplicit false

namespace DeclarativeMdp.BlocksWorld

variable {engine : Engine BlocksWorld} {w : World}

structure InWorld (engine : Engine BlocksWorld) (world : World) : Prop where
  read : World.ofState engine.state = .ok world
  available : engine.available = world.offered engine.goal

theorem InWorld.proper (inWorld : InWorld engine w) : w.Proper := World.ofState_proper inWorld.read

theorem InWorld.consulted (inWorld : InWorld engine w) (request : Request) :
    InWorld (engine.consulted request) w := ⟨inWorld.read, inWorld.available⟩

theorem ofState_of_answer {request : Request} {models : List Model}
    (answered : answer request = .ok models) :
    ∃ world, World.ofState request.current = .ok world := by
  obtain ⟨world, read, -⟩ := bind_eq_ok_iff.1 answered
  exact ⟨world, read⟩

theorem create_inWorld {initial goal : State} {programs : ProgramSet} {solver : BlocksWorld}
    {config : Config}
    (made : (Engine.create initial goal programs solver config).result = .ok engine) :
    ∃ world, InWorld engine world := by
  obtain ⟨-, available, resolved, rfl⟩ := Engine.create_eq_ok_iff.1 made
  rw [Engine.resolveAvailable, Engine.ask_result, solve_result] at resolved
  obtain ⟨models, answered, -⟩ := bind_eq_ok_iff.1 resolved
  obtain ⟨world, read⟩ := ofState_of_answer answered
  have offered := resolveAvailable_result read
  rw [Engine.resolveAvailable, Engine.ask_result, solve_result, resolved] at offered
  exact ⟨world, read, Except.ok.inj offered⟩

theorem create_result {initial goal : State} {programs : ProgramSet} {solver : BlocksWorld}
    {config : Config} (valid : config.validate = .ok ()) (read : World.ofState initial = .ok w) :
    (Engine.create initial goal programs solver config).result =
      .ok ⟨initial, goal, config, programs, ⟨solver.queries + 1⟩, w.offered goal,
        .start initial⟩ := by
  exact Engine.create_eq_ok_iff.2 ⟨valid, _, resolveAvailable_result read, rfl⟩

theorem exists_created {initial : State} (read : World.ofState initial = .ok w) (goal : State)
    (programs : ProgramSet) :
    ∃ engine : Engine BlocksWorld,
      (Engine.create initial goal programs start .standard).result = .ok engine ∧
        InWorld engine w ∧ engine.state = initial ∧ engine.goal = goal ∧
        engine.config = .standard := by
  have valid : Config.standard.validate = .ok () := by
    rw [Config.validate, if_pos (by decide)]
  exact ⟨_, create_result valid read, ⟨read, rfl⟩, rfl, rfl, rfl⟩

theorem InWorld.stepAnswer {action : Action} {successor : Engine.Successor}
    (inWorld : InWorld engine w) (stepped : engine.stepAnswer action = .ok successor) :
    ∃ move ∈ w.moves engine.goal, action.term = .ok move.term ∧
      successor = w.successor engine.goal move := by
  cases meant : action.term with
  | error misreading => simp [stepAnswer_of_unreadable inWorld.read meant] at stepped
  | ok t =>
    by_cases possible : ∃ move ∈ w.moves engine.goal, move.term = t
    · obtain ⟨move, possible, rfl⟩ := possible
      rw [stepAnswer_of_mem_moves inWorld.read possible meant] at stepped
      exact ⟨move, possible, rfl, (Except.ok.inj stepped).symm⟩
    · have impossible : ∀ move ∈ w.moves engine.goal, move.term ≠ t :=
        fun move present same => possible ⟨move, present, same⟩
      simp [stepAnswer_of_not_mem_moves inWorld.read meant impossible] at stepped

theorem InWorld.advance {move : Move} (inWorld : InWorld engine w) (action : Action)
    (possible : move ∈ w.moves engine.goal) :
    ∃ world, InWorld (engine.advance action (w.successor engine.goal move)) world ∧
      world.Alike (w.apply move) := by
  have proper := inWorld.proper.apply possible
  obtain ⟨world, read, worldProper, alike⟩ := proper.ofState_toState
  refine ⟨world, ⟨read, ?_⟩, alike⟩
  have same : world.moves engine.goal = (w.apply move).moves engine.goal :=
    alike.moves_eq worldProper proper
  change (w.apply move).offered engine.goal = world.offered engine.goal
  rw [World.offered, World.offered, same]

structure Invariant (P : Engine BlocksWorld → World → Prop) : Prop where
  inWorld : ∀ engine world, P engine world → InWorld engine world
  consulted : ∀ engine world request, P engine world → P (engine.consulted request) world
  advance : ∀ engine world action move, P engine world → move ∈ world.moves engine.goal →
    ∃ next, P (engine.advance action (world.successor engine.goal move)) next

section

variable {P : Engine BlocksWorld → World → Prop}

theorem Invariant.perform (invariant : Invariant P) (holds : P engine w) (operation : Operation) :
    ∃ world, P (engine.perform operation) world := by
  rcases engine.perform_cases operation with
    ⟨-, same⟩ | ⟨request, -, same | ⟨action, successor, -, stepped, moved⟩⟩
  · rw [same]
    exact ⟨w, holds⟩
  · rw [same]
    exact ⟨w, invariant.consulted engine w request holds⟩
  · obtain ⟨move, possible, -, rfl⟩ := (invariant.inWorld engine w holds).stepAnswer stepped
    rw [moved]
    exact invariant.advance _ w action move (invariant.consulted engine w request holds) possible

theorem Invariant.performAll (invariant : Invariant P) (holds : P engine w)
    (operations : List Operation) : ∃ world, P (engine.performAll operations) world := by
  induction operations generalizing engine w with
  | nil => exact ⟨w, holds⟩
  | cons operation rest ih =>
    obtain ⟨world, next⟩ := invariant.perform holds operation
    exact ih next

end

theorem inWorld_invariant : Invariant InWorld where
  inWorld _ _ inWorld := inWorld
  consulted _ _ request inWorld := inWorld.consulted request
  advance _ _ action _ inWorld possible := by
    obtain ⟨world, next, -⟩ := inWorld.advance action possible
    exact ⟨world, next⟩

theorem inWorld_of_reachable (reachable : engine.Reachable) : ∃ world, InWorld engine world := by
  induction reachable with
  | created made => exact create_inWorld made
  | performed before operation ih =>
    obtain ⟨world, inWorld⟩ := ih
    exact inWorld_invariant.perform inWorld operation

theorem InWorld.isTerminal_iff (inWorld : InWorld engine w) :
    engine.isTerminal = true ↔ w.moves engine.goal = [] := by
  rw [Engine.isTerminal_iff, inWorld.available, List.eq_nil_iff_forall_not_mem]
  constructor
  · intro nothing move possible
    exact nothing _ (World.mem_offered.2 ⟨move, possible, rfl⟩)
  · intro nothing action offered
    obtain ⟨move, possible, -⟩ := World.mem_offered.1 offered
    exact nothing move possible

def tower (x y : String) : State :=
  .ofTexts ["clear(" ++ x ++ ")", "on(" ++ x ++ "," ++ y ++ ")", "ontable(" ++ y ++ ")"]

def reversed (x y : String) : State := .ofTexts ["on(" ++ y ++ "," ++ x ++ ")"]

theorem named_tower {x y : String} (xNamed : IsBlock x) (yNamed : IsBlock y) :
    ∀ f ∈ [Fluent.clear x, .on x y, .onTable y], f.Named := by
  simp [Fluent.Named, Fluent.blocks, xNamed, yNamed]

theorem not_satisfies_reversed {x y : String} (xNamed : IsBlock x) (yNamed : IsBlock y)
    (apart : x ≠ y) : ¬ State.Satisfies (tower x y) (reversed x y) := by
  intro reached
  have there : (Fluent.on y x).fact ∈ tower x y :=
    reached _ (SortedSet.mem_toList.2 (SortedSet.mem_ofList.2 (.head _)))
  have named : (Fluent.on y x).Named := by simp [Fluent.Named, Fluent.blocks, xNamed, yNamed]
  have stated := (says_ofList_iff (named_tower xNamed yNamed)).1 ⟨_, there, named.read_fact⟩
  simp [apart] at stated

theorem exists_tower {x y : String} (xNamed : IsBlock x) (yNamed : IsBlock y) (apart : x ≠ y)
    (programs : ProgramSet) :
    ∃ engine : Engine BlocksWorld,
      (Engine.create (tower x y) (reversed x y) programs start .standard).result = .ok engine ∧
        engine.state = tower x y ∧ engine.config = .standard ∧
        .ofTerm (Move.term ⟨x, table⟩) ∈ engine.available := by
  have named := named_tower xNamed yNamed
  obtain ⟨w, read, holds⟩ :=
    World.exists_world_of_fluents [.clear x, .on x y, .onTable y] named (by simp +contextual)
  have proper := World.ofState_proper read
  have written : w.toState = tower x y :=
    World.toState_eq (fun f => (holds f).trans (says_ofList_iff named).symm)
      (canonical_ofList named)
  have away : ¬ w.Reaches (reversed x y) := by
    rw [World.Reaches, written]
    exact not_satisfies_reversed xNamed yNamed apart
  have possible : ⟨x, table⟩ ∈ w.moves (reversed x y) :=
    proper.mem_moves.2 ⟨away, World.feasible_onTable ((holds _).2 (by simp))
      ((holds (.on x y)).2 (by simp))⟩
  obtain ⟨engine, made, inWorld, stands, goal, standard⟩ :=
    exists_created read (reversed x y) programs
  refine ⟨engine, made, stands, standard, ?_⟩
  rw [inWorld.available, goal]
  exact World.mem_offered.2 ⟨_, possible, rfl⟩

theorem resolveAvailable_performAll {initial goal : State} {programs : ProgramSet}
    {solver : BlocksWorld} {config : Config}
    (made : (Engine.create initial goal programs solver config).result = .ok engine)
    (operations : List Operation) :
    (engine.performAll operations).resolveAvailable.result =
      .ok (engine.performAll operations).available := by
  obtain ⟨w, inWorld⟩ :=
    inWorld_of_reachable ((Engine.Reachable.created made).performedAll operations)
  rw [resolveAvailable_result inWorld.read, inWorld.available]

def attempts : List Operation :=
  [.transition ⟨"move(a,table)"⟩, .transition ⟨"move(a,table)"⟩, .transition ⟨"move("⟩,
    .plan (some 0)]

theorem resolveAvailable_performAll_tower :
    ∃ engine : Engine BlocksWorld, engine.state = tower "a" (Term.text "b \"c\nd").render ∧
      (engine.performAll attempts).resolveAvailable.result =
        .ok (engine.performAll attempts).available := by
  have a : IsConstant "a" := by decide
  have quoted : IsBlock (Term.text "b \"c\nd").render := by
    refine ⟨.text "b \"c\nd", ?_, rfl⟩
    rw [Term.WellNamed]
    trivial
  obtain ⟨engine, made, stands, -⟩ := exists_tower a.isBlock quoted (by decide) default
  exact ⟨engine, stands, resolveAvailable_performAll made attempts⟩

end DeclarativeMdp.BlocksWorld
