import DeclarativeMdp.Engine.Basic
import DeclarativeMdp.Proofs.Except
import DeclarativeMdp.Proofs.Model

set_option autoImplicit false

namespace DeclarativeMdp

inductive Operation where
  | transition (action : Action)
  | resolve
  | plan (horizon : Option UInt32)
  deriving DecidableEq, Repr

namespace Engine

variable {σ : Type}

def Refuses (engine : Engine σ) (action : Action) : Prop :=
  engine.config.checkLegality = true ∧ action ∉ engine.available

instance (engine : Engine σ) (action : Action) : Decidable (engine.Refuses action) :=
  inferInstanceAs (Decidable (_ ∧ _))

def horizonOr (engine : Engine σ) (horizon : Option UInt32) : UInt32 :=
  horizon.getD (engine.config.horizonFor engine.state.size)

@[simp] theorem horizonOr_some (engine : Engine σ) (horizon : UInt32) :
    engine.horizonOr (some horizon) = horizon := rfl

def sent (engine : Engine σ) : Operation → Option Request
  | .transition action =>
    if engine.Refuses action then none else some (engine.transitionRequest action)
  | .resolve => some engine.availableRequest
  | .plan horizon => some (engine.planRequest (engine.horizonOr horizon))

def AgreesWith {τ : Type} (engine : Engine σ) (other : Engine τ) : Prop :=
  engine.state = other.state ∧ engine.goal = other.goal ∧ engine.config = other.config ∧
    engine.programs = other.programs ∧ engine.available = other.available ∧
    engine.trajectory = other.trajectory

theorem AgreesWith.rfl {engine : Engine σ} : engine.AgreesWith engine :=
  ⟨Eq.refl _, Eq.refl _, Eq.refl _, Eq.refl _, Eq.refl _, Eq.refl _⟩

variable [Solver σ]

def perform (engine : Engine σ) : Operation → Engine σ
  | .transition action => (engine.transition action).next
  | .resolve => engine.resolveAvailable.next
  | .plan horizon => (engine.optimalReturn horizon).next

def performAll (engine : Engine σ) (operations : List Operation) : Engine σ :=
  operations.foldl perform engine

inductive Reachable : Engine σ → Prop
  | created {initial goal : State} {programs : ProgramSet} {solver : σ} {config : Config}
      {engine : Engine σ}
      (made : (create initial goal programs solver config).result = .ok engine) :
      Reachable engine
  | performed {engine : Engine σ} (before : Reachable engine) (operation : Operation) :
      Reachable (engine.perform operation)

theorem Reachable.performedAll {engine : Engine σ} (before : engine.Reachable)
    (operations : List Operation) : (engine.performAll operations).Reachable := by
  induction operations generalizing engine with
  | nil => exact before
  | cons operation rest ih => exact ih (before.performed operation)

omit [Solver σ] in
theorem isTerminal_iff {engine : Engine σ} :
    engine.isTerminal = true ↔ ∀ action, action ∉ engine.available := by
  rw [isTerminal, SortedSet.isEmpty, List.isEmpty_iff, List.eq_nil_iff_forall_not_mem]
  rfl

omit [Solver σ] in
theorem not_isTerminal_of_mem {engine : Engine σ} {action : Action}
    (offered : action ∈ engine.available) : engine.isTerminal = false :=
  Bool.eq_false_iff.2 fun nothing => isTerminal_iff.1 nothing action offered

theorem ask_next {α : Type} (engine : Engine σ) (request : Request) (answered : Nat → Event)
    (judge : List Model → Except Error α) :
    (engine.ask request answered judge).next =
      { engine with solver := (Solver.solve request engine.solver).next } := by
  simp only [ask]
  split <;> rfl

theorem ask_result {α : Type} (engine : Engine σ) (request : Request) (answered : Nat → Event)
    (judge : List Model → Except Error α) :
    (engine.ask request answered judge).result =
      (Solver.solve request engine.solver).result >>= judge := by
  simp only [ask]
  split <;> simp_all [bind, Except.bind]

def stepAnswer (engine : Engine σ) (action : Action) : Except Error Successor :=
  (Solver.solve (engine.transitionRequest action) engine.solver).result >>= fun models =>
    Model.single .transition models >>= Successor.ofModel

theorem stepAnswer_eq_ok_iff {engine : Engine σ} {action : Action} {successor : Successor} :
    engine.stepAnswer action = .ok successor ↔
      ∃ model, (Solver.solve (engine.transitionRequest action) engine.solver).result = .ok [model] ∧
        model.atomsOf Predicates.nextReward =
          [.unary "nextReward" (.number successor.reward)] ∧
        successor.state = .ofList ((model.argumentsOf Predicates.state).map Fact.ofTerm) ∧
        successor.available = executableActions model := by
  have reading (model : Model) : Successor.ofModel model = .ok successor ↔
      model.uniqueNumber Predicates.nextReward = .ok successor.reward ∧
        successor.state = .ofList ((model.argumentsOf Predicates.state).map Fact.ofTerm) ∧
        successor.available = executableActions model := by
    cases successor
    cases number : model.uniqueNumber Predicates.nextReward <;>
      simp [Successor.ofModel, number, bind, Except.bind, pure, Except.pure, eq_comm,
        and_left_comm]
  have counted (model : Model) : model.uniqueNumber ⟨"nextReward", 1⟩ = .ok successor.reward ↔
      model.atomsOf ⟨"nextReward", 1⟩ = [.unary "nextReward" (.number successor.reward)] :=
    Model.uniqueNumber_eq_ok_iff (by decide)
  cases answer : (Solver.solve (engine.transitionRequest action) engine.solver).result with
  | error => simp [stepAnswer, answer, bind, Except.bind]
  | ok models =>
    simp only [stepAnswer, answer, bind, Except.bind, Except.ok.injEq]
    cases single : Model.single .transition models with
    | error =>
      have several (model : Model) : models ≠ [model] := by
        rintro rfl
        simp [Model.single] at single
      simp [several]
    | ok model =>
      rw [Model.single_eq_ok_iff.1 single]
      simp only [reading, List.cons.injEq, and_true, exists_eq_left', Predicates.nextReward,
        counted]

def consulted (engine : Engine σ) (request : Request) : Engine σ :=
  { engine with solver := (Solver.solve request engine.solver).next }

-- All that a transition can do: be refused, fail at the solver's answer, or advance.
theorem transition_refused {engine : Engine σ} {action : Action} (refused : engine.Refuses action) :
    engine.transition action = ⟨.error (.illegalAction action), [], engine⟩ := by
  simp only [transition, if_pos (show _ ∧ _ from refused)]

theorem transition_failed {engine : Engine σ} {action : Action} {error : Error}
    (asked : ¬ engine.Refuses action) (answer : engine.stepAnswer action = .error error) :
    (engine.transition action).result = .error error ∧
      (engine.transition action).next = engine.consulted (engine.transitionRequest action) := by
  have stepped := (engine.ask_result (engine.transitionRequest action) (.answered .transition none)
    fun models => Model.single .transition models >>= Successor.ofModel).trans answer
  simp only [transition, if_neg (show ¬ (_ ∧ _) from asked), stepped, ask_next]
  exact ⟨trivial, rfl⟩

theorem transition_advanced {engine : Engine σ} {action : Action} {successor : Successor}
    (asked : ¬ engine.Refuses action) (answer : engine.stepAnswer action = .ok successor) :
    (engine.transition action).result = .ok (Decimal.ofInteger successor.reward) ∧
      (engine.transition action).next =
        (engine.consulted (engine.transitionRequest action)).advance action successor := by
  have stepped := (engine.ask_result (engine.transitionRequest action) (.answered .transition none)
    fun models => Model.single .transition models >>= Successor.ofModel).trans answer
  simp only [transition, if_neg (show ¬ (_ ∧ _) from asked), stepped, ask_next]
  exact ⟨trivial, rfl⟩

theorem resolveAvailable_next (engine : Engine σ) :
    engine.resolveAvailable.next = engine.consulted engine.availableRequest :=
  ask_next ..

theorem optimalReturn_next (engine : Engine σ) (horizon : Option UInt32) :
    (engine.optimalReturn horizon).next =
      engine.consulted (engine.planRequest (engine.horizonOr horizon)) :=
  ask_next ..

def unasked (initial goal : State) (programs : ProgramSet) (solver : σ) (config : Config) :
    Engine σ :=
  ⟨initial, goal, config, programs, solver, ∅, .start initial⟩

theorem create_eq_ok_iff {initial goal : State} {programs : ProgramSet} {solver : σ}
    {config : Config} {engine : Engine σ} :
    (create initial goal programs solver config).result = .ok engine ↔
      config.validate = .ok () ∧ ∃ available,
        (unasked initial goal programs solver config).resolveAvailable.result = .ok available ∧
          engine = { (unasked initial goal programs solver config).consulted
            (unasked initial goal programs solver config).availableRequest with
              available := available } := by
  unfold create
  cases config.validate with
  | error => simp
  | ok =>
    rw [← resolveAvailable_next]
    simp only [true_and, eq_comm (a := engine)]
    exact map_eq_ok_iff

end Engine

end DeclarativeMdp
