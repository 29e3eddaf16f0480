import DeclarativeMdp.Proofs.BlocksWorld.Failures
import DeclarativeMdp.Proofs.Clingo.Searches
import DeclarativeMdp.Proofs.Engine.Consistency

set_option autoImplicit false

namespace DeclarativeMdp

def IsPrinted (text : String) : Prop := ∃ t : Term, t.WellNamed ∧ t.render = text

def Action.Quotable (action : Action) : Prop :=
  Action.ofText action.text = action ∧ Action.parse action.text = .ok action

def Fact.Quotable (fact : Fact) : Prop :=
  Fact.ofText fact.text = fact ∧ Fact.parse fact.text = .ok fact

theorem IsPrinted.normalize {text : String} (printed : IsPrinted text) :
    Text.normalize text = text := by
  obtain ⟨t, named, rfl⟩ := printed
  exact Term.normalize_render named

theorem IsPrinted.map_readAtom {α : Type} {text : String} (printed : IsPrinted text)
    (f : String → α) : (fun t : Term => f t.render) <$> readAtom text = .ok (f text) := by
  obtain ⟨t, named, rfl⟩ := printed
  rw [readAtom_render named]
  rfl

theorem IsPrinted.action {action : Action} (printed : IsPrinted action.text) : action.Quotable :=
  ⟨congrArg Action.mk printed.normalize, printed.map_readAtom Action.mk⟩

theorem IsPrinted.fact {fact : Fact} (printed : IsPrinted fact.text) : fact.Quotable :=
  ⟨congrArg Fact.mk printed.normalize, printed.map_readAtom Fact.mk⟩

-- The arguments are printed as terms that can be read. They need not be such terms: a name may hold
-- the text of a whole term.
def ArgumentsPrinted (atoms : List Term) : Prop :=
  ∀ name arg, .unary name arg ∈ atoms → IsPrinted arg.render

theorem ArgumentsPrinted.append {atoms others : List Term} (left : ArgumentsPrinted atoms)
    (right : ArgumentsPrinted others) : ArgumentsPrinted (atoms ++ others) := by
  intro name arg present
  cases List.mem_append.1 present with
  | inl present => exact left name arg present
  | inr present => exact right name arg present

namespace Engine

variable {σ : Type} [Solver σ] {engine : Engine σ}

def AnswersPrinted (σ : Type) [Solver σ] : Prop :=
  ∀ (request : Request) (solver : σ) (models : List Model),
    (Solver.solve request solver).result = .ok models →
      ∀ model ∈ models, ArgumentsPrinted model.atoms

def ActionsPrinted (available : AvailableActions) : Prop :=
  ∀ action ∈ available, IsPrinted action.text

def FactsPrinted (state : State) : Prop := ∀ fact ∈ state, IsPrinted fact.text

omit [Solver σ] in
theorem actionsPrinted_executableActions {model : Model} (printed : ArgumentsPrinted model.atoms) :
    ActionsPrinted (executableActions model) := by
  intro action offered
  have named : "executable" ≠ "" := by decide
  rw [executableActions, SortedSet.mem_ofList, List.mem_map] at offered
  obtain ⟨arg, present, rfl⟩ := offered
  exact printed _ arg ((Model.mem_argumentsOf named).1 present)

theorem AnswersPrinted.of_stepAnswer {action : Action} {successor : Successor}
    (answersPrinted : AnswersPrinted σ) (stepped : engine.stepAnswer action = .ok successor) :
    FactsPrinted successor.state ∧ ActionsPrinted successor.available := by
  obtain ⟨model, answered, -, state, available⟩ := stepAnswer_eq_ok_iff.1 stepped
  have printed := answersPrinted _ _ _ answered model (List.mem_singleton_self model)
  rw [state, available]
  refine ⟨fun fact there => ?_, actionsPrinted_executableActions printed⟩
  have named : "state" ≠ "" := by decide
  rw [SortedSet.mem_ofList, List.mem_map] at there
  obtain ⟨arg, present, rfl⟩ := there
  exact printed _ arg ((Model.mem_argumentsOf named).1 present)

theorem AnswersPrinted.created {initial goal : State} {programs : ProgramSet} {solver : σ}
    {config : Config} (answersPrinted : AnswersPrinted σ)
    (made : (create initial goal programs solver config).result = .ok engine) :
    ActionsPrinted engine.available := by
  obtain ⟨-, available, resolved, rfl⟩ := create_eq_ok_iff.1 made
  rw [resolveAvailable, ask_result] at resolved
  obtain ⟨models, answered, judged⟩ := bind_eq_ok_iff.1 resolved
  obtain ⟨model, single, rfl⟩ := map_eq_ok_iff.1 judged
  rw [Model.single_eq_ok_iff.1 single] at answered
  exact actionsPrinted_executableActions
    (answersPrinted _ _ _ answered model (List.mem_singleton_self model))

theorem AnswersPrinted.perform (answersPrinted : AnswersPrinted σ) (engine : Engine σ)
    (operation : Operation) :
    (ActionsPrinted engine.available → ActionsPrinted (engine.perform operation).available) ∧
      (FactsPrinted engine.state → FactsPrinted (engine.perform operation).state) := by
  rcases engine.perform_cases operation with
    ⟨-, same⟩ | ⟨request, -, same | ⟨action, successor, -, stepped, moved⟩⟩
  · rw [same]
    exact ⟨id, id⟩
  · rw [same]
    exact ⟨id, id⟩
  · have ⟨state, available⟩ := answersPrinted.of_stepAnswer stepped
    rw [moved]
    exact ⟨fun _ => available, fun _ => state⟩

theorem AnswersPrinted.actionsPrinted (answersPrinted : AnswersPrinted σ)
    (reachable : engine.Reachable) : ActionsPrinted engine.available := by
  induction reachable with
  | created made => exact answersPrinted.created made
  | performed before operation ih => exact (answersPrinted.perform _ operation).1 ih

theorem AnswersPrinted.factsPrinted (answersPrinted : AnswersPrinted σ)
    (written : FactsPrinted engine.state) (operations : List Operation) :
    FactsPrinted (engine.performAll operations).state := by
  induction operations generalizing engine with
  | nil => exact written
  | cons operation rest ih => exact ih ((answersPrinted.perform engine operation).2 written)

structure Echoes (engine : Engine σ) : Prop where
  actions : ∀ action ∈ engine.available, action.Quotable
  facts : ∀ action reward, (engine.transition action).result = .ok reward →
    ∀ operations, ∀ fact ∈ ((engine.transition action).next.performAll operations).state,
      fact.Quotable
  accepted : ∀ action ∈ engine.available, ¬ engine.Refuses (.ofText action.text) ∧
    ∀ other, (engine.transition (.ofText action.text)).result ≠ .error (.illegalAction other)

def IllegalOnlyIfRefused (engine : Engine σ) : Prop :=
  ∀ action, ¬ engine.Refuses action →
    ∀ other, (engine.transition action).result ≠ .error (.illegalAction other)

theorem illegalOnlyIfRefused_of_solver
    (never : ∀ (request : Request) (solver : σ) (other : Action),
      (Solver.solve request solver).result ≠ .error (.illegalAction other)) :
    engine.IllegalOnlyIfRefused := by
  intro action asked other failed
  cases stepped : engine.stepAnswer action with
  | ok successor => simp [(transition_advanced asked stepped).1] at failed
  | error error =>
    obtain rfl := Except.error.inj ((transition_failed asked stepped).1.symm.trans failed)
    -- The other complaints are about the number of the models and about the reward.
    rcases bind_eq_error_iff.1 stepped with unsolved | ⟨models, -, judged⟩
    · exact never _ _ other unsolved
    · rcases bind_eq_error_iff.1 judged with several | ⟨model, -, unread⟩
      · rcases Model.exists_of_single several with none | ⟨count, many⟩
        · exact nomatch none
        · exact nomatch many
      · rcases bind_eq_error_iff.1 unread with number | ⟨reward, -, done⟩
        · obtain ⟨atom, flaw, malformed⟩ := Model.exists_of_uniqueNumber number
          exact nomatch malformed
        · exact nomatch done

theorem AnswersPrinted.echoes (answersPrinted : AnswersPrinted σ) (reachable : engine.Reachable)
    (illegalOnlyIfRefused : engine.IllegalOnlyIfRefused) : engine.Echoes where
  actions action offered := (answersPrinted.actionsPrinted reachable action offered).action
  facts action reward accepted operations fact there := by
    obtain ⟨asked, successor, stepped, -⟩ := transition_eq_ok_iff.1 accepted
    have written : FactsPrinted (engine.transition action).next.state := by
      rw [(transition_advanced asked stepped).2]
      exact (answersPrinted.of_stepAnswer stepped).1
    exact (answersPrinted.factsPrinted written operations fact there).fact
  accepted action offered := by
    rw [(answersPrinted.actionsPrinted reachable action offered).action.1]
    have asked : ¬ engine.Refuses action := fun refused => refused.2 offered
    exact ⟨asked, illegalOnlyIfRefused action asked⟩

end Engine

namespace Clingo

variable {ρ : Type} [Launcher ρ]

theorem answersPrinted : Engine.AnswersPrinted (Clingo ρ) := by
  intro request solver models answered model present name arg there
  obtain ⟨code, report, -, -, shown⟩ := solve_eq_ok_iff.1 answered
  have read : report.calls.flatten.map Witness.model = models.map .ok :=
    mapM_eq_ok_iff.1 (Report.models_eq_ok_iff.2 shown)
  have listed : (.ok model : Except Error Model) ∈ models.map .ok := List.mem_map_of_mem present
  rw [← read] at listed
  obtain ⟨witness, -, outcome⟩ := List.mem_map.1 listed
  have atom : (.ok (.unary name arg) : Except Error Term) ∈ model.atoms.map .ok :=
    List.mem_map_of_mem there
  rw [← (Witness.model_eq_ok_iff.1 outcome).atoms] at atom
  obtain ⟨text, -, parsed⟩ := List.mem_map.1 atom
  have named := wellNamed_of_readAtom parsed
  exact ⟨arg, named.of_mem_args (List.mem_singleton_self arg), rfl⟩

theorem illegalOnlyIfRefused (engine : Engine (Clingo ρ)) : engine.IllegalOnlyIfRefused := by
  refine Engine.illegalOnlyIfRefused_of_solver fun request solver other failed => ?_
  rcases nonTimeout_of_solve failed with nonTimeout | ⟨budget, late⟩
  · exact nomatch nonTimeout
  · exact nomatch late

end Clingo

namespace BlocksWorld

variable {request : Request} {w : World}

theorem isPrinted_number (value : Int64) : IsPrinted (Term.number value).render :=
  ⟨.number value, trivial, rfl⟩

theorem argumentsPrinted_stateAtoms {state : State} {atoms : List Term}
    (read : stateAtoms request state = .ok atoms) : ArgumentsPrinted atoms := by
  intro name arg present
  unfold stateAtoms at read
  split at read
  next =>
    have each := mapM_eq_ok_iff.1 read
    have listed : (.ok (.unary name arg) : Except Error Term) ∈ atoms.map .ok :=
      List.mem_map_of_mem present
    rw [← each] at listed
    obtain ⟨fact, -, rendered⟩ := List.mem_map.1 listed
    obtain ⟨t, parsed, same⟩ := bind_eq_ok_iff.1 rendered
    have named := wellNamed_of_readAtom parsed
    obtain ⟨-, rfl⟩ := Term.unary_inj.1 (Except.ok.inj same)
    exact ⟨t, named, rfl⟩
  next =>
    obtain rfl := Except.ok.inj read
    simp at present

theorem argumentsPrinted_executableAtoms (proper : w.Proper) :
    ArgumentsPrinted (executableAtoms request w) := by
  intro name arg present
  unfold executableAtoms at present
  split at present
  next =>
    obtain ⟨move, possible, same⟩ := List.mem_map.1 present
    obtain ⟨-, rfl⟩ := Term.unary_inj.1 same
    obtain ⟨s, t, named, -, printed⟩ := exists_terms_of_mem_moves proper possible
    exact ⟨_, named, printed.symm⟩
  next => simp at present

theorem argumentsPrinted_rewardAtoms : ArgumentsPrinted (rewardAtoms request w) := by
  intro name arg present
  unfold rewardAtoms at present
  split at present
  next =>
    obtain ⟨-, rfl⟩ := Term.unary_inj.1 (List.mem_singleton.1 present)
    exact isPrinted_number _
  next => simp at present

theorem argumentsPrinted_plan {model : Model} (present : model ∈ plan request w) :
    ArgumentsPrinted model.atoms := by
  intro name arg there
  unfold plan at present
  split at present
  next => simp at present
  next =>
    dsimp only at present
    split at present
    next =>
      obtain rfl := List.mem_singleton.1 present
      obtain ⟨-, rfl⟩ := Term.unary_inj.1 (List.mem_singleton.1 there)
      exact isPrinted_number _
    next =>
      obtain rfl := List.mem_singleton.1 present
      simp [Model.ofAtoms] at there

theorem argumentsPrinted_observe {models : List Model} {model : Model} (proper : w.Proper)
    (observed : observe request w = .ok models) (present : model ∈ models) :
    ArgumentsPrinted model.atoms := by
  obtain ⟨states, read, same⟩ := bind_eq_ok_iff.1 observed
  obtain rfl := Except.ok.inj same
  obtain rfl := List.mem_singleton.1 present
  exact (argumentsPrinted_stateAtoms read).append (argumentsPrinted_executableAtoms proper)

theorem argumentsPrinted_step {models : List Model} {model : Model} {action : Action}
    (proper : w.Proper) (stepped : step request w action = .ok models) (present : model ∈ models) :
    ArgumentsPrinted model.atoms := by
  obtain ⟨t, -, found⟩ := bind_eq_ok_iff.1 stepped
  split at found
  next =>
    obtain rfl := Except.ok.inj found
    simp at present
  next move first =>
    obtain ⟨states, read, same⟩ := bind_eq_ok_iff.1 found
    obtain rfl := Except.ok.inj same
    obtain rfl := List.mem_singleton.1 present
    have possible := List.mem_of_find?_eq_some first
    exact ((argumentsPrinted_stateAtoms read).append argumentsPrinted_rewardAtoms).append
      (argumentsPrinted_executableAtoms (proper.apply possible))

theorem answersPrinted : Engine.AnswersPrinted BlocksWorld := by
  intro request solver models answered model present
  rw [solve_result] at answered
  obtain ⟨w, read, outcome⟩ := bind_eq_ok_iff.1 answered
  have proper := World.ofState_proper read
  split at outcome
  next =>
    obtain rfl := Except.ok.inj outcome
    exact argumentsPrinted_plan present
  next =>
    split at outcome
    next => exact argumentsPrinted_observe proper outcome present
    next => exact nomatch outcome
  next =>
    split at outcome
    next => exact argumentsPrinted_step proper outcome present
    next => exact nomatch outcome

theorem illegalOnlyIfRefused {engine : Engine BlocksWorld} (reachable : engine.Reachable) :
    engine.IllegalOnlyIfRefused := by
  intro action asked other failed
  obtain ⟨w, inWorld⟩ := inWorld_of_reachable reachable
  cases inWorld.failure failed with
  | refused refused => exact asked refused

end BlocksWorld

theorem reachable_echoes {ρ : Type} [Clingo.Launcher ρ] :
    (∀ engine : Engine (Clingo ρ), engine.Reachable → engine.Echoes) ∧
      ∀ engine : Engine BlocksWorld, engine.Reachable → engine.Echoes :=
  ⟨fun engine reachable =>
      Clingo.answersPrinted.echoes reachable (Clingo.illegalOnlyIfRefused engine),
    fun _ reachable =>
      BlocksWorld.answersPrinted.echoes reachable (BlocksWorld.illegalOnlyIfRefused reachable)⟩

section

open Clingo

def saying : Term := .function "say" [.text "a b"]

def oneAction : Reply :=
  ⟨true, Text.toBytes ("\x7b\"Call\":[\x7b\"Witnesses\":[\x7b\"Value\":" ++
    "[\"executable(say(\\\"a b\\\"))\"]\x7d]\x7d],\"Result\":\"SATISFIABLE\"\x7d"), [], .exited 10⟩

def found : Report := ⟨"SATISFIABLE", [[⟨["executable(say(\"a b\"))"], []⟩]]⟩

def prepared : Clingo (Machine Prepared) := ⟨⟨.ofLandmark .clingo, none, 1⟩, .start ⟨[oneAction]⟩⟩

def unasked : Engine (Clingo (Machine Prepared)) :=
  Engine.unasked ∅ ∅ default prepared .standard

theorem unasked_reported : Reported unasked.availableRequest unasked.solver 10 found := by
  obtain ⟨spelled, spelling, same⟩ : ∃ spelled : Invocation,
      invocation unasked.solver.settings unasked.availableRequest = .ok spelled ∧
        spelled.executable = .ofLandmark .clingo := ⟨_, rfl, rfl⟩
  have launched : (Launcher.launch spelled unasked.solver.launcher).1 = .ran oneAction := by
    simp only [Launcher.launch, same, if_true]
    rfl
  exact ⟨spelling, launched, rfl, rfl, by decide, rfl⟩

theorem exists_saying :
    ∃ engine : Engine (Clingo (Machine Prepared)),
      engine.Reachable ∧ .ofTerm saying ∈ engine.available := by
  let model : Model := .ofAtoms [.unary "executable" saying]
  have named : (Term.unary "executable" saying).WellNamed := by
    simp only [Term.unary, saying, Term.WellNamed, Term.AllWellNamed]
    decide
  have written : "executable(say(\"a b\"))" = (Term.unary "executable" saying).render := by rfl
  have read : readAtom "executable(say(\"a b\"))" = .ok (.unary "executable" saying) := by
    rw [written]
    exact readAtom_render named
  have shown : List.Forall₂ Witness.Shows found.calls.flatten [model] :=
    .cons ⟨congrArg (fun atom => [atom]) read, rfl⟩ .nil
  have done : ¬ Interrupted 10 found := not_interrupted_iff.2 (by decide)
  have answered : (Solver.solve unasked.availableRequest unasked.solver).result = .ok [model] :=
    solve_eq_ok_iff.2 ⟨10, found, unasked_reported, done, shown⟩
  have resolved : unasked.resolveAvailable.result = .ok (Engine.executableActions model) := by
    rw [Engine.resolveAvailable, Engine.ask_result, answered]
    rfl
  have valid : Config.standard.validate = .ok () := by
    rw [Config.validate, if_pos (by decide)]
  obtain ⟨engine, made, offers⟩ : ∃ engine,
      (Engine.create ∅ ∅ default prepared .standard).result = .ok engine ∧
        engine.available = Engine.executableActions model :=
    ⟨_, Engine.create_eq_ok_iff.2 ⟨valid, _, resolved, rfl⟩, rfl⟩
  refine ⟨engine, .created made, ?_⟩
  have offered : saying ∈ model.argumentsOf Predicates.executable :=
    (Model.mem_argumentsOf (by decide)).2 (List.mem_singleton_self _)
  rw [offers]
  exact SortedSet.mem_ofList.2 (List.mem_map_of_mem offered)

theorem reachable_echoes_saying :
    ∃ (engine : Engine (Clingo (Machine Prepared))) (blocks : Engine BlocksWorld),
      .ofTerm saying ∈ engine.available ∧ engine.Echoes ∧
        ⟨"move(a,table)"⟩ ∈ blocks.available ∧ blocks.Echoes := by
  obtain ⟨engine, reachable, offered⟩ := exists_saying
  obtain ⟨blocks, stands, moves, -⟩ := BlocksWorld.exists_accepted
  exact ⟨engine, blocks, offered, reachable_echoes.1 engine reachable, moves,
    (reachable_echoes (ρ := Machine Prepared)).2 blocks stands⟩

end

end DeclarativeMdp
