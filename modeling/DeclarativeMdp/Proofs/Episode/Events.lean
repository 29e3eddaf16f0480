import DeclarativeMdp.Clingo.Solver
import DeclarativeMdp.Proofs.Episode.Contract

set_option autoImplicit false

namespace DeclarativeMdp

def Event.step? : Event → Option (Action × Float × Nat)
  | .transition action reward facts => some (action, reward, facts)
  | _ => none

def Event.IsFinished : Event → Prop
  | .episodeFinished .. => True
  | _ => False

structure Event.IsBackground (event : Event) : Prop where
  step : event.step? = none
  going : ¬ event.IsFinished

def NoEpisodeEvents (σ : Type) [Solver σ] : Prop :=
  ∀ (request : Request) (solver : σ), ∀ event ∈ (Solver.solve request solver).events,
    event.IsBackground

theorem noEpisodeEvents_blocksWorld : NoEpisodeEvents BlocksWorld :=
  fun _ _ _ present => nomatch present

theorem noEpisodeEvents_scripted : NoEpisodeEvents Scripted := by
  rintro request ⟨_ | ⟨line, rest⟩⟩ event present
  · exact nomatch present
  · cases line <;> exact nomatch present

theorem NoEpisodeEvents.recorded {σ : Type} [Solver σ] (noEpisodeEvents : NoEpisodeEvents σ) :
    NoEpisodeEvents (Recorded σ) :=
  fun request recorded => noEpisodeEvents request recorded.solver

theorem Clingo.isBackground_of_mem_ofLaunch {settings : Settings} {launch : Launch} {event : Event}
    (present : event ∈ (ofLaunch settings launch).2) : event.IsBackground := by
  have nothing {kept : Event} (none : kept ∈ ([] : List Event)) : kept.IsBackground := nomatch none
  unfold ofLaunch ofReply conclude at present
  split at present
  next => exact nothing present
  split_ifs at present
  · split at present
    next => exact nothing present
    split_ifs at present
    · exact nothing present
    · split at present
      next => exact nothing present
      split_ifs at present
      · rw [List.mem_singleton.1 present]
        exact ⟨rfl, id⟩
      · split at present
        next => exact nothing present
        next =>
          rw [List.mem_singleton.1 present]
          exact ⟨rfl, id⟩
  · exact nothing present

theorem noEpisodeEvents_clingo (ρ : Type) [Clingo.Launcher ρ] : NoEpisodeEvents (Clingo ρ) := by
  intro request solver event present
  simp only [Solver.solve] at present
  split at present
  next => exact nomatch present
  next =>
    rcases List.mem_cons.1 present with rfl | later
    · exact ⟨rfl, id⟩
    · exact Clingo.isBackground_of_mem_ofLaunch later

namespace Engine

variable {σ : Type} [Solver σ] {engine : Engine σ} {action : Action}

def solverEvents (engine : Engine σ) (request : Request) : List Event :=
  (Solver.solve request engine.solver).events

theorem ask_events_of_ok {α : Type} {request : Request} {answered : Nat → Event}
    {judge : List Model → Except Error α} {value : α}
    (succeeds : (engine.ask request answered judge).result = .ok value) :
    ∃ models, judge models = .ok value ∧
      (engine.ask request answered judge).events =
        engine.solverEvents request ++ [answered models.length] := by
  rw [ask_result] at succeeds
  obtain ⟨models, solved, judged⟩ := bind_eq_ok_iff.1 succeeds
  refine ⟨models, judged, ?_⟩
  simp only [ask, solved]
  rfl

theorem ask_events_cases {α : Type} (engine : Engine σ) (request : Request)
    (answered : Nat → Event) (judge : List Model → Except Error α) :
    (engine.ask request answered judge).events = engine.solverEvents request ∨
      ∃ models, (engine.ask request answered judge).events =
        engine.solverEvents request ++ [answered models] := by
  simp only [ask]
  split
  · exact .inl rfl
  · exact .inr ⟨_, rfl⟩

theorem transition_events_of_ok {reward : Float}
    (accepted : (engine.transition action).result = .ok reward) :
    (engine.transition action).events =
      engine.solverEvents (engine.transitionRequest action) ++
        [.answered .transition none 1,
          .transition action reward (engine.transition action).next.state.size] := by
  obtain ⟨asked, successor, stepAnswer, rfl⟩ := transition_eq_ok_iff.1 accepted
  have stepped := (engine.ask_result (engine.transitionRequest action) (.answered .transition none)
    fun models => Model.single .transition models >>= Successor.ofModel).trans stepAnswer
  obtain ⟨models, judged, logged⟩ := ask_events_of_ok stepped
  obtain ⟨model, single, -⟩ := bind_eq_ok_iff.1 judged
  rw [Model.single_eq_ok_iff.1 single] at logged
  rw [(transition_advanced asked stepAnswer).2]
  simp only [transition, if_neg (show ¬ (_ ∧ _) from asked), stepped, logged]
  simp [advance]

theorem transition_events_of_error {error : Error}
    (failed : (engine.transition action).result = .error error) :
    (engine.transition action).events = [] ∨
      (engine.transition action).events = engine.solverEvents (engine.transitionRequest action) ∨
      ∃ models, (engine.transition action).events =
        engine.solverEvents (engine.transitionRequest action) ++
          [.answered .transition none models] := by
  by_cases refused : engine.Refuses action
  next =>
    rw [transition_refused refused]
    exact .inl rfl
  next =>
    have asked := engine.ask_events_cases (engine.transitionRequest action)
      (.answered .transition none) fun models =>
        Model.single .transition models >>= Successor.ofModel
    simp only [transition, if_neg (show ¬ (_ ∧ _) from refused)] at failed ⊢
    split at failed
    next => exact .inr asked
    next => cases failed

theorem transition_trajectory_of_error {error : Error}
    (failed : (engine.transition action).result = .error error) :
    (engine.transition action).next.trajectory = engine.trajectory := by
  by_cases refused : engine.Refuses action
  next => rw [transition_refused refused]
  next =>
    cases stepped : engine.stepAnswer action with
    | error =>
      rw [(transition_failed refused stepped).2]
      rfl
    | ok =>
      rw [(transition_advanced refused stepped).1] at failed
      exact nomatch failed

end Engine

theorem NoEpisodeEvents.isBackground_answered {σ : Type} [Solver σ] {request : Request}
    {query : Query} {horizon : Option UInt32} {models : Nat} (noEpisodeEvents : NoEpisodeEvents σ)
    (engine : Engine σ) :
    ∀ event ∈ engine.solverEvents request ++ [.answered query horizon models], event.IsBackground :=
  List.forall_mem_append.2 ⟨noEpisodeEvents request engine.solver, by simpa using ⟨rfl, id⟩⟩

structure Entry where
  action : Action
  reward : Float
  state : State
  solverEvents : List Event

namespace Entry

def events (entry : Entry) : List Event :=
  entry.solverEvents ++
    [.answered .transition none 1, .transition entry.action entry.reward entry.state.size]

def step (entry : Entry) : Action × Float × Nat := (entry.action, entry.reward, entry.state.size)

end Entry

namespace Episode

variable {σ π : Type} [Solver σ] [Policy π]

inductive Logged : Engine σ → List Entry → Engine σ → Prop
  | none (engine : Engine σ) : Logged engine [] engine
  | next {engine last : Engine σ} {action : Action} {reward : Float} {entries : List Entry}
      (accepted : (engine.transition action).result = .ok reward)
      (later : Logged (engine.transition action).next entries last) :
      Logged engine (⟨action, reward, (engine.transition action).next.state,
        engine.solverEvents (engine.transitionRequest action)⟩ :: entries) last

structure ExtendedBy (run longer : Trajectory) (entries : List Entry) : Prop where
  states : longer.states = run.states ++ entries.map Entry.state
  actions : longer.actions = run.actions ++ entries.map Entry.action
  rewards : longer.rewards = run.rewards ++ entries.map fun entry => some (.ofFloat entry.reward)

section

variable {engine last : Engine σ} {policy final : π} {actions : List Action}
  {entries : List Entry}

theorem Logged.extendedBy (logged : Logged engine entries last) :
    ExtendedBy engine.trajectory last.trajectory entries := by
  induction logged with
  | none => exact ⟨by simp, by simp, by simp⟩
  | next accepted later ih =>
    obtain ⟨asked, successor, stepAnswer, rfl⟩ := Engine.transition_eq_ok_iff.1 accepted
    have moved := (Engine.transition_advanced asked stepAnswer).2
    rw [moved] at ih ⊢
    refine ⟨?_, ?_, ?_⟩
    · simp [ih.states, Engine.advance, Engine.consulted, Trajectory.push]
    · simp [ih.actions, Engine.advance, Engine.consulted, Trajectory.push]
    · simp [ih.rewards, Engine.advance, Engine.consulted, Trajectory.push]

theorem Ends.events_of_ok {left : Nat} {next : Engine σ × π}
    (ends : Ends engine policy left (.ok ()) next) :
    (Episode.play left engine policy).events = [] := by
  cases ends with
  | full => rfl
  | terminal nothing => simp [Episode.play, nothing]
  | declined live silent => simp [Episode.play, live, silent]

theorem Ends.events_of_error {left : Nat} {next : Engine σ × π} {error : Error}
    (ends : Ends engine policy left (.error error) next) :
    ∃ action, (engine.transition action).result = .error error ∧
      (Episode.play left engine policy).events = (engine.transition action).events ∧
      next.1 = (engine.transition action).next := by
  cases ends with
  | failed live chosen rejected =>
    exact ⟨_, rejected, by simp [Episode.play, live, chosen, rejected], rfl⟩

-- By induction on the rounds: each of them writes down its step and leaves the rest to the others.
theorem Rounds.exists_logged (rounds : Rounds engine policy actions last final) (left : Nat) :
    ∃ entries, Logged engine entries last ∧ entries.length = actions.length ∧
      (Episode.play (actions.length + left) engine policy).events =
        entries.flatMap Entry.events ++ (Episode.play left last final).events := by
  induction rounds with
  | none engine policy => exact ⟨[], .none engine, rfl, by simp⟩
  | next live chosen accepted later ih =>
    obtain ⟨entries, logged, counted, written⟩ := ih
    refine ⟨_, .next accepted logged, by rw [List.length_cons, counted, List.length_cons], ?_⟩
    rw [List.length_cons, Nat.add_right_comm]
    have own := Engine.transition_events_of_ok accepted
    simp only [Episode.play, live, chosen, accepted, written, own]
    simp [Entry.events]

end

structure EpisodeLog (config : EpisodeConfig) (engine : Engine σ)
    (ran : Outcome (Engine σ × π) Record) (episode : UInt64) (entries : List Entry)
    (last : Engine σ) (ending : List Event) : Prop where
  logged : Logged (planned config engine).next entries last
  events : ran.events = (planned config engine).events ++ entries.flatMap Entry.events ++ ending
  extendedBy : ExtendedBy engine.trajectory ran.next.1.trajectory entries
  finished : ∀ record, ran.result = .ok record →
    record.episode = episode ∧ record.steps = entries.length ∧
      ending = [.episodeFinished record.episode record.steps record.behaviorReturn
        record.optimalReturn record.reachedGoal]
  broken : ∀ error, ran.result = .error error →
    ending = [] ∨ ∃ action, (last.transition action).result = .error error ∧
      ending = (last.transition action).events

theorem planned_trajectory (config : EpisodeConfig) (engine : Engine σ) :
    (planned config engine).next.trajectory = engine.trajectory := by
  rcases planned_consults config engine with same | ⟨request, same⟩
  · rw [same]
  · rw [same]
    rfl

section

variable {config : EpisodeConfig} {engine last : Engine σ} {policy final : π} {episode : UInt64}
  {actions : List Action} {optimal : Option Float} {left : Nat} {next : Engine σ × π}

theorem episodeLog_unplanned (policy : π) (episode : UInt64) {error : Error}
    (failed : (planned config engine).result = .error error) :
    EpisodeLog config engine (run config engine policy episode) episode []
      (planned config engine).next [] := by
  have kept := planned_trajectory config engine
  have ran : run config engine policy episode =
      ⟨.error error, (planned config engine).events, (planned config engine).next,
        Policy.beginEpisode episode policy⟩ := by
    simp only [run, failed]
  refine ⟨.none _, ?_, ?_, ?_, fun _ _ => .inl rfl⟩
  · simp [ran]
  · rw [ran]
    exact ⟨by simp [kept], by simp [kept], by simp [kept]⟩
  · simp [ran]

theorem exists_episodeLog_rejected {error : Error}
    (planResult : (planned config engine).result = .ok optimal)
    (rounds : Rounds (planned config engine).next (Policy.beginEpisode episode policy) actions last
      final)
    (ends : Ends last final left (.error error) next)
    (total : actions.length + left = config.maxLength) :
    ∃ entries ending,
      EpisodeLog config engine (run config engine policy episode) episode entries last ending := by
  obtain ⟨played, reached⟩ := rounds.play ends
  obtain ⟨entries, logged, counted, written⟩ := rounds.exists_logged left
  obtain ⟨action, failed, rest, stopped⟩ := ends.events_of_error
  rw [total] at played reached written
  have ran : run config engine policy episode =
      ⟨.error error, (planned config engine).events ++ (entries.flatMap Entry.events ++
        (last.transition action).events), next⟩ := by
    simp only [run, planResult, played, reached, written, rest, Except.map]
  have extendedBy := logged.extendedBy
  rw [planned_trajectory] at extendedBy
  refine ⟨entries, (last.transition action).events, logged, ?_, ?_, ?_, fun other same => ?_⟩
  · rw [ran, List.append_assoc]
  · rwa [ran, stopped, Engine.transition_trajectory_of_error failed]
  · simp [ran]
  · rw [ran] at same
    rw [← Except.error.inj same]
    exact .inr ⟨action, failed, rfl⟩

theorem exists_episodeLog_played (planResult : (planned config engine).result = .ok optimal)
    (rounds : Rounds (planned config engine).next (Policy.beginEpisode episode policy) actions last
      final)
    (ends : Ends last final left (.ok ()) next)
    (total : actions.length + left = config.maxLength) :
    ∃ entries ending,
      EpisodeLog config engine (run config engine policy episode) episode entries last ending := by
  obtain ⟨played, reached⟩ := rounds.play ends
  obtain ⟨entries, logged, counted, written⟩ := rounds.exists_logged left
  rw [total] at played reached written
  rw [ends.events_of_ok, List.append_nil] at written
  obtain ⟨stop, policy'⟩ := next
  obtain rfl : stop = last := ends.next_of_ok rfl
  have extendedBy := logged.extendedBy
  rw [planned_trajectory] at extendedBy
  cases summed : summary stop episode actions.length optimal with
  | error error =>
    have ran : run config engine policy episode =
        ⟨.error error, (planned config engine).events ++ entries.flatMap Entry.events, stop,
          Policy.observe stop.trajectory stop.config.discountRate policy'⟩ := by
      simp only [run, planResult, played, reached, written, Except.map, summed]
    refine ⟨entries, [], logged, ?_, ?_, ?_, fun _ _ => .inl rfl⟩
    · rw [ran, List.append_nil]
    · rwa [ran]
    · simp [ran]
  | ok record =>
    have ran : run config engine policy episode =
        ⟨.ok record, (planned config engine).events ++ entries.flatMap Entry.events ++
          [finished record], stop,
          Policy.observe stop.trajectory stop.config.discountRate policy'⟩ := by
      simp only [run, planResult, played, reached, written, Except.map, summed]
    obtain ⟨discounted, computed, same⟩ := bind_eq_ok_iff.1 summed
    refine ⟨entries, [finished record], logged, ?_, ?_, fun other found => ?_, ?_⟩
    · rw [ran]
    · rwa [ran]
    · rw [ran] at found
      obtain rfl := Except.ok.inj found
      obtain rfl := Except.ok.inj same
      exact ⟨rfl, counted.symm, rfl⟩
    · simp [ran]

end

theorem exists_episodeLog (config : EpisodeConfig) (engine : Engine σ) (policy : π)
    (episode : UInt64) :
    ∃ entries last ending,
      EpisodeLog config engine (run config engine policy episode) episode entries last ending := by
  cases planResult : (planned config engine).result with
  | error error => exact ⟨[], _, [], episodeLog_unplanned policy episode planResult⟩
  | ok optimal =>
    obtain ⟨actions, last, final, left, result, next, rounds, ends, total⟩ :=
      exists_rounds config.maxLength (planned config engine).next
        (Policy.beginEpisode episode policy)
    cases result with
    | error error =>
      obtain ⟨entries, ending, episodeLog⟩ :=
        exists_episodeLog_rejected planResult rounds ends total
      exact ⟨entries, last, ending, episodeLog⟩
    | ok =>
      obtain ⟨entries, ending, episodeLog⟩ := exists_episodeLog_played planResult rounds ends total
      exact ⟨entries, last, ending, episodeLog⟩

def StepsFollowAnswers (events : List Event) : Prop :=
  ∀ before action reward facts after,
    events = before ++ .transition action reward facts :: after →
      ∃ earlier, before = earlier ++ [.answered .transition none 1]

theorem StepsFollowAnswers.append {front back : List Event} (first : StepsFollowAnswers front)
    (second : StepsFollowAnswers back) : StepsFollowAnswers (front ++ back) := by
  intro before action reward facts after split
  rcases List.append_eq_append_iff.1 split with ⟨more, rfl, rest⟩ | ⟨more, whole, rest⟩
  · obtain ⟨earlier, rfl⟩ := second more action reward facts after rest
    exact ⟨front ++ earlier, (List.append_assoc ..).symm⟩
  · cases more with
    | nil =>
      obtain ⟨earlier, none⟩ := second [] action reward facts after rest.symm
      simp at none
    | cons event more =>
      obtain ⟨rfl, -⟩ := List.cons.inj rest
      exact first before action reward facts more whole

theorem stepsFollowAnswers_of_stepless {events : List Event}
    (stepless : ∀ event ∈ events, event.step? = none) : StepsFollowAnswers events := by
  rintro before action reward facts after rfl
  exact nomatch stepless (.transition action reward facts) (by simp)

theorem Logged.isBackground {engine last : Engine σ} {entries : List Entry}
    (noEpisodeEvents : NoEpisodeEvents σ) (logged : Logged engine entries last) :
    ∀ entry ∈ entries, ∀ event ∈ entry.solverEvents, event.IsBackground := by
  induction logged with
  | none => exact fun _ present => nomatch present
  | next accepted later ih => exact List.forall_mem_cons.2 ⟨noEpisodeEvents _ _, ih⟩

theorem isBackground_of_failed {engine : Engine σ} {action : Action} {error : Error}
    (noEpisodeEvents : NoEpisodeEvents σ)
    (failed : (engine.transition action).result = .error error) :
    ∀ event ∈ (engine.transition action).events, event.IsBackground := by
  rcases Engine.transition_events_of_error failed with same | same | ⟨models, same⟩
  · simp [same]
  · rw [same]
    exact noEpisodeEvents (engine.transitionRequest action) engine.solver
  · rw [same]
    exact noEpisodeEvents.isBackground_answered engine

theorem planned_events_cases (config : EpisodeConfig) (engine : Engine σ) :
    (planned config engine).events = [] ∨ ∃ request,
      (planned config engine).events = engine.solverEvents request ∨ ∃ horizon models,
        (planned config engine).events =
          engine.solverEvents request ++ [.answered .optimalReturn (some horizon) models] := by
  unfold planned
  split
  next =>
    rcases engine.ask_events_cases
      (engine.planRequest (engine.horizonOr config.planningHorizon))
      (.answered .optimalReturn (some (engine.horizonOr config.planningHorizon))) fun models => do
        let model ← Model.best .optimalReturn models
        return Decimal.ofInteger (← model.uniqueNumber Predicates.maxReturn)
      with unanswered | ⟨models, answered⟩
    · exact .inr ⟨_, .inl unanswered⟩
    · exact .inr ⟨_, .inr ⟨_, models, answered⟩⟩
  next => exact .inl rfl

theorem isBackground_of_planned (noEpisodeEvents : NoEpisodeEvents σ) (config : EpisodeConfig)
    (engine : Engine σ) : ∀ event ∈ (planned config engine).events, event.IsBackground := by
  rcases planned_events_cases config engine with none | ⟨request, same | ⟨horizon, models, same⟩⟩
  · simp [none]
  · rw [same]
    exact noEpisodeEvents request engine.solver
  · rw [same]
    exact noEpisodeEvents.isBackground_answered engine

theorem filterMap_step?_flatMap {entries : List Entry}
    (isBackground : ∀ entry ∈ entries, ∀ event ∈ entry.solverEvents, event.IsBackground) :
    (entries.flatMap Entry.events).filterMap Event.step? = entries.map Entry.step := by
  induction entries with
  | nil => rfl
  | cons entry entries ih =>
    obtain ⟨solverEvents, others⟩ := List.forall_mem_cons.1 isBackground
    have silent : entry.solverEvents.filterMap Event.step? = [] :=
      List.filterMap_eq_nil_iff.2 fun event present => (solverEvents event present).step
    rw [List.flatMap_cons, List.filterMap_append, ih others, Entry.events, List.filterMap_append,
      silent]
    rfl

theorem stepsFollowAnswers_flatMap {entries : List Entry}
    (isBackground : ∀ entry ∈ entries, ∀ event ∈ entry.solverEvents, event.IsBackground) :
    StepsFollowAnswers (entries.flatMap Entry.events) := by
  induction entries with
  | nil => exact stepsFollowAnswers_of_stepless fun _ present => nomatch present
  | cons entry entries ih =>
    obtain ⟨solverEvents, others⟩ := List.forall_mem_cons.1 isBackground
    have silent := stepsFollowAnswers_of_stepless fun event present =>
      (solverEvents event present).step
    refine .append (.append silent ?_) (ih others)
    intro before action reward facts after split
    cases before with
    | nil => exact nomatch (List.cons.inj split).1
    | cons event before =>
      obtain ⟨rfl, rest⟩ := List.cons.inj split
      cases before with
      | nil => exact ⟨[], rfl⟩
      | cons other before =>
        have none := (List.cons.inj rest).2
        simp at none

theorem not_finished_of_mem_flatMap {entries : List Entry}
    (isBackground : ∀ entry ∈ entries, ∀ event ∈ entry.solverEvents, event.IsBackground) :
    ∀ event ∈ entries.flatMap Entry.events, ¬ event.IsFinished := by
  intro event present
  obtain ⟨entry, there, within⟩ := List.mem_flatMap.1 present
  rcases List.mem_append.1 within with solverEvents | own
  · exact (isBackground entry there event solverEvents).going
  · simp only [List.mem_cons, List.not_mem_nil, or_false] at own
    rcases own with rfl | rfl <;> exact id

structure LogsEpisode (ran : Outcome (Engine σ × π) Record) (entries : List Entry) : Prop where
  steps : ran.events.filterMap Event.step? = entries.map Entry.step
  stepsFollowAnswers : StepsFollowAnswers ran.events
  finished : ∀ record, ran.result = .ok record → ∃ front,
    ran.events = front ++ [.episodeFinished record.episode record.steps record.behaviorReturn
      record.optimalReturn record.reachedGoal] ∧ ∀ event ∈ front, ¬ event.IsFinished
  unfinished : ∀ error, ran.result = .error error → ∀ event ∈ ran.events, ¬ event.IsFinished

omit [Policy π] in
theorem EpisodeLog.logsEpisode {config : EpisodeConfig} {engine last : Engine σ}
    {ran : Outcome (Engine σ × π) Record} {episode : UInt64} {entries : List Entry}
    {ending : List Event} (noEpisodeEvents : NoEpisodeEvents σ)
    (episodeLog : EpisodeLog config engine ran episode entries last ending) :
    LogsEpisode ran entries := by
  have opening := isBackground_of_planned noEpisodeEvents config engine
  have solverEvents := episodeLog.logged.isBackground noEpisodeEvents
  have silent : ∀ event ∈ (planned config engine).events, event.step? = none :=
    fun event present => (opening event present).step
  have closing : ∀ event ∈ ending, event.step? = none := by
    cases result : ran.result with
    | ok record =>
      obtain ⟨-, -, rfl⟩ := episodeLog.finished record result
      simp [Event.step?]
    | error error =>
      rcases episodeLog.broken error result with rfl | ⟨action, failed, rfl⟩
      · simp
      · exact fun event present =>
          (isBackground_of_failed noEpisodeEvents failed event present).step
  have going : ∀ event ∈ (planned config engine).events ++ entries.flatMap Entry.events,
      ¬ event.IsFinished :=
    List.forall_mem_append.2
      ⟨fun event present => (opening event present).going, not_finished_of_mem_flatMap solverEvents⟩
  refine ⟨?_, ?_, fun record result => ?_, fun error result => ?_⟩
  · rw [episodeLog.events, List.filterMap_append, List.filterMap_append,
      List.filterMap_eq_nil_iff.2 silent, filterMap_step?_flatMap solverEvents,
      List.filterMap_eq_nil_iff.2 closing, List.nil_append, List.append_nil]
  · rw [episodeLog.events]
    exact .append (.append (stepsFollowAnswers_of_stepless silent)
      (stepsFollowAnswers_flatMap solverEvents)) (stepsFollowAnswers_of_stepless closing)
  · obtain ⟨-, -, rfl⟩ := episodeLog.finished record result
    exact ⟨_, episodeLog.events, going⟩
  · rw [episodeLog.events]
    refine List.forall_mem_append.2 ⟨going, ?_⟩
    rcases episodeLog.broken error result with rfl | ⟨action, failed, rfl⟩
    · simp
    · exact fun event present => (isBackground_of_failed noEpisodeEvents failed event present).going

theorem run_accounted (config : EpisodeConfig) (engine : Engine σ) (policy : π)
    (episode : UInt64) :
    (∃ entries last ending,
      EpisodeLog config engine (run config engine policy episode) episode entries last ending ∧
        (NoEpisodeEvents σ → LogsEpisode (run config engine policy episode) entries)) ∧
      ((planned config engine).events = [] ∨ ∃ request,
        (planned config engine).events = engine.solverEvents request ∨ ∃ horizon models,
          (planned config engine).events =
            engine.solverEvents request ++ [.answered .optimalReturn (some horizon) models]) ∧
      ∀ (last : Engine σ) (action : Action) (error : Error),
        (last.transition action).result = .error error →
          (last.transition action).events = [] ∨
            (last.transition action).events = last.solverEvents (last.transitionRequest action) ∨
            ∃ models, (last.transition action).events =
              last.solverEvents (last.transitionRequest action) ++
                [.answered .transition none models] := by
  obtain ⟨entries, last, ending, episodeLog⟩ := exists_episodeLog config engine policy episode
  exact ⟨⟨entries, last, ending, episodeLog, (episodeLog.logsEpisode ·)⟩,
    planned_events_cases config engine, fun _ _ _ => Engine.transition_events_of_error⟩

theorem run_accounted_moved :
    ∃ (engine : Engine BlocksWorld) (record : Record) (front : List Event),
      (run ⟨1, false, none⟩ engine (Script.mk [⟨"move(a,table)"⟩]) 0).result = .ok record ∧
      (run ⟨1, false, none⟩ engine (Script.mk [⟨"move(a,table)"⟩]) 0).events =
        front ++ [.episodeFinished 0 1 record.behaviorReturn record.optimalReturn
          record.reachedGoal] ∧
      ((run ⟨1, false, none⟩ engine (Script.mk [⟨"move(a,table)"⟩]) 0).events.filterMap
        Event.step?).length = 1 := by
  let script : Script := ⟨[⟨"move(a,table)"⟩]⟩
  obtain ⟨engine, reachable, offered, reward, accepted⟩ := BlocksWorld.exists_accepted
  have chosen : Policy.select engine.state engine.available script =
      (some ⟨"move(a,table)"⟩, ⟨[]⟩) := rfl
  obtain ⟨played, -⟩ :=
    (Rounds.next (Engine.not_isTerminal_of_mem offered) chosen accepted (.none ..)).play .full
  have planResult : (planned ⟨1, false, none⟩ engine).result = .ok none := rfl
  obtain ⟨record, ran, one, -⟩ := exists_run_of_play script 0 reachable planResult played
  obtain ⟨⟨entries, last, ending, episodeLog, logsEpisode⟩, -⟩ :=
    run_accounted ⟨1, false, none⟩ engine script 0
  obtain ⟨steps, -, finished, -⟩ := logsEpisode noEpisodeEvents_blocksWorld
  obtain ⟨zero, counted, -⟩ := episodeLog.finished record ran
  obtain ⟨front, whole, -⟩ := finished record ran
  rw [zero, one] at whole
  refine ⟨engine, record, front, ran, whole, ?_⟩
  rw [steps, List.length_map, ← counted, one]
  rfl

end Episode

end DeclarativeMdp
