import DeclarativeMdp.Proofs.BlocksWorld.Legality
import DeclarativeMdp.Proofs.Episode.Rounds

set_option autoImplicit false

namespace DeclarativeMdp

namespace Engine

variable {σ : Type} [Solver σ]

def sentAll (engine : Engine σ) : List Operation → List Request
  | [] => []
  | operation :: rest =>
    (engine.sent operation).toList ++ (engine.perform operation).sentAll rest

theorem performAll_withLog (engine : Engine σ) (log : List Request)
    (operations : List Operation) :
    (engine.withLog log).performAll operations =
      (engine.performAll operations).withLog (log ++ engine.sentAll operations) := by
  induction operations generalizing engine log with
  | nil => simp [performAll, sentAll]
  | cons operation rest ih =>
    have step := engine.perform_withLog log operation
    have later := ih (engine.perform operation) (log ++ (engine.sent operation).toList)
    rw [← step, List.append_assoc] at later
    exact later

theorem Accepts.sentAll_length {engine : Engine σ} {actions : List Action}
    (accepted : engine.Accepts actions) :
    (engine.sentAll (actions.map .transition)).length = actions.length := by
  induction actions generalizing engine with
  | nil => rfl
  | cons action rest ih =>
    have ⟨⟨reward, done⟩, others⟩ := accepted
    have asked := (transition_eq_ok_iff.1 done).1
    rw [List.map_cons, sentAll, sent, if_neg asked, List.length_append]
    change 1 + ((engine.transition action).next.sentAll (rest.map .transition)).length = _
    rw [ih others, List.length_cons, Nat.add_comm]

theorem sentAll_append (engine : Engine σ) (earlier later : List Operation) :
    engine.sentAll (earlier ++ later) =
      engine.sentAll earlier ++ (engine.performAll earlier).sentAll later := by
  induction earlier generalizing engine with
  | nil => rfl
  | cons operation rest ih =>
    rw [List.cons_append, sentAll, sentAll, ih, List.append_assoc]
    rfl

end Engine

namespace Episode

variable {σ π : Type} [Solver σ] [Policy π]

inductive Call where
  | begun (episode : UInt64)
  | asked (state : State) (available : AvailableActions) (answer : Option Action)
  | shown (run : Trajectory) (discountRate : Float)
  deriving DecidableEq

structure RecordingPolicy (π : Type) where
  policy : π
  calls : List Call

instance : Policy (RecordingPolicy π) where
  beginEpisode episode heard :=
    ⟨Policy.beginEpisode episode heard.policy, heard.calls ++ [.begun episode]⟩
  select state available heard :=
    let answered := Policy.select state available heard.policy
    (answered.1, ⟨answered.2, heard.calls ++ [.asked state available answered.1]⟩)
  observe run discountRate heard :=
    ⟨Policy.observe run discountRate heard.policy, heard.calls ++ [.shown run discountRate]⟩

def consultations (engine : Engine σ) : List Action → List Call
  | [] => []
  | action :: rest =>
    .asked engine.state engine.available (some action) ::
      consultations (engine.transition action).next rest

theorem consultations_concat (engine : Engine σ) (actions : List Action) (action : Action) :
    consultations engine (actions ++ [action]) =
      consultations engine actions ++
        [.asked (engine.performAll (actions.map .transition)).state
          (engine.performAll (actions.map .transition)).available (some action)] := by
  induction actions generalizing engine with
  | nil => rfl
  | cons first rest ih => exact congrArg (_ :: ·) (ih (engine.transition first).next)

inductive Stopped (limit : Nat) (last : Engine σ) (steps : Nat) : List Call → Prop
  | full (all : steps = limit) : Stopped limit last steps []
  | terminal (early : steps < limit) (nothing : last.isTerminal = true) :
      Stopped limit last steps []
  | declined (early : steps < limit) (live : last.isTerminal = false) :
      Stopped limit last steps [.asked last.state last.available none]

theorem select_recordingPolicy {policy policy' : π} {state : State} {available : AvailableActions}
    {answer : Option Action} (chosen : Policy.select state available policy = (answer, policy'))
    (calls : List Call) :
    Policy.select state available (RecordingPolicy.mk policy calls) =
      (answer, ⟨policy', calls ++ [.asked state available answer]⟩) := by
  change ((Policy.select state available policy).1, RecordingPolicy.mk
    (Policy.select state available policy).2 (calls ++
      [.asked state available (Policy.select state available policy).1])) = _
  rw [chosen]

section

variable {engine last : Engine σ} {policy final : π} {actions : List Action}

theorem Rounds.recordedRun (rounds : Rounds engine policy actions last final)
    (log : List Request) (calls : List Call) :
    Rounds (engine.withLog log) (RecordingPolicy.mk policy calls) actions
      (last.withLog (log ++ engine.sentAll (actions.map .transition)))
      ⟨final, calls ++ consultations engine actions⟩ := by
  induction rounds generalizing log calls with
  | none engine policy =>
    simp only [List.map_nil, Engine.sentAll, consultations, List.append_nil]
    exact .none ..
  | @next engine last policy policy' final action actions reward live chosen accepted later ih =>
    have next : ((engine.withLog log).transition action).next =
        (engine.transition action).next.withLog
          (log ++ (engine.sent (.transition action)).toList) :=
      engine.perform_withLog log (.transition action)
    have heard := select_recordingPolicy chosen calls
    have accepted' := (engine.transition_withLog_result log action).trans accepted
    refine .next live heard accepted' ?_
    rw [next]
    have further := ih (log ++ (engine.sent (.transition action)).toList)
      (calls ++ [.asked engine.state engine.available (some action)])
    simpa [Engine.sentAll, consultations, Engine.perform] using further

theorem Ends.recordedRun_ok {left : Nat} {next : Engine σ × π}
    (ends : Ends engine policy left (.ok ()) next) (steps : Nat) (log : List Request)
    (calls : List Call) :
    ∃ more, Stopped (steps + left) engine steps more ∧
      Ends (engine.withLog log) (RecordingPolicy.mk policy calls) left (.ok ())
        (engine.withLog log, ⟨next.2, calls ++ more⟩) := by
  cases ends with
  | full => exact ⟨[], .full rfl, by simpa using .full⟩
  | terminal nothing =>
    exact ⟨[], .terminal (by omega) nothing, by simpa using .terminal nothing⟩
  | declined live silent =>
    have heard := select_recordingPolicy silent calls
    exact ⟨_, .declined (by omega) live, .declined live heard⟩

theorem Ends.recordedRun_error {left : Nat} {next : Engine σ × π} {error : Error}
    (ends : Ends engine policy left (.error error) next) (log : List Request)
    (calls : List Call) :
    ∃ action, 0 < left ∧ (engine.transition action).result = .error error ∧
      next.1 = (engine.transition action).next ∧
      Ends (engine.withLog log) (RecordingPolicy.mk policy calls) left (.error error)
        (next.1.withLog (log ++ (engine.sent (.transition action)).toList),
          ⟨next.2, calls ++ [.asked engine.state engine.available (some action)]⟩) := by
  cases ends with
  | @failed left policy' action _ live chosen rejected =>
    have heard := select_recordingPolicy chosen calls
    have rejected' := (engine.transition_withLog_result log action).trans rejected
    have next : ((engine.withLog log).transition action).next =
        (engine.transition action).next.withLog
          (log ++ (engine.sent (.transition action)).toList) :=
      engine.perform_withLog log (.transition action)
    refine ⟨action, Nat.succ_pos _, rejected, rfl, ?_⟩
    rw [← next]
    exact .failed live heard rejected'

theorem exists_play_recordingPolicy {limit steps : Nat}
    (played : (play limit engine policy).result = .ok steps)
    (reached : (play limit engine policy).next = (last, final)) (log : List Request)
    (calls : List Call) :
    ∃ actions more, engine.Accepts actions ∧ steps = actions.length ∧ steps ≤ limit ∧
      last = engine.performAll (actions.map .transition) ∧
      last.trajectory.actions = engine.trajectory.actions ++ actions ∧
      Stopped limit last steps more ∧
      (play limit (engine.withLog log) (RecordingPolicy.mk policy calls)).result = .ok steps ∧
      (play limit (engine.withLog log) (RecordingPolicy.mk policy calls)).next =
        (last.withLog (log ++ engine.sentAll (actions.map .transition)),
          ⟨final, calls ++ consultations engine actions ++ more⟩) := by
  have ⟨actions, stop, _, left, result, next, rounds, ends, total⟩ :=
    exists_rounds limit engine policy
  have ⟨outcome, same⟩ := rounds.play ends
  subst total
  have ⟨_, fine, counted⟩ := map_eq_ok_iff.1 (outcome.symm.trans played)
  subst fine counted
  have next_eq : next = (last, final) := same.symm.trans reached
  subst next_eq
  have stays : last = stop := ends.next_of_ok rfl
  subst stays
  have ⟨more, stopped, heard⟩ := ends.recordedRun_ok actions.length
    (log ++ engine.sentAll (actions.map .transition)) (calls ++ consultations engine actions)
  have ⟨outcome', reached'⟩ := (rounds.recordedRun log calls).play heard
  exact ⟨actions, more, rounds.accepts, rfl, Nat.le_add_right .., rounds.last_eq,
    rounds.recorded, stopped, outcome', reached'⟩

theorem exists_play_rejected {limit : Nat} {error : Error}
    (played : (play limit engine policy).result = .error error)
    (reached : (play limit engine policy).next = (last, final)) (log : List Request)
    (calls : List Call) :
    ∃ actions action, engine.Accepts actions ∧ actions.length < limit ∧
      ((engine.performAll (actions.map .transition)).transition action).result = .error error ∧
      (play limit (engine.withLog log) (RecordingPolicy.mk policy calls)).result = .error error ∧
      (play limit (engine.withLog log) (RecordingPolicy.mk policy calls)).next =
        (last.withLog (log ++ engine.sentAll ((actions ++ [action]).map .transition)),
          ⟨final, calls ++ consultations engine (actions ++ [action])⟩) := by
  have ⟨actions, stop, _, left, result, next, rounds, ends, total⟩ :=
    exists_rounds limit engine policy
  have ⟨outcome, same⟩ := rounds.play ends
  subst total
  have failed := map_eq_error_iff.1 (outcome.symm.trans played)
  have next_eq : next = (last, final) := same.symm.trans reached
  subst failed next_eq
  have ⟨action, early, rejected, _, heard⟩ := ends.recordedRun_error
    (log ++ engine.sentAll (actions.map .transition)) (calls ++ consultations engine actions)
  have ⟨outcome', reached'⟩ := (rounds.recordedRun log calls).play heard
  have sent : engine.sentAll ((actions ++ [action]).map .transition) =
      engine.sentAll (actions.map .transition) ++ (stop.sent (.transition action)).toList := by
    rw [List.map_append, Engine.sentAll_append, ← rounds.last_eq]
    simp [Engine.sentAll]
  have asked : consultations engine (actions ++ [action]) =
      consultations engine actions ++ [.asked stop.state stop.available (some action)] := by
    rw [consultations_concat, ← rounds.last_eq]
  refine ⟨actions, action, rounds.accepts, by omega, ?_, outcome', ?_⟩
  · rw [← rounds.last_eq]
    exact rejected
  · rw [sent, asked, ← List.append_assoc, ← List.append_assoc]
    exact reached'

end

theorem planned_withLog (config : EpisodeConfig) (engine : Engine σ) (log : List Request) :
    (planned config (engine.withLog log)).result = (planned config engine).result ∧
      (engine.withLog log).performAll (planning config) =
        (engine.performAll (planning config)).withLog
          (log ++ engine.sentAll (planning config)) := by
  refine ⟨?_, engine.performAll_withLog log (planning config)⟩
  unfold planned
  split
  next =>
    have asked := engine.ask_withLog log
      (engine.planRequest (engine.horizonOr config.planningHorizon))
      (.answered .optimalReturn (some (engine.horizonOr config.planningHorizon))) fun models => do
        let model ← Model.best .optimalReturn models
        return Decimal.ofInteger (← model.uniqueNumber Predicates.maxReturn)
    have same : (engine.withLog log).optimalReturn config.planningHorizon = _ := asked
    rw [same]
    rfl
  next => rfl

section

variable {config : EpisodeConfig} {engine : Engine σ} {policy : π} {episode : UInt64}

theorem exists_return_of_play {limit steps : Nat} {last : Engine σ} {final : π}
    (reachable : engine.Reachable) (played : (play limit engine policy).result = .ok steps)
    (reached : (play limit engine policy).next = (last, final)) :
    ∃ discounted, last.trajectory.discountedReturn last.config.discountRate = .ok discounted := by
  have ⟨actions, last_eq, _, _⟩ := exists_accepts_of_play played
  have ⟨_, _, _, consistent⟩ := (reachable.performedAll (actions.map .transition)).exists_consistent
  rw [← last_eq, reached] at consistent
  exact consistent.valid.exists_discountedReturn _

theorem exists_run_of_play (policy : π) (episode : UInt64) (reachable : engine.Reachable)
    {optimal : Option Float} {steps : Nat}
    (planResult : (planned config engine).result = .ok optimal)
    (played : (play config.maxLength (engine.performAll (planning config))
      (Policy.beginEpisode episode policy)).result = .ok steps) :
    ∃ record, (run config engine policy episode).result = .ok record ∧ record.steps = steps ∧
      (run config engine policy episode).next.1 = (play config.maxLength
        (engine.performAll (planning config)) (Policy.beginEpisode episode policy)).next.1 := by
  have ⟨discounted, computed⟩ :=
    exists_return_of_play (reachable.performedAll (planning config)) played rfl
  have ⟨ran, next⟩ := run_finished policy episode planResult played rfl computed
  exact ⟨_, ran, rfl, by rw [next]⟩

def Call.isQuestion : Call → Bool
  | .asked _ _ _ => true
  | _ => false

theorem countP_consultations (engine : Engine σ) (actions : List Action) :
    (consultations engine actions).countP Call.isQuestion = actions.length := by
  induction actions generalizing engine with
  | nil => rfl
  | cons action rest ih =>
    rw [consultations, List.countP_cons_of_pos rfl, ih, List.length_cons]

omit [Solver σ] in
theorem Stopped.countP_eq {limit steps : Nat} {last : Engine σ} {calls : List Call}
    (stopped : Stopped limit last steps calls) :
    calls.countP Call.isQuestion = calls.length := by
  cases stopped <;> rfl

structure SeenOnSuccess (config : EpisodeConfig) (engine last : Engine σ) (episode : UInt64)
    (record : Record) (actions : List Action) (requests : List Request) (calls : List Call) :
    Prop where
  planned : (planned config engine).result = .ok record.optimalReturn
  accepted : (engine.performAll (planning config)).Accepts actions
  last_eq : last = engine.performAll (planning config ++ actions.map .transition)
  steps : record.steps = actions.length
  bounded : record.steps ≤ config.maxLength
  recorded : last.trajectory.actions = engine.trajectory.actions ++ actions
  stepCount : last.trajectory.stepCount = engine.trajectory.stepCount + record.steps
  called : ∃ more, Stopped config.maxLength last record.steps more ∧
    calls = .begun episode :: consultations (engine.performAll (planning config)) actions ++ more ++
      [.shown last.trajectory last.config.discountRate] ∧
    calls.countP Call.isQuestion = record.steps + more.length
  reached : record.reachedGoal = decide last.GoalReached
  requested : requests = engine.sentAll (planning config ++ actions.map .transition)
  counted : requests.length = record.steps + if config.plan then 1 else 0

inductive SeenOnError (config : EpisodeConfig) (engine : Engine σ) (episode : UInt64)
    (error : Error) : List Call → Prop
  | unplanned (wanted : config.plan = true)
      (failed : (engine.optimalReturn config.planningHorizon).result = .error error) :
      SeenOnError config engine episode error [.begun episode]
  | rejected {actions : List Action} {action : Action} {optimal : Option Float}
      (planned : (planned config engine).result = .ok optimal)
      (accepted : (engine.performAll (planning config)).Accepts actions)
      (early : actions.length < config.maxLength)
      (failed : ((engine.performAll (planning config ++ actions.map .transition)).transition
        action).result = .error error) :
      SeenOnError config engine episode error
        (.begun episode ::
          consultations (engine.performAll (planning config)) (actions ++ [action]))

theorem not_shown_of_consultations (engine : Engine σ) (actions : List Action) (run : Trajectory)
    (discountRate : Float) : .shown run discountRate ∉ consultations engine actions := by
  induction actions generalizing engine with
  | nil => exact List.not_mem_nil
  | cons action rest ih => simpa [consultations] using ih _

theorem SeenOnError.not_shown {error : Error} {calls : List Call}
    (seenOnError : SeenOnError config engine episode error calls) (run : Trajectory)
    (discountRate : Float) : .shown run discountRate ∉ calls := by
  cases seenOnError with
  | unplanned => simp
  | rejected => simpa using not_shown_of_consultations _ _ _ _

theorem wanted_of_planned {error : Error}
    (failed : (Episode.planned config engine).result = .error error) :
    config.plan = true ∧ (engine.optimalReturn config.planningHorizon).result = .error error := by
  unfold Episode.planned at failed
  split at failed
  next wanted => exact ⟨wanted, map_eq_error_iff.1 failed⟩
  next => exact nomatch failed

theorem length_sentAll_planning (config : EpisodeConfig) (engine : Engine σ) :
    (engine.sentAll (planning config)).length = if config.plan then 1 else 0 := by
  unfold planning
  split <;> rfl

def recordedRun (config : EpisodeConfig) (engine : Engine σ) (policy : π) (episode : UInt64) :
    Outcome (Engine (Recorded σ) × RecordingPolicy π) Record :=
  run config (engine.withLog []) (RecordingPolicy.mk policy []) episode

def SameRun (ran : Outcome (Engine σ × π) Record)
    (seen : Outcome (Engine (Recorded σ) × RecordingPolicy π) Record) (requests : List Request)
    (calls : List Call) : Prop :=
  seen.result = ran.result ∧ seen.next = (ran.next.1.withLog requests, ⟨ran.next.2, calls⟩)

theorem exists_seenOnError_of_planned (policy : π) (episode : UInt64) {error : Error}
    (failed : (Episode.planned config engine).result = .error error) :
    (run config engine policy episode).result = .error error ∧ ∃ requests calls,
      SameRun (run config engine policy episode) (recordedRun config engine policy episode) requests
        calls ∧
      SeenOnError config engine episode error calls := by
  have ⟨wanted, planResult⟩ := wanted_of_planned failed
  have ⟨same, sent⟩ := planned_withLog config engine []
  have ⟨ran, next⟩ := run_unplanned policy episode failed
  have ⟨ran', next'⟩ := run_unplanned (RecordingPolicy.mk policy []) episode (same.trans failed)
  refine ⟨ran, [] ++ engine.sentAll (planning config), [.begun episode], ⟨ran'.trans ran.symm, ?_⟩,
    .unplanned wanted planResult⟩
  rw [next, recordedRun, next', sent]
  rfl

theorem exists_seenOnError_of_play {optimal : Option Float} {error : Error}
    (planResult : (Episode.planned config engine).result = .ok optimal)
    (failed : (play config.maxLength (engine.performAll (planning config))
      (Policy.beginEpisode episode policy)).result = .error error) :
    (run config engine policy episode).result = .error error ∧ ∃ requests calls,
      SameRun (run config engine policy episode) (recordedRun config engine policy episode) requests
        calls ∧
      SeenOnError config engine episode error calls := by
  have ⟨same, sent⟩ := planned_withLog config engine []
  have ⟨actions, action, accepted, early, rejected, seen, reached⟩ :=
    exists_play_rejected failed rfl ([] ++ engine.sentAll (planning config)) [.begun episode]
  rw [← sent] at seen reached
  rw [List.nil_append, ← Engine.sentAll_append] at reached
  rw [← Engine.performAll_append] at rejected
  have ⟨ran, next⟩ := run_rejected policy episode planResult failed
  have ⟨ran', next'⟩ := run_rejected (RecordingPolicy.mk policy []) episode
    (same.trans planResult) seen
  refine ⟨ran, engine.sentAll (planning config ++ (actions ++ [action]).map .transition), _,
    ⟨ran'.trans ran.symm, next'.trans ?_⟩, .rejected planResult accepted early rejected⟩
  rw [next]
  exact reached

theorem exists_seenOnSuccess {optimal : Option Float} {steps : Nat} (reachable : engine.Reachable)
    (planResult : (Episode.planned config engine).result = .ok optimal)
    (played : (play config.maxLength (engine.performAll (planning config))
      (Policy.beginEpisode episode policy)).result = .ok steps) :
    ∃ record, (run config engine policy episode).result = .ok record ∧ ∃ actions requests calls,
      SameRun (run config engine policy episode) (recordedRun config engine policy episode) requests
        calls ∧
      SeenOnSuccess config engine (run config engine policy episode).next.1 episode record actions
        requests calls := by
  have ⟨same, sent⟩ := planned_withLog config engine []
  cases reached : (play config.maxLength (engine.performAll (planning config))
      (Policy.beginEpisode episode policy)).next with
  | mk last final =>
    have ⟨actions, more, accepted, counted, bounded, last_eq, recorded, stopped, seen, reached'⟩ :=
      exists_play_recordingPolicy played reached ([] ++ engine.sentAll (planning config))
        [.begun episode]
    rw [← sent] at seen reached'
    rw [List.nil_append, ← Engine.sentAll_append] at reached'
    rw [← Engine.performAll_append] at last_eq
    have ⟨_, _, _, _, _, started⟩ := planning_agrees config engine
    rw [started] at recorded
    have ⟨discounted, computed⟩ :=
      exists_return_of_play (reachable.performedAll (planning config)) played reached
    have ⟨ran, next⟩ := run_finished policy episode planResult played reached computed
    have ⟨ran', next'⟩ := run_finished (RecordingPolicy.mk policy []) episode
      (same.trans planResult) seen reached' computed
    have sameRun : SameRun (run config engine policy episode)
        (recordedRun config engine policy episode)
        (engine.sentAll (planning config ++ actions.map .transition))
        ([.begun episode] ++ consultations (engine.performAll (planning config)) actions ++ more ++
          [.shown last.trajectory last.config.discountRate]) := by
      refine ⟨ran'.trans ran.symm, next'.trans ?_⟩
      rw [next]
      rfl
    refine ⟨_, ran, actions, _, _, sameRun, ?_⟩
    rw [next]
    exact {
      planned := planResult
      accepted := accepted
      last_eq := last_eq
      steps := counted
      bounded := bounded
      recorded := recorded
      stepCount := by
        rw [Trajectory.stepCount, recorded, List.length_append, ← counted]
        rfl
      called := ⟨more, stopped, rfl, by
        simp only [List.countP_append, countP_consultations, stopped.countP_eq, counted]
        exact (Nat.add_zero _).trans (congrArg (· + _) (Nat.zero_add _))⟩
      reached := rfl
      requested := rfl
      counted := by
        rw [Engine.sentAll_append, List.length_append, length_sentAll_planning,
          accepted.sentAll_length, counted, Nat.add_comm] }

-- One round after another, by `exists_rounds`; the two parties only write down what they hear.
theorem run_contract (reachable : engine.Reachable) (config : EpisodeConfig) (policy : π)
    (episode : UInt64) :
    ∃ requests calls,
      SameRun (run config engine policy episode) (recordedRun config engine policy episode) requests
        calls ∧
      (∀ record, (run config engine policy episode).result = .ok record →
        ∃ actions, SeenOnSuccess config engine (run config engine policy episode).next.1 episode
          record actions requests calls) ∧
      (∀ error, (run config engine policy episode).result = .error error →
        SeenOnError config engine episode error calls ∧
          ∀ run discountRate, .shown run discountRate ∉ calls) := by
  cases planResult : (planned config engine).result with
  | error error =>
    have ⟨ran, requests, calls, sameRun, seenOnError⟩ :=
      exists_seenOnError_of_planned policy episode planResult
    rw [ran]
    refine ⟨requests, calls, sameRun, fun record same => (nomatch same), fun other same => ?_⟩
    cases same
    exact ⟨seenOnError, seenOnError.not_shown⟩
  | ok optimal =>
    cases played : (play config.maxLength (engine.performAll (planning config))
        (Policy.beginEpisode episode policy)).result with
    | error error =>
      have ⟨ran, requests, calls, sameRun, seenOnError⟩ :=
        exists_seenOnError_of_play planResult played
      rw [ran]
      refine ⟨requests, calls, sameRun, fun record same => (nomatch same), fun other same => ?_⟩
      cases same
      exact ⟨seenOnError, seenOnError.not_shown⟩
    | ok steps =>
      have ⟨record, ran, actions, requests, calls, sameRun, seenOnSuccess⟩ :=
        exists_seenOnSuccess reachable planResult played
      rw [ran]
      refine ⟨requests, calls, sameRun, fun other same => ?_, fun error same => (nomatch same)⟩
      cases same
      exact ⟨actions, seenOnSuccess⟩

theorem run_contract_tower :
    ∃ (engine : Engine BlocksWorld) (record : Record), engine.Reachable ∧
      (run ⟨1, false, none⟩ engine (Script.mk [⟨"move(a,table)"⟩]) 0).result = .ok record ∧
      record.steps = 1 ∧ ∃ last actions requests calls,
        SeenOnSuccess ⟨1, false, none⟩ engine last 0 record actions requests calls := by
  let script : Script := ⟨[⟨"move(a,table)"⟩]⟩
  have ⟨engine, reachable, offered, reward, accepted⟩ := BlocksWorld.exists_accepted
  have chosen : Policy.select engine.state engine.available script =
      (some ⟨"move(a,table)"⟩, ⟨[]⟩) := rfl
  have ⟨played, reached⟩ :=
    (Rounds.next (Engine.not_isTerminal_of_mem offered) chosen accepted (.none ..)).play .full
  have ⟨_, _, _, consistent⟩ :=
    (reachable.performed (.transition ⟨"move(a,table)"⟩)).exists_consistent
  have ⟨discounted, computed⟩ := consistent.valid.exists_discountedReturn
    (engine.perform (.transition ⟨"move(a,table)"⟩)).config.discountRate
  have planResult : (planned ⟨1, false, none⟩ engine).result = .ok none := rfl
  have ⟨ran, _⟩ := run_finished script 0 planResult played reached computed
  have ⟨requests, calls, _, seenOnSuccess, _⟩ := run_contract reachable ⟨1, false, none⟩ script 0
  have ⟨actions, seenOnSuccess⟩ := seenOnSuccess _ ran
  exact ⟨engine, _, reachable, ran, rfl, _, actions, requests, calls, seenOnSuccess⟩

end

end Episode

end DeclarativeMdp
