import DeclarativeMdp.Clingo.Solver
import DeclarativeMdp.Proofs.Engine.Run
import Mathlib.Data.List.Forall2

set_option autoImplicit false

namespace DeclarativeMdp

theorem readAtom_eq_error {text : String} {error : Error} (unread : readAtom text = .error error) :
    ∃ misreading, error = .malformedAtom text (.unreadable misreading) := by
  unfold readAtom at unread
  cases parsed : Term.parse text with
  | ok t =>
    rw [parsed] at unread
    exact nomatch unread
  | error misreading =>
    rw [parsed] at unread
    exact ⟨misreading, (Except.error.inj unread).symm⟩

namespace Clingo

structure Witness.Shows (witness : Witness) (model : Model) : Prop where
  atoms : witness.value.map readAtom = model.atoms.map .ok
  costs : model.costs = witness.costs

def Witness.Readable (witness : Witness) : Prop :=
  ∀ text ∈ witness.value, ∃ atom, readAtom text = .ok atom

theorem Witness.model_eq_map (witness : Witness) :
    witness.model = (witness.value.mapM readAtom).map (Model.mk · witness.costs) := by
  unfold Witness.model
  cases witness.value.mapM readAtom <;> rfl

theorem Witness.model_eq_ok_iff {witness : Witness} {model : Model} :
    witness.model = .ok model ↔ witness.Shows model := by
  rw [Witness.model_eq_map, map_eq_ok_iff]
  constructor
  · rintro ⟨atoms, read, rfl⟩
    exact ⟨mapM_eq_ok_iff.1 read, rfl⟩
  · rintro ⟨read, costs⟩
    exact ⟨model.atoms, mapM_eq_ok_iff.2 read, by rw [← costs]⟩

theorem Witness.exists_model_iff {witness : Witness} :
    (∃ model, witness.model = .ok model) ↔ witness.Readable := by
  unfold Witness.Readable
  rw [← exists_mapM_eq_ok_iff]
  simp only [Witness.model_eq_map, map_eq_ok_iff]
  constructor
  · rintro ⟨model, atoms, read, -⟩
    exact ⟨atoms, read⟩
  · rintro ⟨atoms, read⟩
    exact ⟨_, atoms, read, rfl⟩

theorem Report.models_eq_ok_iff {report : Report} {models : List Model} :
    report.models = .ok models ↔
      List.Forall₂ Witness.Shows report.calls.flatten models := by
  rw [Report.models, mapM_eq_ok_iff, ← List.forall₂_eq_eq_eq, List.forall₂_map_left_iff,
    List.forall₂_map_right_iff]
  simp only [Witness.model_eq_ok_iff]

theorem Report.exists_models_iff {report : Report} :
    (∃ models, report.models = .ok models) ↔
      ∀ witness ∈ report.calls.flatten, witness.Readable := by
  simp only [Report.models, exists_mapM_eq_ok_iff, Witness.exists_model_iff]

inductive NonTimeout : Error → Prop
  | solver (failure : SolverFailure) : NonTimeout (.solver failure)
  | limit : NonTimeout .undefinedAnswer
  | document : NonTimeout .unreadableDocument
  | atom (text : String) (misreading : Term.Misreading) :
      NonTimeout (.malformedAtom text (.unreadable misreading))

theorem NonTimeout.ne_timedOut {error : Error} (nonTimeout : NonTimeout error) (budget : Duration) :
    error ≠ .timedOut budget := by
  cases nonTimeout <;> nofun

theorem Report.nonTimeout_of_models {report : Report} {error : Error}
    (failed : report.models = .error error) : NonTimeout error := by
  obtain ⟨witness, -, failed⟩ := exists_of_mapM_eq_error failed
  rw [Witness.model_eq_map, map_eq_error_iff] at failed
  obtain ⟨text, -, unread⟩ := exists_of_mapM_eq_error failed
  obtain ⟨misreading, rfl⟩ := readAtom_eq_error unread
  exact .atom text misreading

theorem Report.nonTimeout_of_ofBytes {bytes : List UInt8} {error : Error}
    (failed : Report.ofBytes bytes = .error error) : NonTimeout error := by
  unfold Report.ofBytes at failed
  split at failed
  next => simp at failed
  next =>
    obtain rfl := Except.error.inj failed
    exact .document

-- A limit of too many seconds cannot be spelled out, which is not the same as reaching it.
theorem nonTimeout_of_invocation {settings : Settings} {request : Request} {error : Error}
    (failed : invocation settings request = .error error) : NonTimeout error := by
  have limits (error : Error) (failed : Settings.limitArguments settings.timeLimit = .error error) :
      error = .undefinedAnswer := by
    unfold Settings.limitArguments at failed
    split at failed
    next => simp at failed
    next => split at failed <;> simp_all
  cases limit : Settings.limitArguments settings.timeLimit with
  | ok =>
    simp [invocation, Settings.arguments, limit, bind, Except.bind, pure, Except.pure] at failed
  | error other =>
    have same : other = error := by
      simpa [invocation, Settings.arguments, limit, bind, Except.bind] using failed
    rw [← same, limits other limit]
    exact .limit

section

variable {ρ : Type} [Launcher ρ] {request : Request} {solver : Clingo ρ} {code : Int}
  {report : Report}

inductive Reported (request : Request) (solver : Clingo ρ) (code : Int) (report : Report) : Prop
  | mk {spelled : Invocation} {reply : Reply}
      (spelling : invocation solver.settings request = .ok spelled)
      (spawned : (Launcher.launch spelled solver.launcher).1 = .ran reply)
      (written : reply.readsInput = true)
      (exited : reply.ending = .exited code)
      (searched : code < 33)
      (decoded : Report.ofBytes reply.output = .ok report) :
      Reported request solver code report

theorem Reported.solve_result (reported : Reported request solver code report) :
    (Solver.solve request solver).result = (conclude solver.settings code report).1 := by
  obtain ⟨spelling, spawned, written, exited, searched, decoded⟩ := reported
  have searched : ¬ failureCode ≤ code := by simpa [failureCode] using searched
  simp only [Solver.solve, spelling, spawned, ofLaunch, ofReply, written, exited, searched,
    decoded, if_true, if_false]

theorem solve_result_of_not_reported
    (missing : ∀ code report, ¬ Reported request solver code report) :
    ∃ error, (Solver.solve request solver).result = .error error ∧ NonTimeout error := by
  cases spelling : invocation solver.settings request with
  | error error =>
    exact ⟨error, by simp only [Solver.solve, spelling], nonTimeout_of_invocation spelling⟩
  | ok spelled =>
    have answered : (Solver.solve request solver).result =
        (ofLaunch solver.settings (Launcher.launch spelled solver.launcher).1).1 := by
      simp only [Solver.solve, spelling]
    rw [answered]
    cases spawned : (Launcher.launch spelled solver.launcher).1 with
    | refused reason => exact ⟨_, rfl, .solver _⟩
    | ran reply =>
      -- What can go wrong with a program that ran is looked at in this order.
      simp only [ofLaunch, ofReply]
      split
      case isFalse => exact ⟨_, rfl, .solver _⟩
      case isTrue written =>
      split
      next => exact ⟨_, rfl, .solver _⟩
      next code exited =>
      split
      case isTrue => exact ⟨_, rfl, .solver _⟩
      case isFalse searched =>
      split
      next error unread => exact ⟨error, rfl, Report.nonTimeout_of_ofBytes unread⟩
      next report decoded =>
        exact absurd ⟨spelling, spawned, written, exited, by simpa [failureCode] using searched,
          decoded⟩ (missing code report)

theorem conclude_eq_ok_iff {settings : Settings} {models : List Model} :
    (conclude settings code report).1 = .ok models ↔
      ¬ Interrupted code report ∧ report.models = .ok models := by
  unfold conclude
  split
  case isTrue interrupted => simp [interrupted]
  case isFalse done => cases report.models <;> simp [done]

theorem conclude_eq_timedOut_iff {settings : Settings} {budget : Duration} :
    (conclude settings code report).1 = .error (.timedOut budget) ↔
      Interrupted code report ∧ settings.timeLimit = some budget := by
  unfold conclude
  split
  case isTrue interrupted =>
    cases limit : settings.timeLimit <;> simp [interruption, limit, interrupted]
  case isFalse done =>
    cases read : report.models with
    | ok models => simp [done]
    | error error => simp [done, (Report.nonTimeout_of_models read).ne_timedOut budget]

theorem not_interrupted_iff :
    ¬ Interrupted code report ↔ code % 2 = 0 ∧ report.result ≠ "UNKNOWN" := by
  simp only [Interrupted, not_or, not_not, ne_eq]

theorem solve_eq_ok_iff {models : List Model} :
    (Solver.solve request solver).result = .ok models ↔
      ∃ code report, Reported request solver code report ∧ ¬ Interrupted code report ∧
        List.Forall₂ Witness.Shows report.calls.flatten models := by
  constructor
  · intro answered
    by_contra missing
    by_cases seen : ∃ code report, Reported request solver code report
    · obtain ⟨code, report, reported⟩ := seen
      rw [reported.solve_result, conclude_eq_ok_iff, Report.models_eq_ok_iff] at answered
      exact missing ⟨code, report, reported, answered⟩
    · obtain ⟨error, failed, -⟩ := solve_result_of_not_reported fun code report reported =>
        seen ⟨code, report, reported⟩
      exact nomatch answered.symm.trans failed
  · rintro ⟨code, report, reported, shown⟩
    rw [reported.solve_result, conclude_eq_ok_iff, Report.models_eq_ok_iff]
    exact shown

theorem solve_eq_timedOut_iff {budget : Duration} :
    (Solver.solve request solver).result = .error (.timedOut budget) ↔
      solver.settings.timeLimit = some budget ∧
        ∃ code report, Reported request solver code report ∧ Interrupted code report := by
  constructor
  · intro late
    by_cases seen : ∃ code report, Reported request solver code report
    · obtain ⟨code, report, reported⟩ := seen
      rw [reported.solve_result, conclude_eq_timedOut_iff] at late
      exact ⟨late.2, code, report, reported, late.1⟩
    · obtain ⟨error, failed, nonTimeout⟩ := solve_result_of_not_reported fun code report reported =>
        seen ⟨code, report, reported⟩
      exact absurd (Except.error.inj (failed.symm.trans late)) (nonTimeout.ne_timedOut budget)
  · rintro ⟨limit, code, report, reported, interrupted⟩
    rw [reported.solve_result, conclude_eq_timedOut_iff]
    exact ⟨interrupted, limit⟩

theorem nonTimeout_of_solve {error : Error}
    (failed : (Solver.solve request solver).result = .error error) :
    NonTimeout error ∨ ∃ budget, error = .timedOut budget := by
  by_cases seen : ∃ code report, Reported request solver code report
  · obtain ⟨code, report, reported⟩ := seen
    rw [reported.solve_result] at failed
    unfold conclude at failed
    split at failed
    case isTrue interrupted =>
      obtain rfl := Except.error.inj failed
      unfold interruption
      split
      next budget _ => exact .inr ⟨budget, rfl⟩
      next => exact .inl (.solver _)
    case isFalse done =>
      cases read : report.models with
      | ok models => simp [read] at failed
      | error other =>
        simp only [read, Except.error.injEq] at failed
        exact .inl (failed ▸ Report.nonTimeout_of_models read)
  · obtain ⟨other, failed', nonTimeout⟩ := solve_result_of_not_reported fun code report reported =>
      seen ⟨code, report, reported⟩
    obtain rfl := Except.error.inj (failed'.symm.trans failed)
    exact .inl nonTimeout

theorem optimalReturn_eq_ok_iff {engine : Engine (Clingo ρ)} {horizon : Option UInt32}
    {reward : Float} :
    (engine.optimalReturn horizon).result = .ok reward ↔
      ∃ models model best,
        (Solver.solve (engine.planRequest (engine.horizonOr horizon)) engine.solver).result =
          .ok models ∧
        models.getLast? = some model ∧ model.uniqueNumber Predicates.maxReturn = .ok best ∧
        Decimal.ofInteger best = reward := by
  have last (models : List Model) (model : Model) :
      Model.best .optimalReturn models = .ok model ↔ models.getLast? = some model := by
    unfold Model.best
    split <;> simp_all
  unfold Engine.optimalReturn
  simp only [Engine.ask_result, bind_eq_ok_iff, last, pure, Except.pure, Except.ok.injEq]
  constructor
  · rintro ⟨models, answered, model, last, best, number, rfl⟩
    exact ⟨models, model, best, answered, last, number, rfl⟩
  · rintro ⟨models, model, best, answered, last, number, rfl⟩
    exact ⟨models, answered, model, last, best, number, rfl⟩

theorem models_of_finished_search (request : Request) (solver : Clingo ρ)
    (engine : Engine (Clingo ρ)) (horizon : Option UInt32) :
    (∀ models, (Solver.solve request solver).result = .ok models ↔
      ∃ code report, Reported request solver code report ∧
        code % 2 = 0 ∧ report.result ≠ "UNKNOWN" ∧
        List.Forall₂ Witness.Shows report.calls.flatten models) ∧
    ((∃ models, (Solver.solve request solver).result = .ok models) ↔
      ∃ code report, Reported request solver code report ∧
        code % 2 = 0 ∧ report.result ≠ "UNKNOWN" ∧
        ∀ witness ∈ report.calls.flatten, witness.Readable) ∧
    (∀ budget, (Solver.solve request solver).result = .error (.timedOut budget) ↔
      solver.settings.timeLimit = some budget ∧
      ∃ code report, Reported request solver code report ∧
        (code % 2 ≠ 0 ∨ report.result = "UNKNOWN")) ∧
    (∀ reward, (engine.optimalReturn horizon).result = .ok reward ↔
      ∃ code report models model best,
        Reported (engine.planRequest (engine.horizonOr horizon)) engine.solver code report ∧
        code % 2 = 0 ∧ report.result ≠ "UNKNOWN" ∧
        List.Forall₂ Witness.Shows report.calls.flatten models ∧
        models.getLast? = some model ∧ model.uniqueNumber Predicates.maxReturn = .ok best ∧
        Decimal.ofInteger best = reward) ∧
    ¬ ∃ code report reward,
      Reported (engine.planRequest (engine.horizonOr horizon)) engine.solver code report ∧
      (code % 2 ≠ 0 ∨ report.result = "UNKNOWN") ∧
      (engine.optimalReturn horizon).result = .ok reward := by
  have finished (request : Request) (solver : Clingo ρ) (models : List Model) :
      (Solver.solve request solver).result = .ok models ↔
        ∃ code report, Reported request solver code report ∧
          code % 2 = 0 ∧ report.result ≠ "UNKNOWN" ∧
          List.Forall₂ Witness.Shows report.calls.flatten models := by
    simp only [solve_eq_ok_iff, not_interrupted_iff, and_assoc]
  refine ⟨finished request solver, ?_, fun budget => solve_eq_timedOut_iff, ?_, ?_⟩
  · simp only [finished, ← Report.exists_models_iff, Report.models_eq_ok_iff]
    constructor
    · rintro ⟨models, code, report, reported, even, known, shown⟩
      exact ⟨code, report, reported, even, known, models, shown⟩
    · rintro ⟨code, report, reported, even, known, models, shown⟩
      exact ⟨models, code, report, reported, even, known, shown⟩
  · intro reward
    rw [optimalReturn_eq_ok_iff]
    simp only [finished]
    constructor
    · rintro ⟨models, model, best, ⟨code, report, reported, even, known, shown⟩, taken⟩
      exact ⟨code, report, models, model, best, reported, even, known, shown, taken⟩
    · rintro ⟨code, report, models, model, best, reported, even, known, shown, taken⟩
      exact ⟨models, model, best, ⟨code, report, reported, even, known, shown⟩, taken⟩
  · rintro ⟨code, report, reward, reported, interrupted, planned⟩
    obtain ⟨models, -, -, answered, -⟩ := optimalReturn_eq_ok_iff.1 planned
    rw [reported.solve_result, conclude_eq_ok_iff] at answered
    exact answered.1 interrupted

example (request : Request) :
    let reply : Reply := ⟨true, Text.toBytes ("\x7b\"Call\":[\x7b\"Witnesses\":[\x7b\"Value\":" ++
      "[\"maxReturn(1)\"]\x7d]\x7d],\"Result\":\"SATISFIABLE\"\x7d"), [], .exited 11⟩
    let settings : Settings := ⟨.ofLandmark .clingo, some ⟨2, 0, by decide⟩, 1⟩
    (Solver.solve request (Clingo.mk settings (Machine.start (Prepared.mk [reply])))).result =
      .error (.timedOut ⟨2, 0, by decide⟩) := by
  rfl

end

end Clingo

end DeclarativeMdp
