import DeclarativeMdp.Model
import DeclarativeMdp.Request

set_option autoImplicit false

namespace DeclarativeMdp

@[simp] theorem Term.unary_inj {name other : String} {s t : Term} :
    Term.unary name s = .unary other t ↔ name = other ∧ s = t := by
  simp [Term.unary]

theorem Term.matches_unary {name : String} (named : name ≠ "") {term : Term} :
    term.Matches ⟨name, 1⟩ ↔ ∃ arg, term = .unary name arg := by
  constructor
  · rintro ⟨called, arity⟩
    cases term with
    | number | text => simp [Term.name?] at called
    | symbol => simp [Term.args] at arity
    | function other args =>
      obtain ⟨arg, rfl⟩ := List.length_eq_one_iff.1 (show args.length = 1 from arity)
      have same : other = name := by
        simp only [Term.name?] at called
        split at called <;> simp_all
      exact ⟨arg, by rw [same, Term.unary]⟩
  · rintro ⟨arg, rfl⟩
    exact ⟨by simp [Term.name?, Term.unary, String.isEmpty_iff, named], rfl⟩

namespace Model

theorem mem_argumentsOf {name : String} (named : name ≠ "") {model : Model} {arg : Term} :
    arg ∈ model.argumentsOf ⟨name, 1⟩ ↔ .unary name arg ∈ model.atoms := by
  simp only [argumentsOf, atomsOf, List.mem_filterMap, List.mem_filter, decide_eq_true_eq,
    Term.matches_unary named]
  constructor
  · rintro ⟨_, ⟨present, other, rfl⟩, first⟩
    have same : other = arg := by simpa [Term.unary, Term.args] using first
    exact same ▸ present
  · intro present
    exact ⟨_, ⟨present, arg, rfl⟩, rfl⟩

theorem uniqueNumber_eq_ok_iff {name : String} (named : name ≠ "") {model : Model}
    {value : Int64} :
    model.uniqueNumber ⟨name, 1⟩ = .ok value ↔
      model.atomsOf ⟨name, 1⟩ = [.unary name (.number value)] := by
  have shape : ∀ atom ∈ model.atomsOf ⟨name, 1⟩, ∃ arg, atom = .unary name arg := by
    intro atom present
    simpa [Term.matches_unary named] using (List.mem_filter.1 present).2
  unfold uniqueNumber
  split
  next none => simp [none]
  next atom only =>
    obtain ⟨arg, rfl⟩ := shape atom (by simp [only])
    rw [only]
    cases arg <;> simp [Term.unary, Term.args, Term.number?]
  next several => simp [several]

theorem exists_of_uniqueNumber {signature : Signature} {model : Model} {error : Error}
    (failed : model.uniqueNumber signature = .error error) :
    ∃ atom flaw, error = .malformedAtom atom flaw := by
  unfold uniqueNumber at failed
  split at failed
  next => exact ⟨_, _, (Except.error.inj failed).symm⟩
  next =>
    split at failed
    next => simp at failed
    next => exact ⟨_, _, (Except.error.inj failed).symm⟩
  next => exact ⟨_, _, (Except.error.inj failed).symm⟩

theorem exists_of_single {query : Query} {models : List Model} {error : Error}
    (failed : single query models = .error error) :
    error = .modelNotFound query ∨ ∃ count, error = .ambiguousModel query count := by
  unfold single at failed
  split at failed
  next => exact .inl (Except.error.inj failed).symm
  next => simp at failed
  next => exact .inr ⟨_, (Except.error.inj failed).symm⟩

theorem single_eq_ok_iff {query : Query} {models : List Model} {model : Model} :
    single query models = .ok model ↔ models = [model] := by
  match models with
  | [] => simp [single]
  | [_] => simp [single]
  | _ :: _ :: _ => simp [single]

end Model

end DeclarativeMdp
