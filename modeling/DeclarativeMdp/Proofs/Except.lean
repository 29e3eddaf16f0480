set_option autoImplicit false

namespace DeclarativeMdp

variable {ε α β : Type} {x : Except ε α} {y : β}

theorem map_eq_ok_iff {f : α → β} : x.map f = .ok y ↔ ∃ a, x = .ok a ∧ f a = y := by
  cases x <;> simp [Except.map]

theorem map_eq_error_iff {f : α → β} {error : ε} : x.map f = .error error ↔ x = .error error := by
  cases x <;> simp [Except.map]

theorem bind_eq_ok_iff {f : α → Except ε β} : x >>= f = .ok y ↔ ∃ a, x = .ok a ∧ f a = .ok y := by
  cases x <;> simp [bind, Except.bind]

theorem bind_eq_error_iff {f : α → Except ε β} {error : ε} :
    x >>= f = .error error ↔ x = .error error ∨ ∃ a, x = .ok a ∧ f a = .error error := by
  cases x <;> simp [bind, Except.bind]

theorem mapError_eq_ok_iff {ε' : Type} {f : ε → ε'} {a : α} :
    x.mapError f = .ok a ↔ x = .ok a := by
  cases x with
  | error => exact ⟨nofun, nofun⟩
  | ok b =>
    change Except.ok b = Except.ok a ↔ Except.ok b = Except.ok a
    rw [Except.ok.injEq, Except.ok.injEq]

section

variable {f : α → Except ε β} {xs : List α}

theorem mapM_eq_ok_iff {ys : List β} :
    xs.mapM f = .ok ys ↔ xs.map f = ys.map .ok := by
  induction xs generalizing ys with
  | nil => cases ys <;> simp [pure, Except.pure]
  | cons x xs ih =>
    rw [List.mapM_cons, bind_eq_ok_iff]
    cases ys with
    | nil => simp [bind_eq_ok_iff, pure, Except.pure]
    | cons y ys => simp [bind_eq_ok_iff, pure, Except.pure, ih]

theorem exists_mapM_eq_ok_iff :
    (∃ ys, xs.mapM f = .ok ys) ↔ ∀ x ∈ xs, ∃ y, f x = .ok y := by
  simp only [mapM_eq_ok_iff]
  induction xs with
  | nil => exact ⟨nofun, fun _ => ⟨[], rfl⟩⟩
  | cons x xs ih =>
    rw [List.forall_mem_cons, ← ih]
    constructor
    · rintro ⟨ys, each⟩
      cases ys with
      | nil => simp at each
      | cons y ys => exact ⟨⟨y, (List.cons.inj each).1⟩, ys, (List.cons.inj each).2⟩
    · rintro ⟨⟨y, first⟩, ys, rest⟩
      exact ⟨y :: ys, by rw [List.map_cons, first, rest, List.map_cons]⟩

theorem mapM_eq_error_iff {error : ε} :
    xs.mapM f = .error error ↔
      ∃ i : Nat, (xs.map f)[i]? = some (.error error) ∧
        ∀ j < i, ∃ y, (xs.map f)[j]? = some (.ok y) := by
  induction xs with
  | nil => simp [pure, Except.pure]
  | cons x xs ih =>
    rw [List.mapM_cons, List.map_cons]
    cases first : f x with
    | error other =>
      have failing : (do let y ← Except.error other; return y :: (← xs.mapM f)) =
          Except.error (α := List β) other := rfl
      rw [failing, Except.error.injEq]
      constructor
      · rintro rfl
        exact ⟨0, rfl, fun j early => absurd early j.not_lt_zero⟩
      · rintro ⟨i, failed, earlier⟩
        cases i with
        | zero => exact Except.error.inj (Option.some.inj failed)
        | succ i =>
          obtain ⟨y, succeeded⟩ := earlier 0 (by omega)
          simp at succeeded
    | ok y =>
      have later : (do return y :: (← xs.mapM f)) = .error error ↔ xs.mapM f = .error error := by
        cases xs.mapM f <;> simp [bind, Except.bind, pure, Except.pure]
      refine later.trans (ih.trans ?_)
      constructor
      · rintro ⟨i, failed, earlier⟩
        refine ⟨i + 1, failed, fun j early => ?_⟩
        cases j with
        | zero => exact ⟨y, rfl⟩
        | succ j => exact earlier j (by omega)
      · rintro ⟨i, failed, earlier⟩
        cases i with
        | zero => simp at failed
        | succ i => exact ⟨i, failed, fun j early => earlier (j + 1) (by omega)⟩

theorem exists_of_mapM_eq_error {error : ε} (failed : xs.mapM f = .error error) :
    ∃ x ∈ xs, f x = .error error := by
  obtain ⟨i, at_i, -⟩ := mapM_eq_error_iff.1 failed
  exact List.mem_map.1 (List.mem_of_getElem? at_i)

end

theorem mapM_eq_some_iff {f : α → Option β} {xs : List α} {ys : List β} :
    xs.mapM f = some ys ↔ xs.map f = ys.map some := by
  induction xs generalizing ys with
  | nil => cases ys <;> simp
  | cons x xs ih =>
    rw [List.mapM_cons]
    cases ys with
    | nil => simp [Option.bind_eq_some_iff]
    | cons y ys => simp [Option.bind_eq_some_iff, ih]

end DeclarativeMdp
