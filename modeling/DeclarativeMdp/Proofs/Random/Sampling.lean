import DeclarativeMdp.Random.Generator

set_option autoImplicit false

namespace DeclarativeMdp.Generator

variable {n i bits attempts : Nat} {g next : Generator}

theorem word_lt (g : Generator) : g.word.1 < Nat.pow 2 32 := UInt32.toNat_lt _

theorem doubleWord_lt (g : Generator) : g.doubleWord.1 < Nat.pow 2 64 := by
  have low := g.word_lt
  have high := g.word.2.word_lt
  change g.word.1 + UInt32.size * g.word.2.word.1 < _
  simp only [UInt32.size, Nat.reducePow, Nat.pow_eq] at *
  omega

theorem scale_lt {draw : Nat} (positive : 0 < n) (short : draw < Nat.pow 2 bits)
    (scaled : scale bits n draw = some i) : i < n := by
  unfold scale at scaled
  dsimp only at scaled
  split at scaled
  next =>
    cases scaled
    have span : 0 < Nat.pow 2 bits := Nat.pow_pos (by decide)
    apply (Nat.div_lt_iff_lt_mul span).2
    rw [Nat.mul_comm]
    exact Nat.mul_lt_mul_of_pos_left short positive
  next => exact nomatch scaled

theorem exists_of_drawScaled {draw : Generator → Nat × Generator}
    (drawn : drawScaled bits draw n attempts g = some (i, next)) :
    ∃ before, scale bits n (draw before).1 = some i ∧ next = (draw before).2 := by
  induction attempts generalizing g with
  | zero => exact nomatch drawn
  | succ attempts ih =>
    unfold drawScaled at drawn
    dsimp only at drawn
    split at drawn
    next index scaled =>
      cases drawn
      exact ⟨g, scaled, rfl⟩
    next => exact ih drawn

theorem index_lt (positive : 0 < n) (drawn : g.index n = some (i, next)) : i < n := by
  unfold index at drawn
  split at drawn
  next =>
    have ⟨before, scaled, _⟩ := exists_of_drawScaled drawn
    exact scale_lt positive before.word_lt scaled
  next =>
    have ⟨before, scaled, _⟩ := exists_of_drawScaled drawn
    exact scale_lt positive before.doubleWord_lt scaled

section

variable {α : Type} {items : List α}

theorem mem_of_choose {item : α} (chosen : (g.choose items).1 = some item) : item ∈ items := by
  unfold choose at chosen
  split at chosen
  next => exact nomatch chosen
  next =>
    split at chosen
    next i after drawn => exact List.mem_of_getElem? chosen
    next => exact nomatch chosen

theorem choose_eq_none_iff :
    (g.choose items).1 = none ↔ items = [] ∨ g.index items.length = none := by
  unfold choose
  cases items with
  | nil => simp
  | cons first rest =>
    cases drawn : g.index (first :: rest).length with
    | none => simp
    | some pair =>
      have inside := index_lt (Nat.succ_pos _) (show g.index _ = some (pair.1, pair.2) from drawn)
      simpa [drawn] using inside

end

end DeclarativeMdp.Generator
