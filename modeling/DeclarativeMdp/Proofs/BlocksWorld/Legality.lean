import DeclarativeMdp.Proofs.BlocksWorld.Runs

set_option autoImplicit false

namespace DeclarativeMdp.BlocksWorld

def OverConstants (action : Action) : Prop :=
  ∃ x y, action.term = .ok (.function "move" [.symbol x, .symbol y])

variable {engine : Engine BlocksWorld} {w : World} {action : Action}

theorem exists_terms_of_mem_moves {move : Move} {goal : State} (proper : w.Proper)
    (possible : move ∈ w.moves goal) :
    ∃ s t : Term, (Term.function "move" [s, t]).WellNamed ∧ move = ⟨s.render, t.render⟩ ∧
      move.term.render = (Term.function "move" [s, t]).render := by
  obtain ⟨x, y⟩ := move
  obtain ⟨⟨s, sNamed, rfl⟩, ⟨t, tNamed, rfl⟩⟩ :=
    World.Names.of_feasible (p := IsBlock) proper.named isConstant_table.isBlock
      (proper.mem_moves.1 possible).2
  refine ⟨s, t, ⟨.inr (by decide), sNamed, tNamed, trivial⟩, rfl, ?_⟩
  simp [Move.term, Term.render, Term.chars, Term.charsAll, Term.closing]

theorem term_of_offered (proper : w.Proper) (offered : action ∈ w.offered engine.goal) :
    ∃ s t, action.term = .ok (.function "move" [s, t]) ∧
      ⟨s.render, t.render⟩ ∈ w.moves engine.goal := by
  obtain ⟨move, possible, rfl⟩ := World.mem_offered.1 offered
  obtain ⟨s, t, named, rfl, same⟩ := exists_terms_of_mem_moves proper possible
  refine ⟨s, t, ?_, possible⟩
  rw [Action.ofTerm, same]
  exact Action.term_ofTerm named

theorem accepted_of_offered (inWorld : InWorld engine w) (offered : action ∈ engine.available)
    (constants : OverConstants action) :
    ∃ move ∈ w.moves engine.goal, action.term = .ok move.term := by
  rw [inWorld.available] at offered
  obtain ⟨s, t, meant, possible⟩ := term_of_offered inWorld.proper offered
  obtain ⟨x, y, again⟩ := constants
  have same := Except.ok.inj (meant.symm.trans again)
  simp only [Term.function.injEq, List.cons.injEq, and_true, true_and] at same
  obtain ⟨rfl, rfl⟩ := same
  refine ⟨⟨x, y⟩, ?_, meant⟩
  simpa only [render_symbol] using possible

theorem exists_accepted :
    ∃ engine : Engine BlocksWorld, engine.Reachable ∧ ⟨"move(a,table)"⟩ ∈ engine.available ∧
      ∃ reward, (engine.transition ⟨"move(a,table)"⟩).result = .ok reward := by
  have a : IsConstant "a" := by decide
  have b : IsConstant "b" := by decide
  obtain ⟨engine, made, _, _, offered⟩ := exists_tower a.isBlock b.isBlock (by decide) default
  obtain ⟨w, inWorld⟩ := create_inWorld made
  have constants : OverConstants ⟨"move(a,table)"⟩ := by
    refine ⟨"a", table, Action.term_ofTerm (t := .function "move" [.symbol "a", .symbol table]) ?_⟩
    simp only [Term.WellNamed, Term.AllWellNamed]
    decide
  obtain ⟨move, possible, meant⟩ := accepted_of_offered inWorld offered constants
  have stepped := stepAnswer_of_mem_moves inWorld.read possible meant
  exact ⟨engine, .created made, offered, _,
    (Engine.transition_advanced (fun refused => refused.2 offered) stepped).1⟩

theorem turned_away (inWorld : InWorld engine w) (offered : action ∈ engine.available)
    (other : ¬ OverConstants action) :
    (engine.transition action).result = .error (.modelNotFound .transition) := by
  have asked : ¬ engine.Refuses action := fun refused => refused.2 offered
  obtain ⟨s, t, meant, -⟩ := term_of_offered inWorld.proper (inWorld.available ▸ offered)
  have impossible : ∀ move ∈ w.moves engine.goal, move.term ≠ .function "move" [s, t] := by
    intro move _ same
    rw [← same] at meant
    exact other ⟨move.block, move.target, meant⟩
  exact (Engine.transition_failed asked
    (stepAnswer_of_not_mem_moves inWorld.read meant impossible)).1

-- What is advertised is accepted as long as the blocks are constants. All other moves that are
-- advertised are turned away by the solver, which looks for a move of constants.
theorem transition_ok_iff (reachable : engine.Reachable)
    (checked : engine.config.checkLegality = true) (action : Action) :
    ((∃ reward, (engine.transition action).result = .ok reward) ↔
        action ∈ engine.available ∧ OverConstants action) ∧
      (action ∉ engine.available →
        engine.transition action = ⟨.error (.illegalAction action), [], engine⟩) ∧
      (action ∈ engine.available → ¬ OverConstants action →
        (engine.transition action).result = .error (.modelNotFound .transition)) := by
  obtain ⟨w, inWorld⟩ := inWorld_of_reachable reachable
  have refuses : engine.Refuses action ↔ action ∉ engine.available := by
    simp [Engine.Refuses, checked]
  refine ⟨?_, fun missing => Engine.transition_refused (refuses.2 missing), ?_⟩
  · simp only [Engine.transition_eq_ok_iff, refuses, not_not]
    constructor
    · rintro ⟨reward, offered, successor, stepped, -⟩
      obtain ⟨move, -, meant, -⟩ := inWorld.stepAnswer stepped
      exact ⟨offered, move.block, move.target, meant⟩
    · rintro ⟨offered, constants⟩
      obtain ⟨move, possible, meant⟩ := accepted_of_offered inWorld offered constants
      exact ⟨_, offered, _, stepAnswer_of_mem_moves inWorld.read possible meant, rfl⟩
  · exact turned_away inWorld

theorem transition_ok_iff_tower :
    ∃ engine : Engine BlocksWorld, engine.Reachable ∧ engine.config.checkLegality = true ∧
      ∃ reward, (engine.transition ⟨"move(a,table)"⟩).result = .ok reward := by
  have a : IsConstant "a" := by decide
  have b : IsConstant "b" := by decide
  obtain ⟨engine, made, -, standard, offered⟩ :=
    exists_tower a.isBlock b.isBlock (by decide) default
  have reachable := Engine.Reachable.created made
  have checked : engine.config.checkLegality = true := by rw [standard]; rfl
  refine ⟨engine, reachable, checked, (transition_ok_iff reachable checked _).1.2 ⟨offered, ?_⟩⟩
  refine ⟨"a", table, Action.term_ofTerm (t := .function "move" [.symbol "a", .symbol table]) ?_⟩
  simp only [Term.WellNamed, Term.AllWellNamed]
  decide

theorem numbered_turned_away :
    ∃ engine : Engine BlocksWorld,
      (Engine.create (.ofTexts ["clear(1)", "on(1,2)", "ontable(2)"]) (.ofTexts ["on(2,1)"])
        default start .standard).result = .ok engine ∧
        ⟨"move(1,table)"⟩ ∈ engine.available ∧
        (engine.transition ⟨"move(1,table)"⟩).result = .error (.modelNotFound .transition) := by
  have one : IsBlock "1" := ⟨.number 1, trivial, by decide⟩
  have two : IsBlock "2" := ⟨.number 2, trivial, by decide⟩
  obtain ⟨engine, made, -, standard, offered⟩ := exists_tower one two (by decide) default
  obtain ⟨w, inWorld⟩ := create_inWorld made
  have meant : (⟨"move(1,table)"⟩ : Action).term =
      .ok (.function "move" [.number 1, .symbol table]) := by
    refine Action.term_ofTerm (t := .function "move" [.number 1, .symbol table]) ?_
    simp only [Term.WellNamed, Term.AllWellNamed]
    decide
  refine ⟨engine, made, offered, turned_away inWorld offered ?_⟩
  rintro ⟨x, y, constants⟩
  simp [meant] at constants

end DeclarativeMdp.BlocksWorld
