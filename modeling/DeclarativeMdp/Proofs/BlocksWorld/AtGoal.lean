import DeclarativeMdp.Proofs.BlocksWorld.Planning
import Mathlib.Data.List.Induction

set_option autoImplicit false

namespace DeclarativeMdp.BlocksWorld

def Fluent.Displaces (later earlier : Fluent) : Prop :=
  ∃ x y z, later = .on x y ∧ earlier = .on x z

def Prevails (facts : List Fact) (f : Fluent) : Prop :=
  ∃ before fact after, facts = before ++ fact :: after ∧ Fluent.read fact = .ok f ∧
    ∀ later ∈ after, ∀ g, Fluent.read later = .ok g → ¬ g.Displaces f

theorem prevails_concat {facts : List Fact} {last : Fact} {f : Fluent} :
    Prevails (facts ++ [last]) f ↔
      Fluent.read last = .ok f ∨
        Prevails facts f ∧ ∀ g, Fluent.read last = .ok g → ¬ g.Displaces f := by
  constructor
  · rintro ⟨before, fact, after, split, reads, kept⟩
    rcases after.eq_nil_or_concat with rfl | ⟨after, final, rfl⟩
    · obtain ⟨-, same⟩ := List.append_inj' split rfl
      rw [List.singleton_inj.1 same]
      exact .inl reads
    · rw [List.concat_eq_append, ← List.cons_append, ← List.append_assoc] at split
      obtain ⟨early, same⟩ := List.append_inj' split rfl
      obtain ⟨earlier, final⟩ := List.forall_mem_append.1 (List.concat_eq_append ▸ kept)
      rw [List.singleton_inj.1 same]
      exact .inr ⟨⟨before, fact, after, early, reads, earlier⟩, final _ (by simp)⟩
  · rintro (reads | ⟨⟨before, fact, after, rfl, reads, kept⟩, final⟩)
    · exact ⟨facts, last, [], rfl, reads, List.forall_mem_nil _⟩
    · refine ⟨before, fact, after ++ [last], by simp, reads, ?_⟩
      exact List.forall_mem_append.2 ⟨kept, List.forall_mem_singleton.2 final⟩

namespace World

variable {w : World} {f g : Fluent}

theorem holds_put_iff : (w.put g).Holds f ↔ f = g ∨ w.Holds f ∧ ¬ g.Displaces f := by
  constructor
  · intro holds
    by_cases same : f = g
    · exact .inl same
    refine .inr ⟨(holds_put holds).resolve_left same, ?_⟩
    rintro ⟨x, y, z, rfl, rfl⟩
    rcases mem_stack.1 holds with ⟨-, rfl⟩ | ⟨-, apart⟩
    · exact same rfl
    · exact apart rfl
  · rintro (rfl | ⟨before, kept⟩)
    · exact put_holds _
    · exact put_keeps before fun x y z isOn other => absurd ⟨x, y, z, isOn, other⟩ kept

theorem holds_iff_of_foldlM {facts : List Fact} (built : facts.foldlM addFact empty = .ok w) :
    w.Holds f ↔ Prevails facts f := by
  induction facts using List.reverseRecOn generalizing w with
  | nil =>
    obtain rfl := Except.ok.inj built
    constructor
    · intro holds
      cases f <;> simp [empty, Holds] at holds
    · rintro ⟨before, fact, after, split, -⟩
      simp at split
  | append_singleton facts last ih =>
    rw [List.foldlM_append] at built
    obtain ⟨middle, early, late⟩ := bind_eq_ok_iff.1 built
    obtain ⟨fluent, reads, final⟩ := foldlM_addFact_cons.1 late
    obtain rfl := Except.ok.inj final
    rw [holds_put_iff, ih early, prevails_concat, reads]
    simp only [Except.ok.injEq, forall_eq', eq_comm]

theorem holds_iff_prevails {state : State} (read : ofState state = .ok w) :
    w.Holds f ↔ Prevails state.toList f :=
  holds_iff_of_foldlM read

end World

def Rests (engine : Engine BlocksWorld) : Prop :=
  engine.isTerminal = true ∧
    ∀ horizon, (engine.optimalReturn (some horizon)).result = .ok 0.0

variable {engine : Engine BlocksWorld} {w : World}

theorem InWorld.rests_of_reaches (inWorld : InWorld engine w) (reached : w.Reaches engine.goal) :
    Rests engine := by
  refine ⟨inWorld.isTerminal_iff.2 (World.moves_of_reaches reached), fun horizon => ?_⟩
  rw [optimalReturn_result inWorld.read, World.planLength_of_reaches reached]
  rfl

theorem InWorld.optimalReturn_of_away (inWorld : InWorld engine w)
    (away : ¬ w.Reaches engine.goal) :
    (engine.optimalReturn (some 0)).result = .error (.modelNotFound .optimalReturn) := by
  have none : w.planLength engine.goal (engine.horizonOr (some 0)).toNat = none :=
    World.planLength_zero_of_not_reaches away
  rw [optimalReturn_result inWorld.read, none]

theorem InWorld.rests_iff (inWorld : InWorld engine w) :
    Rests engine ↔ w.Reaches engine.goal := by
  refine ⟨fun rests => ?_, inWorld.rests_of_reaches⟩
  by_contra away
  have found := rests.2 0
  rw [inWorld.optimalReturn_of_away away] at found
  simp at found

theorem InWorld.reaches_iff (inWorld : InWorld engine w) (goal : State) :
    w.Reaches goal ↔
      ∀ fact ∈ goal, ∃ f : Fluent, f.fact = fact ∧ Prevails engine.state.toList f := by
  have written (fact : Fact) : fact ∈ w.toState ↔
      ∃ f : Fluent, f.fact = fact ∧ Prevails engine.state.toList f := by
    simp only [World.mem_toState, World.holds_iff_prevails inWorld.read, and_comm]
  exact forall_congr' fun fact => imp_congr_right fun _ => written fact

def PrintedAfterStep (engine : Engine BlocksWorld) (world : World) : Prop :=
  InWorld engine world ∧ (0 < engine.trajectory.stepCount → world.toState = engine.state)

theorem printedAfterStep_invariant : Invariant PrintedAfterStep where
  inWorld _ _ printedAfterStep := printedAfterStep.1
  consulted _ _ request printedAfterStep :=
    ⟨printedAfterStep.1.consulted request, printedAfterStep.2⟩
  advance _ _ action _ printedAfterStep possible := by
    obtain ⟨world, inWorld, alike⟩ := printedAfterStep.1.advance action possible
    exact ⟨world, inWorld, fun _ => alike.toState_eq⟩

-- What the engine takes for the goal and what the solver does. They agree from the first step on,
-- and before it as well if each fact is written as it is printed and no block stands on two others.
-- Else a fact of the goal that holds in the state may be missing in the world read from it, and
-- then there is no plan that starts with having arrived.
theorem rests_iff_prevails {initial goal : State} {programs : ProgramSet} {solver : BlocksWorld}
    {config : Config}
    (made : (Engine.create initial goal programs solver config).result = .ok engine)
    (operations : List Operation) :
    let last := engine.performAll operations
    (Rests last ↔
        ∀ fact ∈ goal, ∃ f : Fluent, f.fact = fact ∧ Prevails last.state.toList f) ∧
      (¬ Rests last →
        (last.optimalReturn (some 0)).result = .error (.modelNotFound .optimalReturn)) ∧
      (0 < last.trajectory.stepCount → (last.GoalReached ↔ Rests last)) ∧
      ((∀ fact ∈ last.state, ∃ f, Fluent.read fact = .ok f ∧ f.fact = fact) →
        World.OneSupport last.state → (last.GoalReached ↔ Rests last)) := by
  intro last
  have consistent := (Engine.create_consistent made).performAll operations
  obtain ⟨start, begun⟩ := create_inWorld made
  have fresh : PrintedAfterStep engine start := by
    obtain ⟨-, available, -, rfl⟩ := Engine.create_eq_ok_iff.1 made
    exact ⟨begun, fun stepped => absurd stepped (Nat.lt_irrefl 0)⟩
  obtain ⟨w, inWorld, printedAfterStep⟩ := printedAfterStep_invariant.performAll fresh operations
  have agree (same : w.toState = last.state) : last.GoalReached ↔ Rests last :=
    (InPrintedWorld.goalReached_iff ⟨inWorld, same⟩).trans inWorld.rests_iff.symm
  refine ⟨?_, fun moving => ?_, fun stepped => agree (printedAfterStep stepped),
    fun canonical oneSupport => ?_⟩
  · rw [inWorld.rests_iff, inWorld.reaches_iff, consistent.goal_kept]
  · exact inWorld.optimalReturn_of_away fun reached => moving (inWorld.rests_of_reaches reached)
  · have same (f : Fluent) : w.Holds f ↔ Says last.state f := by
      rw [World.holds_eq_says oneSupport inWorld.read]
    exact agree (World.toState_eq same canonical)

theorem rests_iff_prevails_tower :
    ∃ engine : Engine BlocksWorld,
      (Engine.create (tower "a" "b") (.ofTexts ["on(a,b)"]) default start .standard).result =
          .ok engine ∧
        engine.GoalReached ∧ Rests engine := by
  have a : IsConstant "a" := by decide
  have b : IsConstant "b" := by decide
  have named := named_tower a.isBlock b.isBlock
  obtain ⟨w, read, -⟩ :=
    World.exists_world_of_fluents [.clear "a", .on "a" "b", .onTable "b"] named
      (by simp +contextual)
  obtain ⟨engine, made, -, stands, goal, -⟩ := exists_created read (.ofTexts ["on(a,b)"]) default
  obtain ⟨-, -, -, agree⟩ := rests_iff_prevails made []
  have reached : engine.GoalReached := by
    rw [Engine.GoalReached, stands, goal]
    intro fact wanted
    have same : fact = .ofText "on(a,b)" := by
      simpa [State.ofTexts] using SortedSet.mem_ofList.1 wanted
    rw [same]
    exact SortedSet.mem_ofList.2 (.tail _ (.head _))
  have canonical : ∀ fact ∈ engine.state, ∃ f, Fluent.read fact = .ok f ∧ f.fact = fact := by
    rw [stands]
    exact canonical_ofList named
  have oneSupport : World.OneSupport engine.state := by
    rw [stands]
    exact (canonicalState_tower a b).oneSupport
  exact ⟨engine, made, reached, (agree canonical oneSupport).1 reached⟩

section

variable {cs ds : List Char} {s t : Term}

theorem read_of_derives (name : List Char) {inner : List Char} {args : List Term} {f : Fluent}
    (named : Term.IsName name) (derived : Term.DerivesArgs inner args)
    (meaning : Fluent.ofTerm? (.function (String.ofList name) args) = some f) :
    Fluent.read ⟨String.ofList (name ++ inner)⟩ = .ok f := by
  refine Fluent.read_eq_ok_iff.2 ⟨_, Term.parse_eq_ok_iff.2 ?_, meaning⟩
  refine ⟨[], name ++ [] ++ inner, [], by simp [String.toList_ofList], Term.blanks_nil, ?_,
    Term.blanks_nil⟩
  exact .function named Term.blanks_nil derived

theorem derivesArgs_one (first : Term.Derives cs s) :
    Term.DerivesArgs ('(' :: cs ++ [')']) [s] := by
  simpa using Term.DerivesArgs.some Term.blanks_nil first Term.blanks_nil .close

theorem derivesArgs_two (first : Term.Derives cs s) (second : Term.Derives ds t) :
    Term.DerivesArgs ('(' :: cs ++ ',' :: ds ++ [')']) [s, t] := by
  have more := Term.DerivesMore.next Term.blanks_nil second Term.blanks_nil .close
  simpa using Term.DerivesArgs.some Term.blanks_nil first Term.blanks_nil more

end

theorem says_ofTexts_iff {pairs : List (String × Fluent)}
    (reads : ∀ pair ∈ pairs, Fluent.read (.ofText pair.1) = .ok pair.2) {f : Fluent} :
    Says (.ofTexts (pairs.map (·.1))) f ↔ f ∈ pairs.map (·.2) := by
  constructor
  · rintro ⟨fact, present, meant⟩
    obtain ⟨text, listed, rfl⟩ := List.mem_map.1 (SortedSet.mem_ofList.1 present)
    obtain ⟨pair, there, rfl⟩ := List.mem_map.1 listed
    rw [Except.ok.inj (meant.symm.trans (reads pair there))]
    exact List.mem_map_of_mem there
  · intro listed
    obtain ⟨pair, there, rfl⟩ := List.mem_map.1 listed
    refine ⟨.ofText pair.1, SortedSet.mem_ofList.2 ?_, reads pair there⟩
    exact List.mem_map_of_mem (List.mem_map_of_mem there)

theorem exists_world_of_texts {pairs : List (String × Fluent)}
    (reads : ∀ pair ∈ pairs, Fluent.read (.ofText pair.1) = .ok pair.2)
    (oneSupport : ∀ x y z, .on x y ∈ pairs.map (·.2) → .on x z ∈ pairs.map (·.2) → y = z) :
    ∃ w, World.ofState (.ofTexts (pairs.map (·.1))) = .ok w ∧
      ∀ f, w.Holds f ↔ f ∈ pairs.map (·.2) := by
  have readable : ∀ fact ∈ State.ofTexts (pairs.map (·.1)), ∃ f, Fluent.read fact = .ok f := by
    intro fact present
    obtain ⟨text, listed, rfl⟩ := List.mem_map.1 (SortedSet.mem_ofList.1 present)
    obtain ⟨pair, there, rfl⟩ := List.mem_map.1 listed
    exact ⟨pair.2, reads pair there⟩
  have once : World.OneSupport (.ofTexts (pairs.map (·.1))) := fun x y z left right =>
    oneSupport x y z ((says_ofTexts_iff reads).1 left) ((says_ofTexts_iff reads).1 right)
  obtain ⟨w, read, same⟩ := World.exists_world readable once
  exact ⟨w, read, fun f => (same f).trans (says_ofTexts_iff reads)⟩

def padded : List (String × Fluent) :=
  [("clear(01)", .clear "1"), ("on(01,02)", .on "1" "2"), ("ontable(02)", .onTable "2")]

def paddedTower : State := .ofTexts (padded.map (·.1))

theorem read_padded : ∀ pair ∈ padded, Fluent.read (.ofText pair.1) = .ok pair.2 := by
  have one : Term.Derives ['0', '1'] (.number 1) :=
    .integer (.unsigned (by decide) (List.all_eq_true.1 rfl) (by decide))
  have two : Term.Derives ['0', '2'] (.number 2) :=
    .integer (.unsigned (by decide) (List.all_eq_true.1 rfl) (by decide))
  have clear : Fluent.read (.ofText "clear(01)") = .ok (.clear "1") :=
    read_of_derives "clear".toList (by decide) (derivesArgs_one one) rfl
  have on : Fluent.read (.ofText "on(01,02)") = .ok (.on "1" "2") :=
    read_of_derives "on".toList (by decide) (derivesArgs_two one two) rfl
  have onTable : Fluent.read (.ofText "ontable(02)") = .ok (.onTable "2") :=
    read_of_derives "ontable".toList (by decide) (derivesArgs_one two) rfl
  simp [padded, clear, on, onTable]

-- The goal is the very state that the engine starts in, and there is a move to make and no way to
-- it: the solver writes the same facts with numbers of one digit.
theorem padded_goal_not_at_rest :
    ∃ engine : Engine BlocksWorld,
      (Engine.create paddedTower paddedTower default start .standard).result = .ok engine ∧
        engine.GoalReached ∧ engine.isTerminal = false ∧
        (engine.optimalReturn (some 0)).result = .error (.modelNotFound .optimalReturn) := by
  obtain ⟨w, read, same⟩ := exists_world_of_texts read_padded (by simp +contextual [padded])
  have holds (f : Fluent) : w.Holds f ↔ f ∈ [Fluent.clear "1", .on "1" "2", .onTable "2"] :=
    same f
  have proper := World.ofState_proper read
  obtain ⟨engine, made, inWorld, stands, goal, -⟩ := exists_created read paddedTower default
  have away : ¬ w.Reaches engine.goal := by
    intro reached
    rw [goal] at reached
    have wanted : Fact.ofText "on(01,02)" ∈ paddedTower :=
      SortedSet.mem_ofList.2 (.tail _ (.head _))
    obtain ⟨f, there, written⟩ := World.mem_toState.1 (reached _ wanted)
    rw [holds] at there
    have none : ∀ f ∈ [Fluent.clear "1", .on "1" "2", .onTable "2"],
        f.fact ≠ .ofText "on(01,02)" := by decide
    exact none f there written
  have possible : ⟨"1", table⟩ ∈ w.moves engine.goal :=
    proper.mem_moves.2 ⟨away, World.mem_blocks.2 (.inl ⟨"2", by simp [holds]⟩), by simp [holds],
      .inl ⟨rfl, "2", by simp [holds]⟩⟩
  refine ⟨engine, made, ?_, ?_, inWorld.optimalReturn_of_away away⟩
  · rw [Engine.GoalReached, stands, goal]
    exact fun fact wanted => wanted
  · rw [← Bool.not_eq_true, inWorld.isTerminal_iff]
    intro none
    simp [none] at possible

end DeclarativeMdp.BlocksWorld
