import DeclarativeMdp.Proofs.BlocksWorld.Runs
import DeclarativeMdp.Proofs.BlocksWorld.Search

set_option autoImplicit false

namespace DeclarativeMdp

def Decimal.whole? (x : Float) : Option Int :=
  match Binary.ofFloat x with
  | .finite negative mantissa exponent =>
    let ratio := Ratio.ofBinary mantissa exponent
    let size := ratio.num / ratio.den
    if ratio.num % ratio.den = 0 then some (if negative then -size else size) else none
  | _ => none

namespace BlocksWorld

structure CanonicalState (state : State) : Prop where
  canonical : ∀ fact ∈ state, ∃ t, fact.term = .ok t ∧ fact = .ofTerm t ∧
    ∀ arg ∈ t.args, ∃ name, arg = .symbol name
  single : ∀ fact ∈ state, ∀ other ∈ state, ∀ x y z, fact.term = .ok (.function "on" [x, y]) →
    other.term = .ok (.function "on" [x, z]) → y = z

inductive Plays : Engine BlocksWorld → List Action → List Float → Engine BlocksWorld → Prop
  | stop (engine : Engine BlocksWorld) : Plays engine [] [] engine
  | step {engine last : Engine BlocksWorld} {action : Action} {actions : List Action}
      {reward : Float} {rewards : List Float}
      (accepted : (engine.transition action).result = .ok reward)
      (rest : Plays (engine.transition action).next actions rewards last) :
      Plays engine (action :: actions) (reward :: rewards) last

def total? : List Float → Option Int
  | [] => some 0
  | reward :: rewards => do return (← Decimal.whole? reward) + (← total? rewards)

def totals (engine : Engine BlocksWorld) (horizon : Nat) : Set Int :=
  { total | ∃ actions rewards last, Plays engine actions rewards last ∧ last.GoalReached ∧
    actions.length ≤ horizon ∧ total? rewards = some total }

structure InPrintedWorld (engine : Engine BlocksWorld) (world : World) : Prop where
  inWorld : InWorld engine world
  same : world.toState = engine.state

section

variable {engine : Engine BlocksWorld} {w : World}

theorem InPrintedWorld.goalReached_iff (inPrintedWorld : InPrintedWorld engine w) :
    engine.GoalReached ↔ w.Reaches engine.goal := by
  rw [World.Reaches, inPrintedWorld.same]
  rfl

structure MovesTo (engine next : Engine BlocksWorld) (world : World) : Prop where
  goal : next.goal = engine.goal
  inPrintedWorld : ∃ v, InPrintedWorld next v ∧ v.Alike world

theorem InPrintedWorld.advance {action : Action} {move : Move}
    (inPrintedWorld : InPrintedWorld engine w) (possible : move ∈ w.moves engine.goal)
    (asked : ¬ engine.Refuses action) (meant : action.term = .ok move.term) :
    (engine.transition action).result =
        .ok (Decimal.ofInteger (.ofInt ((w.apply move).earned engine.goal))) ∧
      MovesTo engine (engine.transition action).next (w.apply move) := by
  have stepped := stepAnswer_of_mem_moves inPrintedWorld.inWorld.read possible meant
  obtain ⟨result, next⟩ := Engine.transition_advanced asked stepped
  have inWorld := inPrintedWorld.inWorld.consulted (engine.transitionRequest action)
  obtain ⟨v, vInWorld, alike⟩ := inWorld.advance action possible
  rw [next]
  exact ⟨result, rfl, v, ⟨vInWorld, alike.toState_eq⟩, alike⟩

theorem InPrintedWorld.transition {action : Action} {reward : Float}
    (inPrintedWorld : InPrintedWorld engine w)
    (accepted : (engine.transition action).result = .ok reward) :
    ∃ move ∈ w.moves engine.goal,
      reward = Decimal.ofInteger (.ofInt ((w.apply move).earned engine.goal)) ∧
      MovesTo engine (engine.transition action).next (w.apply move) := by
  obtain ⟨asked, successor, stepped, -⟩ := Engine.transition_eq_ok_iff.1 accepted
  obtain ⟨move, possible, meant, -⟩ := inPrintedWorld.inWorld.stepAnswer stepped
  obtain ⟨result, movesTo⟩ := inPrintedWorld.advance possible asked meant
  exact ⟨move, possible, Except.ok.inj (accepted.symm.trans result), movesTo⟩

theorem InPrintedWorld.accepts {move : Move} (inPrintedWorld : InPrintedWorld engine w)
    (constants : w.Names IsConstant) (possible : move ∈ w.moves engine.goal) :
    (∃ reward, (engine.transition (.ofTerm move.term)).result = .ok reward) ∧
      MovesTo engine (engine.transition (.ofTerm move.term)).next (w.apply move) := by
  have feasible := (inPrintedWorld.inWorld.proper.mem_moves.1 possible).2
  have named := constants.wellNamed_of_feasible feasible
  have asked : ¬ engine.Refuses (.ofTerm move.term) := by
    rintro ⟨-, missing⟩
    rw [inPrintedWorld.inWorld.available] at missing
    exact missing (World.mem_offered.2 ⟨move, possible, rfl⟩)
  obtain ⟨result, movesTo⟩ := inPrintedWorld.advance possible asked (Action.term_ofTerm named)
  exact ⟨⟨_, result⟩, movesTo⟩

theorem planReturn_succ (count : Nat) : planReturn (count + 1) = 100 - count := by
  simp only [planReturn, goalReward, stepReward]
  omega

theorem whole?_earned (world : World) (goal : State) :
    Decimal.whole? (Decimal.ofInteger (.ofInt (world.earned goal))) =
      some (if world.Reaches goal then 100 else -1) := by
  unfold World.earned
  split <;> decide

theorem Plays.stays {last : Engine BlocksWorld} {actions : List Action} {rewards : List Float}
    (plays : Plays engine actions rewards last) (inPrintedWorld : InPrintedWorld engine w)
    (reached : engine.GoalReached) : last = engine := by
  cases plays with
  | stop => rfl
  | step accepted rest =>
    obtain ⟨move, possible, -, -⟩ := inPrintedWorld.transition accepted
    rw [World.moves_of_reaches (inPrintedWorld.goalReached_iff.1 reached)] at possible
    simp at possible

-- By induction on the actions: the first one either reaches the goal, and then nothing follows,
-- or costs one.
theorem Plays.earns {last : Engine BlocksWorld} {actions : List Action} {rewards : List Float}
    (plays : Plays engine actions rewards last) (inPrintedWorld : InPrintedWorld engine w) :
    ∃ total, total? rewards = some total ∧
      (last.GoalReached →
        total = planReturn actions.length ∧ World.Within engine.goal actions.length w) ∧
      (¬ last.GoalReached → total = -actions.length) := by
  induction plays generalizing w with
  | stop engine =>
    exact ⟨0, rfl, fun reached => ⟨rfl, inPrintedWorld.goalReached_iff.1 reached⟩, fun _ => rfl⟩
  | @step engine last action actions reward rewards accepted rest ih =>
    obtain ⟨move, possible, rfl, kept, v, next, alike⟩ := inPrintedWorld.transition accepted
    obtain ⟨total, added, atGoal, away⟩ := ih next
    have proper := inPrintedWorld.inWorld.proper.apply possible
    have sum : total? (Decimal.ofInteger (.ofInt ((w.apply move).earned engine.goal)) :: rewards) =
        some ((if (w.apply move).Reaches engine.goal then 100 else -1) + total) := by
      simp [total?, whole?_earned, added]
    rw [kept] at atGoal
    refine ⟨_, sum, fun reached => ?_, fun notReached => ?_⟩
    · obtain ⟨rfl, within⟩ := atGoal reached
      have later := within.of_alike alike next.inWorld.proper proper
      refine ⟨?_, move, possible, later⟩
      split_ifs with done
      · simp [later.count_eq_zero done, planReturn, goalReward, stepReward]
      · cases shape : actions.length with
        | zero =>
          rw [shape] at later
          exact absurd later done
        | succ count =>
          rw [planReturn_succ, List.length_cons, shape, planReturn_succ]
          omega
    · have stuck : ¬ (w.apply move).Reaches engine.goal := by
        intro done
        have reached : (engine.transition action).next.GoalReached := by
          rw [next.goalReached_iff, kept, alike.reaches_iff]
          exact done
        rw [rest.stays next reached] at notReached
        exact notReached reached
      rw [if_neg stuck, away notReached, List.length_cons]
      omega

theorem exists_plays {count : Nat} (inPrintedWorld : InPrintedWorld engine w)
    (constants : w.Names IsConstant) (within : World.Within engine.goal count w) :
    ∃ actions rewards last, Plays engine actions rewards last ∧ last.GoalReached ∧
      actions.length = count := by
  induction count generalizing engine w with
  | zero => exact ⟨[], [], engine, .stop engine, inPrintedWorld.goalReached_iff.2 within, rfl⟩
  | succ count ih =>
    obtain ⟨move, possible, later⟩ := within
    have proper := inPrintedWorld.inWorld.proper
    obtain ⟨⟨reward, accepted⟩, kept, v, next, alike⟩ := inPrintedWorld.accepts constants possible
    have feasible := (proper.mem_moves.1 possible).2
    have names := (constants.apply proper feasible).of_alike alike.symm
    rw [← kept] at later
    obtain ⟨actions, rewards, last, plays, reached, same⟩ := ih next names
      (later.of_alike alike.symm (proper.apply possible) next.inWorld.proper)
    exact ⟨_, _, last, .step accepted plays, reached, by rw [List.length_cons, same]⟩

end

theorem CanonicalState.exists_term {state : State} {fact : Fact} {f : Fluent}
    (canonicalState : CanonicalState state) (present : fact ∈ state)
    (meant : Fluent.read fact = .ok f) :
    ∃ t, t.WellNamed ∧ fact = .ofTerm t ∧ Fluent.ofTerm? t = some f ∧
      ∀ arg ∈ t.args, ∃ name, arg = .symbol name := by
  obtain ⟨t, parsed, same, constants⟩ := canonicalState.canonical fact present
  obtain ⟨u, again, meaning⟩ := Fluent.read_eq_ok_iff.1 meant
  obtain rfl := Except.ok.inj (parsed.symm.trans again)
  exact ⟨t, Term.wellNamed_of_parse parsed, same, meaning, constants⟩

theorem CanonicalState.fact_eq {state : State} {fact : Fact} {f : Fluent}
    (canonicalState : CanonicalState state) (present : fact ∈ state)
    (meant : Fluent.read fact = .ok f) : f.fact = fact := by
  obtain ⟨t, named, rfl, meaning, -⟩ := canonicalState.exists_term present meant
  exact Fluent.fact_of_ofTerm? named meaning

theorem CanonicalState.isConstant {state : State} {fact : Fact} {f : Fluent}
    (canonicalState : CanonicalState state) (present : fact ∈ state)
    (meant : Fluent.read fact = .ok f) : ∀ name ∈ f.blocks, IsConstant name := by
  obtain ⟨t, named, -, meaning, constants⟩ := canonicalState.exists_term present meant
  intro name there
  rw [Fluent.blocks_of_ofTerm? meaning] at there
  obtain ⟨arg, inArgs, rfl⟩ := List.mem_map.1 there
  obtain ⟨name, rfl⟩ := constants arg inArgs
  rw [render_symbol]
  exact named.of_mem_args inArgs

theorem CanonicalState.oneSupport {state : State} (canonicalState : CanonicalState state) :
    World.OneSupport state := by
  rintro x y z ⟨fact, present, left⟩ ⟨other, there, right⟩
  obtain ⟨t, named, rfl, meaning, -⟩ := canonicalState.exists_term present left
  obtain ⟨u, namedToo, rfl, meaningToo, -⟩ := canonicalState.exists_term there right
  obtain ⟨a, b, rfl, rfl, rfl⟩ := Fluent.ofTerm?_eq_on_iff.1 meaning
  obtain ⟨c, d, rfl, same, rfl⟩ := Fluent.ofTerm?_eq_on_iff.1 meaningToo
  have first : c = a :=
    Term.render_injective (namedToo.of_mem_args (.head _)) (named.of_mem_args (.head _)) same
  subst first
  rw [canonicalState.single _ present _ there c b d (Fact.term_ofTerm named)
    (Fact.term_ofTerm namedToo)]

theorem CanonicalState.inPrintedWorld {engine : Engine BlocksWorld} {w : World}
    (canonicalState : CanonicalState engine.state) (inWorld : InWorld engine w) :
    InPrintedWorld engine w ∧ w.Names IsConstant := by
  constructor
  · have same (f : Fluent) : w.Holds f ↔ Says engine.state f :=
      ⟨World.says_of_holds inWorld.read, World.holds_of_says canonicalState.oneSupport inWorld.read⟩
    refine ⟨inWorld, World.toState_eq same fun fact present => ?_⟩
    obtain ⟨f, meant⟩ := World.readable_of_ofState inWorld.read fact present
    exact ⟨f, meant, canonicalState.fact_eq present meant⟩
  · intro f holds
    obtain ⟨fact, present, meant⟩ := World.says_of_holds inWorld.read holds
    exact canonicalState.isConstant present meant

theorem planReturn_bounds {count : Nat} (short : count < UInt32.size) :
    -(UInt32.size : Int) ≤ planReturn count ∧ planReturn count ≤ 100 := by
  cases count with
  | zero => decide
  | succ count =>
    rw [planReturn_succ]
    omega

theorem planReturn_toInt {count : Nat} (short : count < UInt32.size) :
    (Int64.ofInt (planReturn count)).toInt = planReturn count := by
  have bounds := planReturn_bounds short
  simp only [UInt32.size] at bounds
  apply Int64.toInt_ofInt_of_le <;> omega

theorem planReturn_antitone {count more : Nat} (positive : 0 < count) (longer : count ≤ more) :
    planReturn more ≤ planReturn count := by
  obtain ⟨count, rfl⟩ := Nat.exists_eq_succ_of_ne_zero positive.ne'
  obtain ⟨more, rfl⟩ := Nat.exists_eq_succ_of_ne_zero (positive.trans_le longer).ne'
  rw [Nat.succ_eq_add_one, Nat.succ_eq_add_one, planReturn_succ, planReturn_succ]
  omega

theorem mem_totals_iff {engine : Engine BlocksWorld} {w : World}
    (inPrintedWorld : InPrintedWorld engine w) (constants : w.Names IsConstant) {horizon : Nat}
    {total : Int} :
    total ∈ totals engine horizon ↔
      ∃ count, count ≤ horizon ∧ World.Within engine.goal count w ∧ total = planReturn count := by
  constructor
  · rintro ⟨actions, rewards, last, plays, reached, short, added⟩
    obtain ⟨sum, again, atGoal, -⟩ := plays.earns inPrintedWorld
    obtain ⟨same, within⟩ := atGoal reached
    obtain rfl := Option.some.inj (added.symm.trans again)
    exact ⟨_, short, within, same⟩
  · rintro ⟨count, short, within, rfl⟩
    obtain ⟨actions, rewards, last, plays, reached, rfl⟩ :=
      exists_plays inPrintedWorld constants within
    obtain ⟨sum, added, atGoal, -⟩ := plays.earns inPrintedWorld
    exact ⟨actions, rewards, last, plays, reached, short, by rw [added, (atGoal reached).1]⟩

theorem isGreatest_totals {engine : Engine BlocksWorld} {w : World} {horizon count : Nat}
    (inPrintedWorld : InPrintedWorld engine w) (constants : w.Names IsConstant)
    (short : count ≤ horizon) (least : IsLeast { count | World.Within engine.goal count w } count) :
    IsGreatest (totals engine horizon) (planReturn count) := by
  refine ⟨(mem_totals_iff inPrintedWorld constants).2 ⟨count, short, least.1, rfl⟩, ?_⟩
  intro total attained
  obtain ⟨more, -, within, rfl⟩ := (mem_totals_iff inPrintedWorld constants).1 attained
  rcases Nat.eq_zero_or_pos count with rfl | positive
  · rw [within.count_eq_zero least.1]
  · exact planReturn_antitone positive (least.2 within)

theorem optimalReturn_isGreatest {engine : Engine BlocksWorld} (reachable : engine.Reachable)
    (canonicalState : CanonicalState engine.state) (horizon : UInt32) :
    (∀ actions rewards last, Plays engine actions rewards last →
        ∃ total, total? rewards = some total) ∧
      ((∃ reward, (engine.optimalReturn (some horizon)).result = .ok reward) ↔
        ∃ actions rewards last, Plays engine actions rewards last ∧ last.GoalReached ∧
          actions.length ≤ horizon.toNat) ∧
      (∀ reward, (engine.optimalReturn (some horizon)).result = .ok reward →
        ∃ best : Int64, IsGreatest (totals engine horizon.toNat) best.toInt ∧
          reward = Decimal.ofInteger best) ∧
      ((¬ ∃ actions rewards last, Plays engine actions rewards last ∧ last.GoalReached ∧
          actions.length ≤ horizon.toNat) →
        (engine.optimalReturn (some horizon)).result = .error (.modelNotFound .optimalReturn)) := by
  obtain ⟨w, inWorld⟩ := inWorld_of_reachable reachable
  obtain ⟨inPrintedWorld, constants⟩ := canonicalState.inPrintedWorld inWorld
  have attainable : (totals engine horizon.toNat).Nonempty ↔
      ∃ actions rewards last, Plays engine actions rewards last ∧ last.GoalReached ∧
        actions.length ≤ horizon.toNat := by
    constructor
    · rintro ⟨total, actions, rewards, last, plays, reached, short, -⟩
      exact ⟨actions, rewards, last, plays, reached, short⟩
    · rintro ⟨actions, rewards, last, plays, reached, short⟩
      obtain ⟨total, added, -⟩ := plays.earns inPrintedWorld
      exact ⟨total, actions, rewards, last, plays, reached, short, added⟩
  have answer := optimalReturn_result inWorld.read (some horizon)
  rw [← attainable]
  refine ⟨fun actions rewards last plays => ?_, ?_⟩
  · obtain ⟨total, added, -⟩ := plays.earns inPrintedWorld
    exact ⟨total, added⟩
  rw [show engine.horizonOr (some horizon) = horizon from rfl] at answer
  cases found : w.planLength engine.goal horizon.toNat with
  | none =>
    have never : ¬ (totals engine horizon.toNat).Nonempty := by
      rintro ⟨total, attained⟩
      obtain ⟨count, short, within, -⟩ := (mem_totals_iff inPrintedWorld constants).1 attained
      obtain ⟨least, shown⟩ := World.exists_planLength inWorld.proper within short
      simp [found] at shown
    rw [found] at answer
    simp [answer, never]
  | some count =>
    obtain ⟨short, least⟩ := (World.planLength_eq_some_iff inWorld.proper).1 found
    have greatest := isGreatest_totals inPrintedWorld constants short least
    have exact := planReturn_toInt (short.trans_lt horizon.toNat_lt)
    rw [found] at answer
    refine ⟨by simp [answer, greatest.nonempty], fun reward planResult => ?_, fun never => ?_⟩
    · obtain rfl := Except.ok.inj (answer.symm.trans planResult)
      exact ⟨_, by rwa [exact], rfl⟩
    · exact absurd greatest.nonempty never

theorem canonicalState_of_fluents (fluents : List Fluent)
    (constants : ∀ f ∈ fluents, ∀ name ∈ f.blocks, IsConstant name)
    (oneSupport : ∀ x y z, .on x y ∈ fluents → .on x z ∈ fluents → y = z) :
    CanonicalState (.ofList (fluents.map Fluent.fact)) := by
  have named (f : Fluent) (there : f ∈ fluents) : f.Named := fun name inBlocks =>
    (constants f there name inBlocks).isBlock
  have listed {fact : Fact} {x y : Term}
      (present : fact ∈ SortedSet.ofList (fluents.map Fluent.fact))
      (meant : fact.term = .ok (.function "on" [x, y])) : .on x.render y.render ∈ fluents :=
    (says_ofList_iff named).1 ⟨fact, present, Fluent.read_eq_ok_iff.2 ⟨_, meant, rfl⟩⟩
  constructor
  · intro fact present
    obtain ⟨f, there, rfl⟩ := List.mem_map.1 (SortedSet.mem_ofList.1 present)
    obtain ⟨t, wellNamed, meaning, args⟩ := Fluent.exists_term_of_constants (constants f there)
    rw [Fluent.fact_of_ofTerm? wellNamed meaning]
    exact ⟨t, Fact.term_ofTerm wellNamed, rfl, args⟩
  · intro fact present other there x y z left right
    have yNamed : y.WellNamed := (Term.wellNamed_of_parse left).of_mem_args (by simp [Term.args])
    have zNamed : z.WellNamed := (Term.wellNamed_of_parse right).of_mem_args (by simp [Term.args])
    exact Term.render_injective yNamed zNamed
      (oneSupport _ _ _ (listed present left) (listed there right))

theorem canonicalState_tower {x y : String} (xConstant : IsConstant x) (yConstant : IsConstant y) :
    CanonicalState (tower x y) :=
  canonicalState_of_fluents [.clear x, .on x y, .onTable y]
    (by simp [Fluent.blocks, xConstant, yConstant]) (by simp +contextual)

theorem optimalReturn_isGreatest_tower :
    ∃ engine : Engine BlocksWorld, engine.Reachable ∧ CanonicalState engine.state ∧
      ((∃ reward, (engine.optimalReturn (some 2)).result = .ok reward) ↔
        ∃ actions rewards last, Plays engine actions rewards last ∧ last.GoalReached ∧
          actions.length ≤ 2) := by
  have a : IsConstant "a" := by decide
  have b : IsConstant "b" := by decide
  obtain ⟨engine, made, stands, -⟩ := exists_tower a.isBlock b.isBlock (by decide) default
  have canonicalState : CanonicalState engine.state := by
    rw [stands]
    exact canonicalState_tower a b
  have reachable := Engine.Reachable.created made
  exact ⟨engine, reachable, canonicalState,
    (optimalReturn_isGreatest reachable canonicalState 2).2.1⟩

end BlocksWorld

end DeclarativeMdp
