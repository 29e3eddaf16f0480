import DeclarativeMdp.Proofs.BlocksWorld.Planning
import DeclarativeMdp.Proofs.BlocksWorld.Renaming

set_option autoImplicit false

namespace DeclarativeMdp.BlocksWorld

variable {ρ : String → String} {names : String → Prop} {goal : State}

structure Renames (ρ : String → String) (engine other : Engine BlocksWorld) : Prop where
  state : other.state = engine.state.rename ρ
  goal : other.goal = engine.goal.rename ρ
  config : other.config = engine.config
  available : other.available = engine.available.rename ρ

structure RenamedEngines (ρ : String → String) (names : String → Prop)
    (engine other : Engine BlocksWorld) : Prop where
  canonicalOver : CanonicalOver names engine.goal
  goal : other.goal = engine.goal.rename ρ
  config : other.config = engine.config
  worlds : ∃ w v, InPrintedWorld engine w ∧ InPrintedWorld other v ∧ World.Renamed ρ names w v

variable {engine other : Engine BlocksWorld}

theorem RenamedEngines.renames (renamedEngines : RenamedEngines ρ names engine other)
    (valid : Renaming ρ names) : Renames ρ engine other := by
  obtain ⟨w, v, inPrintedWorld, reflected, renamed⟩ := renamedEngines.worlds
  refine ⟨?_, renamedEngines.goal, renamedEngines.config, ?_⟩
  · rw [← inPrintedWorld.same, ← reflected.same, renamed.toState_eq valid]
  · rw [inPrintedWorld.inWorld.available, reflected.inWorld.available, renamedEngines.goal]
    exact renamed.offered_eq valid renamedEngines.canonicalOver inPrintedWorld.inWorld.proper
      reflected.inWorld.proper

theorem InPrintedWorld.advance_config {w : World} {action : Action} {move : Move}
    (inPrintedWorld : InPrintedWorld engine w) (possible : move ∈ w.moves engine.goal)
    (asked : ¬ engine.Refuses action) (meant : action.term = .ok move.term) :
    (engine.transition action).next.config = engine.config := by
  have stepped := stepAnswer_of_mem_moves inPrintedWorld.inWorld.read possible meant
  rw [(Engine.transition_advanced asked stepped).2]
  rfl

theorem RenamedEngines.transition {action : Action} {reward : Float}
    (renamedEngines : RenamedEngines ρ names engine other) (valid : Renaming ρ names)
    (accepted : (engine.transition action).result = .ok reward) :
    (other.transition (action.rename ρ)).result = .ok reward ∧
      RenamedEngines ρ names (engine.transition action).next
        (other.transition (action.rename ρ)).next := by
  obtain ⟨asked, successor, stepped, -⟩ := Engine.transition_eq_ok_iff.1 accepted
  have renames := renamedEngines.renames valid
  obtain ⟨w, v, inPrintedWorld, reflected, renamed⟩ := renamedEngines.worlds
  obtain ⟨move, possible, meant, -⟩ := inPrintedWorld.inWorld.stepAnswer stepped
  have wProper := inPrintedWorld.inWorld.proper
  have vProper := reflected.inWorld.proper
  have feasible := (wProper.mem_moves.1 possible).2
  have there : move.rename ρ ∈ v.moves other.goal := by
    rw [renamedEngines.goal]
    exact (renamed.mem_moves_iff valid renamedEngines.canonicalOver wProper vProper).2
      ⟨move, possible, rfl⟩
  have askedToo : ¬ other.Refuses (action.rename ρ) := by
    rintro ⟨checked, missing⟩
    rw [renames.config] at checked
    rw [renames.available] at missing
    refine asked ⟨checked, fun offered => missing ?_⟩
    exact AvailableActions.mem_rename.2 ⟨action, offered, rfl⟩
  have constants := renamed.constants_image valid
  have meantToo : (action.rename ρ).term = .ok (move.rename ρ).term := by
    rw [Action.rename_of_term meant, ← Move.term_rename]
    exact Action.term_ofTerm (constants.wellNamed_of_feasible (vProper.mem_moves.1 there).2)
  obtain ⟨result, kept, u, next, alike⟩ := inPrintedWorld.advance possible asked meant
  obtain ⟨resultToo, keptToo, z, nextToo, alikeToo⟩ :=
    reflected.advance there askedToo meantToo
  have after := renamed.apply valid wProper vProper feasible
  have reaches :=
    after.reaches_iff valid renamedEngines.canonicalOver (wProper.apply possible)
      (vProper.apply there)
  have earned :
      (v.apply (move.rename ρ)).earned other.goal = (w.apply move).earned engine.goal := by
    rw [World.earned, World.earned, renamedEngines.goal]
    simp only [reaches]
  refine ⟨?_, ?_, ?_, ?_, u, z, next, nextToo, after.of_alike alike alikeToo⟩
  · rw [resultToo, earned, ← result, accepted]
  · rw [kept]
    exact renamedEngines.canonicalOver
  · rw [kept, keptToo, renamedEngines.goal]
  · rw [inPrintedWorld.advance_config possible asked meant,
      reflected.advance_config there askedToo meantToo, renamedEngines.config]

theorem RenamedEngines.plays {actions : List Action} {rewards : List Float}
    {last : Engine BlocksWorld} (renamedEngines : RenamedEngines ρ names engine other)
    (valid : Renaming ρ names) (plays : Plays engine actions rewards last) :
    ∃ final, Plays other (actions.map (Action.rename ρ)) rewards final ∧
      RenamedEngines ρ names last final := by
  induction plays generalizing other with
  | stop => exact ⟨other, .stop other, renamedEngines⟩
  | step accepted rest ih =>
    obtain ⟨acceptedToo, next⟩ := renamedEngines.transition valid accepted
    obtain ⟨final, plays, renamedEngines⟩ := ih next
    exact ⟨final, .step acceptedToo plays, renamedEngines⟩

theorem RenamedEngines.optimalReturn (renamedEngines : RenamedEngines ρ names engine other)
    (valid : Renaming ρ names) (horizon : Option UInt32) :
    (other.optimalReturn horizon).result = (engine.optimalReturn horizon).result := by
  have renames := renamedEngines.renames valid
  obtain ⟨w, v, inPrintedWorld, reflected, renamed⟩ := renamedEngines.worlds
  have wProper := inPrintedWorld.inWorld.proper
  have vProper := reflected.inWorld.proper
  have canonicalOver := renamed.about.canonicalOver wProper
  have same : other.horizonOr horizon = engine.horizonOr horizon := by
    rw [Engine.horizonOr, renames.config, renames.state, ← inPrintedWorld.same,
      canonicalOver.size_rename valid, inPrintedWorld.same]
    rfl
  rw [optimalReturn_result inPrintedWorld.inWorld.read, optimalReturn_result reflected.inWorld.read,
    renamedEngines.goal, renamed.planLength_eq valid renamedEngines.canonicalOver wProper vProper,
    same]

theorem create_renamedEngines {initial : State} {config : Config} (programs : ProgramSet)
    (solver : BlocksWorld) (sound : config.validate = .ok ())
    (oneSupport : World.OneSupport initial) (canonicalOver : CanonicalOver names initial)
    (otherCanonical : CanonicalOver names goal) (valid : Renaming ρ names) :
    ∃ engine other : Engine BlocksWorld,
      (Engine.create initial goal programs solver config).result = .ok engine ∧
      (Engine.create (initial.rename ρ) (goal.rename ρ) programs solver config).result =
        .ok other ∧ RenamedEngines ρ names engine other := by
  obtain ⟨w, read, written, holds⟩ :=
    World.exists_world_of_canonical canonicalOver.canonical oneSupport
  obtain ⟨v, readToo, writtenToo, renamed⟩ :=
    canonicalOver.exists_renamed valid oneSupport (funext fun f => propext (holds f))
  exact ⟨_, _, create_result sound read, create_result sound readToo, otherCanonical, rfl, rfl,
    w, v, ⟨⟨read, rfl⟩, written⟩, ⟨⟨readToo, rfl⟩, writtenToo⟩, renamed⟩

theorem RenamedEngines.accepts {action : Action}
    (renamedEngines : RenamedEngines ρ names engine other) (valid : Renaming ρ names)
    (offered : action ∈ engine.available) :
    ∃ reward, (engine.transition action).result = .ok reward := by
  obtain ⟨w, v, inPrintedWorld, -, renamed⟩ := renamedEngines.worlds
  rw [inPrintedWorld.inWorld.available] at offered
  obtain ⟨move, possible, rfl⟩ := World.mem_offered.1 offered
  exact (inPrintedWorld.accepts (renamed.constants valid) possible).1

theorem renamed_problem {initial : State} {config : Config} (programs : ProgramSet)
    (solver : BlocksWorld) (sound : config.validate = .ok ()) (declared : Declared initial)
    (canonical : ∀ fact ∈ goal, ∃ f, Fluent.read fact = .ok f ∧ f.fact = fact)
    (valid : Renaming ρ fun x => Mentioned (Says initial) x ∨ Mentioned (Says goal) x) :
    ∃ engine other : Engine BlocksWorld,
      (Engine.create initial goal programs solver config).result = .ok engine ∧
      (Engine.create (initial.rename ρ) (goal.rename ρ) programs solver config).result =
        .ok other ∧
      ∀ actions rewards last, Plays engine actions rewards last →
        ∃ mirror, Plays other (actions.map (Action.rename ρ)) rewards mirror ∧
          Renames ρ last mirror ∧
          (∀ action ∈ last.available, ∃ reward,
            (last.transition action).result = .ok reward ∧
            (mirror.transition (action.rename ρ)).result = .ok reward ∧
            Renames ρ (last.transition action).next (mirror.transition (action.rename ρ)).next) ∧
          ∀ horizon,
            (mirror.optimalReturn horizon).result = (last.optimalReturn horizon).result := by
  have canonicalOver :
      CanonicalOver (fun x => Mentioned (Says initial) x ∨ Mentioned (Says goal) x) initial :=
    ⟨declared.canonical, fun f stated name there => .inl ⟨f, stated, there⟩⟩
  have otherCanonical :
      CanonicalOver (fun x => Mentioned (Says initial) x ∨ Mentioned (Says goal) x) goal :=
    ⟨canonical, fun f stated name there => .inr ⟨f, stated, there⟩⟩
  obtain ⟨engine, other, made, madeToo, renamedEngines⟩ :=
    create_renamedEngines programs solver sound declared.oneSupport canonicalOver otherCanonical
      valid
  refine ⟨engine, other, made, madeToo, fun actions rewards last plays => ?_⟩
  obtain ⟨mirror, playsToo, renamedEngines⟩ := renamedEngines.plays valid plays
  refine ⟨mirror, playsToo, renamedEngines.renames valid, fun action offered => ?_,
    renamedEngines.optimalReturn valid⟩
  obtain ⟨reward, accepted⟩ := renamedEngines.accepts valid offered
  obtain ⟨acceptedToo, next⟩ := renamedEngines.transition valid accepted
  exact ⟨reward, accepted, acceptedToo, next.renames valid⟩

def turned (name : String) : String :=
  if name = "a" then "z" else if name = "b" then "c" else name

theorem renamed_problem_turned :
    ∃ engine other : Engine BlocksWorld,
      (Engine.create (tower "a" "b") (reversed "a" "b") default start .standard).result =
          .ok engine ∧
        (Engine.create ((tower "a" "b").rename turned) ((reversed "a" "b").rename turned) default
          start .standard).result = .ok other ∧
        Renames turned engine other ∧
        (other.optimalReturn (some 4)).result = (engine.optimalReturn (some 4)).result := by
  have a : IsConstant "a" := by decide
  have b : IsConstant "b" := by decide
  have declared := (wellFormed_tower a b (by decide) (by decide) (by decide)).declared
  have named : ∀ f ∈ [Fluent.on "b" "a"], f.Named := by
    simp [Fluent.Named, Fluent.blocks, a.isBlock, b.isBlock]
  have mentioned (x : String) (there : Mentioned (Says (tower "a" "b")) x ∨
      Mentioned (Says (reversed "a" "b")) x) : x = "a" ∨ x = "b" := by
    rcases there with ⟨f, stated, inBlocks⟩ | ⟨f, stated, inBlocks⟩
    · have listed := (says_ofList_iff (named_tower a.isBlock b.isBlock)).1 stated
      simp only [List.mem_cons, List.not_mem_nil, or_false] at listed
      rcases listed with rfl | rfl | rfl <;> simp [Fluent.blocks] at inBlocks <;> tauto
    · obtain rfl : f = .on "b" "a" := by simpa using (says_ofList_iff named).1 stated
      simp [Fluent.blocks] at inBlocks
      tauto
  have valid : Renaming turned fun x =>
      Mentioned (Says (tower "a" "b")) x ∨ Mentioned (Says (reversed "a" "b")) x := by
    refine ⟨by decide, fun x there => ?_, fun x there => ?_, fun x y left right => ?_⟩
    · rcases mentioned x there with rfl | rfl <;> decide
    · rcases mentioned x there with rfl | rfl <;> decide
    · rcases mentioned x left with rfl | rfl <;> rcases mentioned y right with rfl | rfl <;> decide
  have sound : Config.standard.validate = .ok () := by
    rw [Config.validate, if_pos (by decide)]
  obtain ⟨engine, other, made, madeToo, alike⟩ :=
    renamed_problem default start sound declared (canonical_ofList named) valid
  obtain ⟨mirror, plays, renames, -, best⟩ := alike [] [] engine (.stop engine)
  obtain rfl : mirror = other := by
    cases plays
    rfl
  exact ⟨engine, mirror, made, madeToo, renames, best _⟩

end DeclarativeMdp.BlocksWorld
