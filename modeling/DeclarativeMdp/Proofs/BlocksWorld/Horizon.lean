import DeclarativeMdp.Proofs.BlocksWorld.Diameter
import DeclarativeMdp.Proofs.BlocksWorld.WellFormed

set_option autoImplicit false

namespace DeclarativeMdp.BlocksWorld

open World

variable {state : State} {w : World}

def World.support (world : World) (block : String) : Fluent :=
  match world.below? block with
  | some below => .on block below
  | none => .onTable block

theorem support_injective {x y : String} (same : w.support x = w.support y) : x = y := by
  unfold support at same
  split at same <;> split at same <;> simp_all

theorem Buildable.holds_support (buildable : Buildable w.Holds) {block : String}
    (present : block ∈ w.blocks) : w.Holds (w.support block) := by
  unfold support
  cases under : w.below? block with
  | some below => exact buildable.proper.below?_eq_some_iff.1 under
  | none =>
    rcases buildable.mem_blocks_iff.1 present with rests | ⟨below, stands⟩
    · exact rests
    · rw [buildable.proper.below?_eq_some_iff.2 stands] at under
      simp at under

theorem WellFormed.blocks_length (wellFormed : WellFormed state) (buildable : Buildable w.Holds)
    (same : ∀ f, w.Holds f ↔ Says state f) : w.blocks.length ≤ state.size := by
  have written : ∀ block ∈ w.blocks, (w.support block).fact ∈ state := by
    intro block present
    obtain ⟨fact, there, meant⟩ := (same _).1 (buildable.holds_support present)
    obtain ⟨f, again, rfl⟩ := wellFormed.canonical fact there
    rwa [← Except.ok.inj (meant.symm.trans again)] at there
  have distinct : (w.blocks.map fun block => (w.support block).fact).Nodup := by
    refine List.Nodup.map_on (fun x xIn y yIn alike => ?_) (SortedSet.nodup _)
    have xNamed := buildable.proper.named _ (buildable.holds_support xIn)
    have yNamed := buildable.proper.named _ (buildable.holds_support yIn)
    exact support_injective (xNamed.fact_injective yNamed alike)
  have inside : (w.blocks.map fun block => (w.support block).fact) ⊆ state.toList := by
    intro fact present
    obtain ⟨block, there, rfl⟩ := List.mem_map.1 present
    exact written block there
  have counted := (List.subperm_of_subset distinct inside).length_le
  rwa [List.length_map] at counted

theorem horizonFor_toNat {config : Config} (unset : config.planningHorizon = none) (size : Nat) :
    (config.horizonFor size).toNat = min (2 * size) Config.maxHorizon.toNat := by
  unfold Config.horizonFor
  rw [unset]
  dsimp only
  split_ifs with fits
  · have word : 2 * size < UInt32.size := Nat.lt_of_le_of_lt fits Config.maxHorizon.toNat_lt
    rw [UInt32.toNat_ofNat_of_lt' word, Nat.min_eq_left fits]
  · rw [Nat.min_eq_right (Nat.le_of_not_le fits)]

theorem defaultHorizon_eq_ok {config : Config} {size : Nat} (small : size < 9223372036854775808) :
    config.defaultHorizon (.ofNat size) = .ok (config.horizonFor size) := by
  have word : size < UInt64.size := Nat.lt_trans small (by decide)
  unfold Config.defaultHorizon
  rw [UInt64.toNat_ofNat_of_lt' word, if_neg]
  rintro ⟨-, large⟩
  simp only [UInt64.size] at large
  omega

section

variable {engine : Engine BlocksWorld}

theorem exists_least_of_optimalReturn {horizon : Option UInt32} {opt : Float}
    (inWorld : InWorld engine w) (planResult : (engine.optimalReturn horizon).result = .ok opt) :
    ∃ count, count < UInt32.size ∧ IsLeast { count | Within engine.goal count w } count ∧
      opt = Decimal.ofInteger (.ofInt (planReturn count)) := by
  rw [optimalReturn_result inWorld.read] at planResult
  cases length : w.planLength engine.goal (engine.horizonOr horizon).toNat with
  | none => simp [length] at planResult
  | some count =>
    obtain ⟨short, least⟩ := (planLength_eq_some_iff inWorld.proper).1 length
    rw [length] at planResult
    exact ⟨count, short.trans_lt (UInt32.toNat_lt _), least, (Except.ok.inj planResult).symm⟩

theorem exists_optimalReturn {v : World} {horizon : UInt32} (inWorld : InWorld engine w)
    (wBuildable : Buildable w.Holds) (vBuildable : Buildable v.Holds) (same : w.blocks = v.blocks)
    (reached : v.Reaches engine.goal) (far : 2 * w.blocks.length ≤ horizon.toNat) :
    ∃ opt, (engine.optimalReturn (some horizon)).result = .ok opt := by
  obtain ⟨steps, short, walk⟩ := wBuildable.exists_walk vBuildable same
  obtain ⟨fewer, less, within⟩ := walk.within wBuildable reached
  obtain ⟨count, planned⟩ :=
    exists_planLength wBuildable.proper within ((less.trans short).trans far)
  have planResult := optimalReturn_result inWorld.read (some horizon)
  rw [Engine.horizonOr_some, planned] at planResult
  exact ⟨_, planResult⟩

theorem optimalReturn_of_longer {short long : UInt32} (reachable : engine.Reachable)
    (longer : short ≤ long) :
    (∀ reward, (engine.optimalReturn (some short)).result = .ok reward →
        (engine.optimalReturn (some long)).result = .ok reward) ∧
      ((engine.optimalReturn (some long)).result = .error (.modelNotFound .optimalReturn) →
        (engine.optimalReturn (some short)).result =
          .error (.modelNotFound .optimalReturn)) := by
  obtain ⟨w, inWorld⟩ := inWorld_of_reachable reachable
  rw [optimalReturn_result inWorld.read, optimalReturn_result inWorld.read]
  rw [Engine.horizonOr_some, Engine.horizonOr_some]
  cases length : w.planLength engine.goal short.toNat with
  | none => exact ⟨nofun, fun _ => rfl⟩
  | some count =>
    rw [planLength_of_le inWorld.proper (UInt32.le_iff_toNat_le.1 longer) length]
    exact ⟨fun reward found => found, id⟩

end

theorem optimalReturn_of_longer_tower :
    ∃ (engine : Engine BlocksWorld) (reward : Float), engine.state = tower "a" "b" ∧
      engine.goal = reversed "a" "b" ∧ engine.Reachable ∧
      (engine.optimalReturn (some 4)).result = .ok reward ∧
      (engine.optimalReturn (some 1000)).result = .ok reward := by
  have a : IsConstant "a" := by decide
  have b : IsConstant "b" := by decide
  obtain ⟨w, read, wHolds, wBuildable⟩ := exists_world_tower a b (by decide) (by decide) (by decide)
  obtain ⟨v, -, vHolds, vBuildable⟩ := exists_world_tower b a (by decide) (by decide) (by decide)
  obtain ⟨engine, made, inWorld, stands, goal, -⟩ := exists_created read (reversed "a" "b") default
  have reachable := Engine.Reachable.created made
  have same : w.blocks = v.blocks := by
    refine blocks_eq_of_mem_iff fun name => ?_
    simp only [mem_blocks, wHolds, vHolds]
    simp [or_comm]
  have reached : v.Reaches engine.goal := by
    rw [goal]
    intro fact wanted
    refine mem_toState.2 ⟨.on "b" "a", (vHolds _).2 (by simp), ?_⟩
    exact (List.mem_singleton.1 (SortedSet.mem_ofList.1 wanted)).symm
  have few : w.blocks.length ≤ 2 := by
    have inside : w.blocks ⊆ ["a", "b"] := by
      intro name present
      simpa [mem_blocks, wHolds, or_comm] using present
    exact (List.subperm_of_subset (SortedSet.nodup _) inside).length_le
  obtain ⟨reward, found⟩ :=
    @exists_optimalReturn _ _ _ 4 inWorld wBuildable vBuildable same reached
      (Nat.mul_le_mul_left 2 few)
  have later := (optimalReturn_of_longer reachable (by decide : (4 : UInt32) ≤ 1000)).1 reward found
  exact ⟨engine, reward, stands, goal, reachable, found, later⟩

-- Twice the number of facts is enough: there are as many facts as blocks at least, and each block
-- has to be moved twice at most, down to the table and up from it.
theorem optimalReturn_default {engine : Engine BlocksWorld} (wellFormed : WellFormed engine.state)
    (small : engine.state.size < 9223372036854775808)
    (unset : engine.config.planningHorizon = none) :
    engine.config.defaultHorizon (.ofNat engine.state.size) = .ok (engine.horizonOr none) ∧
      (engine.horizonOr none).toNat = min (2 * engine.state.size) Config.maxHorizon.toNat ∧
      ∀ horizon reward, (engine.optimalReturn (some horizon)).result = .ok reward →
        (engine.optimalReturn none).result = .ok reward := by
  have planned := horizonFor_toNat unset engine.state.size
  refine ⟨defaultHorizon_eq_ok small, planned, fun horizon reward found => ?_⟩
  obtain ⟨w, read, same⟩ := wellFormed.exists_world
  have buildable : Buildable w.Holds := by
    rw [show w.Holds = Says engine.state from funext fun f => propext (same f)]
    exact wellFormed.buildable
  change (engine.horizonOr none).toNat = _ at planned
  rw [optimalReturn_result read] at found ⊢
  rw [show engine.horizonOr (some horizon) = horizon from rfl] at found
  cases length : w.planLength engine.goal horizon.toNat with
  | none => simp [length] at found
  | some count =>
    obtain ⟨near, least⟩ := (planLength_eq_some_iff buildable.proper).1 length
    obtain ⟨fewer, short, within⟩ := buildable.exists_within least.1
    have blocks := wellFormed.blocks_length buildable same
    have bound := least.2 within
    have limit : horizon.toNat ≤ Config.maxHorizon.toNat := Nat.le_of_lt_succ horizon.toNat_lt
    have again : w.planLength engine.goal (engine.horizonOr none).toNat = some count :=
      (planLength_eq_some_iff buildable.proper).2 ⟨by omega, least⟩
    rw [length] at found
    rw [again]
    exact found

theorem optimalReturn_default_tower :
    ∃ engine : Engine BlocksWorld, WellFormed engine.state ∧
      engine.config.planningHorizon = none ∧
      ∀ horizon reward, (engine.optimalReturn (some horizon)).result = .ok reward →
        (engine.optimalReturn none).result = .ok reward := by
  have a : IsConstant "a" := by decide
  have b : IsConstant "b" := by decide
  obtain ⟨engine, made, stands, standard, -⟩ :=
    exists_tower a.isBlock b.isBlock (by decide) default
  have wellFormed : WellFormed engine.state := by
    rw [stands]
    exact wellFormed_tower a b (by decide) (by decide) (by decide)
  have unset : engine.config.planningHorizon = none := by rw [standard]; rfl
  have small : engine.state.size < 9223372036854775808 := by
    have facts : (tower "a" "b").size ≤ 3 :=
      (List.subperm_of_subset (SortedSet.nodup _) fun _ => SortedSet.mem_ofList.1).length_le
    rw [stands]
    omega
  exact ⟨engine, wellFormed, unset, (optimalReturn_default wellFormed small unset).2.2⟩

end DeclarativeMdp.BlocksWorld
