import DeclarativeMdp.Proofs.BlocksWorld.Horizon

set_option autoImplicit false

namespace DeclarativeMdp.BlocksWorld

open World

section

variable {w : World} {goal : State}

theorem World.Proper.holds_of_fact_mem {f : Fluent} (proper : w.Proper) (named : f.Named)
    (present : f.fact ∈ w.toState) : w.Holds f := by
  obtain ⟨g, holds, same⟩ := mem_toState.1 present
  rwa [(proper.named g holds).fact_injective named same] at holds

-- By induction on the number of moves: a move puts one block onto one other.
theorem length_le_of_within {count : Nat} {wanted : List (String × String)} (proper : w.Proper)
    (distinct : wanted.Nodup) (within : Within goal count w)
    (asked : ∀ pair ∈ wanted, (Fluent.on pair.1 pair.2).Named ∧
      (Fluent.on pair.1 pair.2).fact ∈ goal)
    (missing : ∀ pair ∈ wanted, ¬ w.Holds (.on pair.1 pair.2)) : wanted.length ≤ count := by
  induction count generalizing w wanted with
  | zero =>
    cases wanted with
    | nil => exact Nat.le_refl 0
    | cons pair rest =>
      obtain ⟨named, inGoal⟩ := asked pair (.head _)
      exact absurd (proper.holds_of_fact_mem named (within _ inGoal)) (missing pair (.head _))
  | succ count ih =>
    obtain ⟨move, possible, later⟩ := within
    have fewer : (wanted.erase (move.block, move.target)).length ≤ count := by
      refine ih (proper.apply possible) (distinct.erase _) later (fun pair present => ?_)
        fun pair present holds => ?_
      · exact asked pair (List.mem_of_mem_erase present)
      · obtain ⟨other, present⟩ := (distinct.mem_erase_iff).1 present
        rcases (proper.holds_apply (.on _ _)).1 holds with ⟨-, block, target⟩ | ⟨-, before⟩
        · exact other (Prod.ext block target)
        · exact missing pair present before
    have erased := List.le_length_erase (l := wanted) (a := (move.block, move.target))
    omega

end

def pile (name : Nat → String) (last : Nat) : List Fluent :=
  .clear (name 0) :: .onTable (name last) ::
    (List.range last).map fun i => .on (name i) (name (i + 1))

def piled (name : Nat → String) (last : Nat) : State := .ofList ((pile name last).map Fluent.fact)

def upended (name : Nat → String) (last : Nat) : State :=
  .ofList ((List.range last).map fun i => (Fluent.on (name (i + 1)) (name i)).fact)

structure Naming (name : Nat → String) (last : Nat) : Prop where
  constant : ∀ i, IsConstant (name i) ∧ name i ≠ table
  apart : ∀ i j, i ≤ last → j ≤ last → name i = name j → i = j

section

variable {name : Nat → String} {last : Nat}

theorem mem_pile {f : Fluent} :
    f ∈ pile name last ↔ f = .clear (name 0) ∨ f = .onTable (name last) ∨
      ∃ i < last, f = .on (name i) (name (i + 1)) := by
  simp [pile, eq_comm]

theorem Naming.reverse (naming : Naming name last) : Naming (fun i => name (last - i)) last where
  constant i := naming.constant (last - i)
  apart i j iBound jBound same := by
    have := naming.apart _ _ (Nat.sub_le last i) (Nat.sub_le last j) same
    omega

theorem mentioned_pile {block : String} :
    Mentioned (· ∈ pile name last) block ↔ ∃ i ≤ last, block = name i := by
  constructor
  · rintro ⟨f, present, inBlocks⟩
    rcases mem_pile.1 present with rfl | rfl | ⟨i, less, rfl⟩
    · exact ⟨0, Nat.zero_le _, by simpa [Fluent.blocks] using inBlocks⟩
    · exact ⟨last, Nat.le_refl _, by simpa [Fluent.blocks] using inBlocks⟩
    · simp only [Fluent.blocks, List.mem_cons, List.not_mem_nil, or_false] at inBlocks
      rcases inBlocks with rfl | rfl
      · exact ⟨i, less.le, rfl⟩
      · exact ⟨i + 1, less, rfl⟩
  · rintro ⟨i, bound, rfl⟩
    rcases Nat.eq_or_lt_of_le bound with rfl | less
    · exact mentioned_onTable (mem_pile.2 (.inr (.inl rfl)))
    · exact mentioned_block (mem_pile.2 (.inr (.inr ⟨i, less, rfl⟩)))

theorem grounded_pile {i : Nat} (bound : i ≤ last) : Grounded (· ∈ pile name last) (name i) := by
  induction bound using Nat.decreasingInduction with
  | self => exact .onTable (mem_pile.2 (.inr (.inl rfl)))
  | of_succ i less ih => exact .on (mem_pile.2 (.inr (.inr ⟨i, less, rfl⟩))) ih

theorem Naming.on_mem_iff (naming : Naming name last) {i : Nat} {y : String} (bound : i ≤ last) :
    .on (name i) y ∈ pile name last ↔ i < last ∧ y = name (i + 1) := by
  rw [mem_pile]
  simp only [reduceCtorEq, false_or, Fluent.on.injEq]
  constructor
  · rintro ⟨j, less, same, rfl⟩
    obtain rfl := naming.apart i j bound less.le same
    exact ⟨less, rfl⟩
  · rintro ⟨less, rfl⟩
    exact ⟨i, less, rfl, rfl⟩

theorem Naming.mem_on_iff (naming : Naming name last) {i : Nat} {x : String} (bound : i ≤ last) :
    .on x (name i) ∈ pile name last ↔ ∃ j, i = j + 1 ∧ x = name j := by
  rw [mem_pile]
  simp only [reduceCtorEq, false_or, Fluent.on.injEq]
  constructor
  · rintro ⟨j, less, rfl, same⟩
    exact ⟨j, naming.apart i (j + 1) bound less same, rfl⟩
  · rintro ⟨j, rfl, rfl⟩
    exact ⟨j, bound, rfl, rfl⟩

theorem Naming.onTable_mem_iff (naming : Naming name last) {i : Nat} (bound : i ≤ last) :
    .onTable (name i) ∈ pile name last ↔ i = last := by
  rw [mem_pile]
  simp only [reduceCtorEq, false_or, and_false, exists_false, or_false, Fluent.onTable.injEq]
  exact ⟨naming.apart i last bound (Nat.le_refl _), congrArg name⟩

theorem Naming.clear_mem_iff (naming : Naming name last) {i : Nat} (bound : i ≤ last) :
    .clear (name i) ∈ pile name last ↔ i = 0 := by
  rw [mem_pile]
  simp only [reduceCtorEq, and_false, exists_false, or_false, Fluent.clear.injEq]
  exact ⟨naming.apart i 0 bound (Nat.zero_le _), congrArg name⟩

theorem Naming.buildable (naming : Naming name last) : Buildable (· ∈ pile name last) := by
  refine ⟨fun block there => ?_, fun block there => ?_, fun x y z left right => ?_,
    fun block there => ?_, fun block there => ?_⟩
  · obtain ⟨i, -, rfl⟩ := mentioned_pile.1 there
    exact naming.constant i
  · obtain ⟨i, bound, rfl⟩ := mentioned_pile.1 there
    simp only [naming.onTable_mem_iff bound, naming.on_mem_iff bound]
    rcases Nat.eq_or_lt_of_le bound with rfl | less
    · exact .inl ⟨rfl, fun y stands => absurd stands.1 (Nat.lt_irrefl _)⟩
    · exact .inr ⟨less.ne, name (i + 1), ⟨less, rfl⟩, fun z stands => stands.2⟩
  · obtain ⟨i, bound, rfl⟩ := mentioned_pile.1 (mentioned_below left)
    obtain ⟨j, rfl, rfl⟩ := (naming.mem_on_iff bound).1 left
    obtain ⟨k, same, rfl⟩ := (naming.mem_on_iff bound).1 right
    rw [Nat.succ.inj same]
  · obtain ⟨i, bound, rfl⟩ := mentioned_pile.1 there
    exact grounded_pile bound
  · obtain ⟨i, bound, rfl⟩ := mentioned_pile.1 there
    simp only [naming.clear_mem_iff bound, naming.mem_on_iff bound]
    cases i with
    | zero => simp
    | succ i => simp

theorem Naming.wellFormed (naming : Naming name last) : WellFormed (piled name last) :=
  wellFormed_of_fluents (pile name last) naming.buildable

theorem Naming.exists_world (naming : Naming name last) :
    ∃ w, ofState (piled name last) = .ok w ∧ w.Holds = (· ∈ pile name last) ∧
      Buildable w.Holds := by
  have buildable := naming.buildable
  obtain ⟨w, read, holds⟩ := exists_world_of_fluents (pile name last)
    (fun f there block inBlocks => (buildable.names block ⟨f, there, inBlocks⟩).1.isBlock)
    fun _ _ _ => buildable.oneSupport
  have same : w.Holds = (· ∈ pile name last) := funext fun f => propext (holds f)
  exact ⟨w, read, same, by rwa [same]⟩

theorem Naming.mem_blocks_iff {w : World} (naming : Naming name last)
    (holds : w.Holds = (· ∈ pile name last)) {block : String} :
    block ∈ w.blocks ↔ ∃ i ≤ last, block = name i := by
  have buildable : Buildable w.Holds := by
    rw [holds]
    exact naming.buildable
  rw [← buildable.mentioned_iff, holds, mentioned_pile]

theorem Naming.blocks_length {w : World} (naming : Naming name last)
    (holds : w.Holds = (· ∈ pile name last)) : w.blocks.length ≤ last + 1 := by
  have inside : w.blocks ⊆ (List.range (last + 1)).map name := by
    intro block present
    obtain ⟨i, bound, rfl⟩ := (naming.mem_blocks_iff holds).1 present
    exact List.mem_map.2 ⟨i, List.mem_range.2 (Nat.lt_succ_of_le bound), rfl⟩
  have counted := (List.subperm_of_subset (SortedSet.nodup _) inside).length_le
  rwa [List.length_map, List.length_range] at counted

theorem Naming.blocks_eq {w v : World} (naming : Naming name last)
    (wHolds : w.Holds = (· ∈ pile name last))
    (vHolds : v.Holds = (· ∈ pile (fun i => name (last - i)) last)) : w.blocks = v.blocks := by
  refine blocks_eq_of_mem_iff fun block => ?_
  rw [naming.mem_blocks_iff wHolds, naming.reverse.mem_blocks_iff vHolds]
  constructor
  · rintro ⟨i, bound, rfl⟩
    exact ⟨last - i, Nat.sub_le last i, by rw [Nat.sub_sub_self bound]⟩
  · rintro ⟨i, -, rfl⟩
    exact ⟨last - i, Nat.sub_le last i, rfl⟩

theorem reaches_upended {v : World} (holds : v.Holds = (· ∈ pile (fun i => name (last - i)) last)) :
    v.Reaches (upended name last) := by
  intro fact wanted
  obtain ⟨i, there, rfl⟩ := List.mem_map.1 (SortedSet.mem_ofList.1 wanted)
  have less := List.mem_range.1 there
  have stands : v.Holds (.on (name (i + 1)) (name i)) := by
    rw [holds]
    refine mem_pile.2 (.inr (.inr ⟨last - (i + 1), by omega, ?_⟩))
    rw [Nat.sub_sub_self less, show last - (last - (i + 1) + 1) = i by omega]
  exact mem_toState.2 ⟨_, stands, rfl⟩

-- None of the facts that are wanted holds, and a move brings about one of them at most.
theorem Naming.le_of_within {w : World} {count : Nat} (naming : Naming name last)
    (holds : w.Holds = (· ∈ pile name last)) (within : Within (upended name last) count w) :
    last ≤ count := by
  let wanted := (List.range last).map fun i => (name (i + 1), name i)
  have buildable : Buildable w.Holds := by
    rw [holds]
    exact naming.buildable
  have distinct : wanted.Nodup := by
    refine List.Nodup.map_on (fun i iIn j jIn same => ?_) List.nodup_range
    exact naming.apart i j (List.mem_range.1 iIn).le (List.mem_range.1 jIn).le
      (Prod.ext_iff.1 same).2
  have fewer := length_le_of_within buildable.proper distinct within (fun pair present => ?_)
    fun pair present => ?_
  · rwa [List.length_map, List.length_range] at fewer
  · obtain ⟨i, there, rfl⟩ := List.mem_map.1 present
    refine ⟨?_, SortedSet.mem_ofList.2 (List.mem_map.2 ⟨i, there, rfl⟩)⟩
    simp [Fluent.Named, Fluent.blocks, (naming.constant _).1.isBlock]
  · obtain ⟨i, there, rfl⟩ := List.mem_map.1 present
    have less := List.mem_range.1 there
    rw [holds]
    intro stands
    obtain ⟨inside, same⟩ := (naming.on_mem_iff less).1 stands
    have := naming.apart i (i + 1 + 1) less.le inside same
    omega

def tally (i : Nat) : String := .ofList (List.replicate (i + 1) 'a')

theorem length_tally (i : Nat) : (tally i).length = i + 1 := by
  rw [tally, String.length_ofList, List.length_replicate]

theorem naming_tally (last : Nat) : Naming tally last where
  constant i := by
    have letters : ∀ c ∈ (tally i).toList, c = 'a' := by
      rw [tally, String.toList_ofList]
      exact fun c => List.eq_of_mem_replicate
    refine ⟨?_, fun same => ?_⟩
    · rw [IsConstant, tally, String.toList_ofList]
      exact ⟨by decide, fun c there => List.eq_of_mem_replicate there ▸ by decide⟩
    · have first : 't' ∈ (tally i).toList := by
        rw [same]
        decide
      exact absurd (letters 't' first) (by decide)
  apart i j _ _ same := by
    have lengths := congrArg String.length same
    rw [length_tally, length_tally] at lengths
    omega

theorem Naming.exists_engine {horizon : UInt32} (naming : Naming name last)
    (far : 2 * (last + 1) ≤ horizon.toNat) :
    ∃ (engine : Engine BlocksWorld) (count : Nat),
      (Engine.create (piled name last) (upended name last) default start .standard).result =
          .ok engine ∧
        last ≤ count ∧ count < UInt32.size ∧
        (engine.optimalReturn (some horizon)).result =
          .ok (Decimal.ofInteger (.ofInt (planReturn count))) := by
  obtain ⟨w, read, holds, buildable⟩ := naming.exists_world
  obtain ⟨v, -, vHolds, vBuildable⟩ := naming.reverse.exists_world
  obtain ⟨engine, made, inWorld, -, same, -⟩ := exists_created read (upended name last) default
  have enough := (Nat.mul_le_mul_left 2 (naming.blocks_length holds)).trans far
  have reached := reaches_upended vHolds
  rw [← same] at reached
  obtain ⟨opt, planResult⟩ :=
    exists_optimalReturn inWorld buildable vBuildable (naming.blocks_eq holds vHolds) reached enough
  obtain ⟨count, short, least, rfl⟩ := exists_least_of_optimalReturn inWorld planResult
  rw [same] at least
  exact ⟨engine, count, made, naming.le_of_within holds least.1, short, planResult⟩

end

end DeclarativeMdp.BlocksWorld
