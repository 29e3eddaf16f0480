import DeclarativeMdp.Proofs.BlocksWorld.Fluents

set_option autoImplicit false

namespace DeclarativeMdp.BlocksWorld.World

variable {w v : World}

def Holds (world : World) : Fluent → Prop
  | .on x y => (x, y) ∈ world.on
  | .onTable x => x ∈ world.onTable
  | .clear x => x ∈ world.clear

def put (world : World) : Fluent → World
  | .on x y => world.stack x y
  | .onTable x => { world with onTable := x :: world.onTable }
  | .clear x => { world with clear := x :: world.clear }

def Names (p : String → Prop) (world : World) : Prop :=
  ∀ fluent, world.Holds fluent → ∀ name ∈ fluent.blocks, p name

structure Proper (world : World) : Prop where
  named : ∀ fluent, world.Holds fluent → fluent.Named
  oneSupport : ∀ x y z, world.Holds (.on x y) → world.Holds (.on x z) → y = z

def Alike (world other : World) : Prop := ∀ fluent, world.Holds fluent ↔ other.Holds fluent

theorem Alike.symm (alike : w.Alike v) : v.Alike w := fun fluent => (alike fluent).symm

theorem Alike.holds_eq (alike : w.Alike v) : w.Holds = v.Holds :=
  funext fun fluent => propext (alike fluent)

theorem Names.of_alike {p : String → Prop} (names : w.Names p) (alike : w.Alike v) : v.Names p :=
  fun fluent holds => names fluent ((alike fluent).2 holds)

theorem mem_lift {block x y : String} :
    (x, y) ∈ (w.lift block).on ↔ (x, y) ∈ w.on ∧ x ≠ block := by
  simp [lift, List.mem_filter]

theorem mem_stack {block target x y : String} :
    (x, y) ∈ (w.stack block target).on ↔
      x = block ∧ y = target ∨ (x, y) ∈ w.on ∧ x ≠ block := by
  simp [stack, mem_lift]

theorem empty_proper : empty.Proper where
  named fluent holds := by cases fluent <;> simp [empty, Holds] at holds
  oneSupport x y z left := by simp [empty, Holds] at left

theorem holds_put {f g : Fluent} (holds : (w.put f).Holds g) : g = f ∨ w.Holds g := by
  cases f with
  | on x y =>
    cases g with
    | on a b =>
      rcases mem_stack.1 holds with ⟨rfl, rfl⟩ | ⟨before, -⟩
      · exact .inl rfl
      · exact .inr before
    | onTable | clear => exact .inr holds
  | onTable x | clear x =>
    cases g <;> simp_all [put, Holds]

theorem put_holds (f : Fluent) : (w.put f).Holds f := by
  cases f <;> simp [put, Holds, stack]

theorem put_keeps {f g : Fluent} (before : w.Holds g)
    (apart : ∀ x y z, f = .on x y → g = .on x z → f = g) : (w.put f).Holds g := by
  cases f with
  | on x y =>
    cases g with
    | on a b =>
      by_cases same : a = x
      · subst same
        obtain ⟨-, rfl⟩ := Fluent.on.inj (apart a y b rfl rfl)
        exact put_holds _
      · exact mem_stack.2 (.inr ⟨before, same⟩)
    | onTable | clear => exact before
  | onTable x | clear x =>
    cases g <;> simp_all [put, Holds]

theorem Proper.put {f : Fluent} (proper : w.Proper) (named : f.Named) : (w.put f).Proper where
  named g holds := by
    rcases holds_put holds with rfl | before
    · exact named
    · exact proper.named g before
  oneSupport x y z left right := by
    cases f with
    | on a b =>
      rcases mem_stack.1 left with ⟨rfl, rfl⟩ | ⟨left, apart⟩
      · rcases mem_stack.1 right with ⟨-, rfl⟩ | ⟨-, apart⟩
        · rfl
        · exact absurd rfl apart
      · rcases mem_stack.1 right with ⟨same, -⟩ | ⟨right, -⟩
        · exact absurd same apart
        · exact proper.oneSupport x y z left right
    | onTable | clear => exact proper.oneSupport x y z left right

theorem addFact_eq (fact : Fact) : w.addFact fact = (Fluent.read fact).map w.put := by
  unfold addFact Fluent.read Fluent.ofTerm?
  cases readAtom fact.text with
  | error => rfl
  | ok t =>
    simp only [bind, Except.bind]
    split <;> simp_all [pure, Except.pure, throw, throwThe, MonadExceptOf.throw, Except.map] <;> rfl

theorem foldlM_addFact_cons {fact : Fact} {facts : List Fact} {start : World} :
    (fact :: facts).foldlM addFact start = .ok w ↔
      ∃ fluent, Fluent.read fact = .ok fluent ∧
        facts.foldlM addFact (start.put fluent) = .ok w := by
  rw [List.foldlM_cons, addFact_eq]
  cases Fluent.read fact <;> simp [Except.map, bind, Except.bind]

theorem proper_of_foldlM {facts : List Fact} {start : World} (proper : start.Proper)
    (built : facts.foldlM addFact start = .ok w) : w.Proper := by
  induction facts generalizing start with
  | nil =>
    obtain rfl := Except.ok.inj built
    exact proper
  | cons fact facts ih =>
    obtain ⟨fluent, meant, rest⟩ := foldlM_addFact_cons.1 built
    exact ih (proper.put (Fluent.named_of_read meant)) rest

theorem holds_of_foldlM {facts : List Fact} {start : World} {f : Fluent}
    (built : facts.foldlM addFact start = .ok w) (holds : w.Holds f) :
    start.Holds f ∨ ∃ fact ∈ facts, Fluent.read fact = .ok f := by
  induction facts generalizing start with
  | nil =>
    obtain rfl := Except.ok.inj built
    exact .inl holds
  | cons fact facts ih =>
    obtain ⟨fluent, meant, rest⟩ := foldlM_addFact_cons.1 built
    rcases ih rest with before | ⟨other, present, reads⟩
    · rcases holds_put before with rfl | before
      · exact .inr ⟨fact, by simp, meant⟩
      · exact .inl before
    · exact .inr ⟨other, by simp [present], reads⟩

theorem foldlM_keeps {facts : List Fact} {start : World} {f : Fluent}
    (built : facts.foldlM addFact start = .ok w) (before : start.Holds f)
    (apart : ∀ fact ∈ facts, ∀ g x y z, Fluent.read fact = .ok g → g = .on x y → f = .on x z →
      g = f) : w.Holds f := by
  induction facts generalizing start with
  | nil =>
    obtain rfl := Except.ok.inj built
    exact before
  | cons fact facts ih =>
    obtain ⟨fluent, meant, rest⟩ := foldlM_addFact_cons.1 built
    have kept : (start.put fluent).Holds f := put_keeps before fun x y z isOn other =>
      apart fact (by simp) fluent x y z meant isOn other
    exact ih rest kept fun other present => apart other (by simp [present])

def OneSupport (state : State) : Prop :=
  ∀ x y z, Says state (.on x y) → Says state (.on x z) → y = z

theorem ofState_proper {state : State} (read : ofState state = .ok w) : w.Proper :=
  proper_of_foldlM empty_proper read

theorem says_of_holds {state : State} {f : Fluent} (read : ofState state = .ok w)
    (holds : w.Holds f) : Says state f := by
  rcases holds_of_foldlM read holds with none | found
  · cases f <;> simp [empty, Holds] at none
  · exact found

theorem exists_ofState {state : State}
    (readable : ∀ fact ∈ state, ∃ f, Fluent.read fact = .ok f) :
    ∃ world, ofState state = .ok world := by
  have folds (facts : List Fact) (start : World)
      (readable : ∀ fact ∈ facts, ∃ f, Fluent.read fact = .ok f) :
      ∃ world, facts.foldlM addFact start = .ok world := by
    induction facts generalizing start with
    | nil => exact ⟨start, rfl⟩
    | cons fact facts ih =>
      obtain ⟨fluent, meant⟩ := readable fact (by simp)
      obtain ⟨world, rest⟩ :=
        ih (start.put fluent) fun other present => readable other (by simp [present])
      exact ⟨world, foldlM_addFact_cons.2 ⟨fluent, meant, rest⟩⟩
  exact folds state.toList empty readable

theorem readable_of_ofState {state : State} (read : ofState state = .ok w) :
    ∀ fact ∈ state, ∃ f, Fluent.read fact = .ok f := by
  have folds (facts : List Fact) (start : World) (built : facts.foldlM addFact start = .ok w) :
      ∀ fact ∈ facts, ∃ f, Fluent.read fact = .ok f := by
    induction facts generalizing start with
    | nil => simp
    | cons fact facts ih =>
      obtain ⟨fluent, meant, rest⟩ := foldlM_addFact_cons.1 built
      exact List.forall_mem_cons.2 ⟨⟨fluent, meant⟩, ih _ rest⟩
  exact folds state.toList empty read

theorem holds_of_says {state : State} {f : Fluent} (oneSupport : OneSupport state)
    (read : ofState state = .ok w) (stated : Says state f) : w.Holds f := by
  obtain ⟨fact, present, meant⟩ := stated
  obtain ⟨before, after, split⟩ := List.append_of_mem (SortedSet.mem_toList.2 present)
  have member {other : Fact} (there : other ∈ before ++ fact :: after) : other ∈ state := by
    rw [← split] at there
    exact there
  unfold ofState at read
  rw [split, List.foldlM_append] at read
  obtain ⟨middle, -, late⟩ := bind_eq_ok_iff.1 read
  obtain ⟨fluent, again, rest⟩ := foldlM_addFact_cons.1 late
  obtain rfl := Except.ok.inj (meant.symm.trans again)
  refine foldlM_keeps rest (put_holds f) fun other there g x y z stated isOn same => ?_
  subst isOn same
  rw [oneSupport x y z ⟨other, member (by simp [there]), stated⟩ ⟨fact, present, meant⟩]

theorem holds_eq_says {state : State} (oneSupport : OneSupport state)
    (read : ofState state = .ok w) : w.Holds = Says state :=
  funext fun _ => propext ⟨says_of_holds read, holds_of_says oneSupport read⟩

theorem exists_world {state : State}
    (readable : ∀ fact ∈ state, ∃ f, Fluent.read fact = .ok f) (oneSupport : OneSupport state) :
    ∃ world, ofState state = .ok world ∧ ∀ f, world.Holds f ↔ Says state f := by
  obtain ⟨world, read⟩ := exists_ofState readable
  exact ⟨world, read, fun f => ⟨says_of_holds read, holds_of_says oneSupport read⟩⟩

theorem mem_toState {fact : Fact} : fact ∈ w.toState ↔ ∃ f, w.Holds f ∧ f.fact = fact := by
  simp only [toState, SortedSet.mem_ofList, List.mem_append, List.mem_map]
  constructor
  · rintro ((⟨⟨x, y⟩, holds, rfl⟩ | ⟨x, holds, rfl⟩) | ⟨x, holds, rfl⟩)
    · exact ⟨.on x y, holds, rfl⟩
    · exact ⟨.onTable x, holds, rfl⟩
    · exact ⟨.clear x, holds, rfl⟩
  · rintro ⟨f, holds, rfl⟩
    cases f with
    | on x y => exact .inl (.inl ⟨(x, y), holds, rfl⟩)
    | onTable x => exact .inl (.inr ⟨x, holds, rfl⟩)
    | clear x => exact .inr ⟨x, holds, rfl⟩

theorem Proper.readable {fact : Fact} (proper : w.Proper) (present : fact ∈ w.toState) :
    ∃ f, w.Holds f ∧ Fluent.read fact = .ok f := by
  obtain ⟨f, holds, rfl⟩ := mem_toState.1 present
  exact ⟨f, holds, (proper.named f holds).read_fact⟩

theorem Proper.says_toState_iff {f : Fluent} (proper : w.Proper) :
    Says w.toState f ↔ w.Holds f := by
  constructor
  · rintro ⟨fact, present, meant⟩
    obtain ⟨g, holds, again⟩ := proper.readable present
    rwa [Except.ok.inj (meant.symm.trans again)]
  · intro holds
    exact ⟨f.fact, mem_toState.2 ⟨f, holds, rfl⟩, (proper.named f holds).read_fact⟩

theorem Proper.says_toState (proper : w.Proper) : Says w.toState = w.Holds :=
  funext fun _ => propext proper.says_toState_iff

theorem Alike.toState_eq (alike : w.Alike v) : w.toState = v.toState :=
  SortedSet.eq_of_mem_iff fun fact => by
    rw [mem_toState, mem_toState]
    exact exists_congr fun f => and_congr_left' (alike f)

theorem Proper.alike_of_toState_eq (wProper : w.Proper) (vProper : v.Proper)
    (same : w.toState = v.toState) : w.Alike v := fun f => by
  rw [← wProper.says_toState_iff, same, vProper.says_toState_iff]

theorem toState_eq {state : State} (same : ∀ f, w.Holds f ↔ Says state f)
    (canonical : ∀ fact ∈ state, ∃ f, Fluent.read fact = .ok f ∧ f.fact = fact) :
    w.toState = state := by
  refine SortedSet.eq_of_mem_iff fun fact => ?_
  rw [mem_toState]
  constructor
  · rintro ⟨f, holds, rfl⟩
    obtain ⟨fact, present, meant⟩ := (same f).1 holds
    obtain ⟨g, again, rfl⟩ := canonical fact present
    rwa [Except.ok.inj (meant.symm.trans again)]
  · intro present
    obtain ⟨f, meant, written⟩ := canonical fact present
    exact ⟨f, (same f).2 ⟨fact, present, meant⟩, written⟩

theorem exists_world_of_canonical {state : State}
    (canonical : ∀ fact ∈ state, ∃ f, Fluent.read fact = .ok f ∧ f.fact = fact)
    (oneSupport : OneSupport state) :
    ∃ world, ofState state = .ok world ∧ world.toState = state ∧
      ∀ f, world.Holds f ↔ Says state f := by
  have readable (fact : Fact) (present : fact ∈ state) : ∃ f, Fluent.read fact = .ok f := by
    obtain ⟨f, meant, -⟩ := canonical fact present
    exact ⟨f, meant⟩
  obtain ⟨world, read, same⟩ := exists_world readable oneSupport
  exact ⟨world, read, toState_eq same canonical, same⟩

theorem Proper.ofState_toState (proper : w.Proper) :
    ∃ world, ofState w.toState = .ok world ∧ world.Proper ∧ world.Alike w := by
  have readable (fact : Fact) (present : fact ∈ w.toState) : ∃ f, Fluent.read fact = .ok f := by
    obtain ⟨f, -, read⟩ := proper.readable present
    exact ⟨f, read⟩
  have oneSupport : OneSupport w.toState := fun x y z left right =>
    proper.oneSupport x y z (proper.says_toState_iff.1 left) (proper.says_toState_iff.1 right)
  obtain ⟨world, read, same⟩ := exists_world readable oneSupport
  exact ⟨world, read, ofState_proper read, fun f => (same f).trans proper.says_toState_iff⟩

theorem exists_world_of_fluents (fluents : List Fluent)
    (named : ∀ f ∈ fluents, f.Named)
    (oneSupport : ∀ x y z, .on x y ∈ fluents → .on x z ∈ fluents → y = z) :
    ∃ world, ofState (.ofList (fluents.map Fluent.fact)) = .ok world ∧
      ∀ f, world.Holds f ↔ f ∈ fluents := by
  have once : OneSupport (.ofList (fluents.map Fluent.fact)) := fun x y z left right =>
    oneSupport x y z ((says_ofList_iff named).1 left) ((says_ofList_iff named).1 right)
  obtain ⟨world, read, -, same⟩ := exists_world_of_canonical (canonical_ofList named) once
  exact ⟨world, read, fun f => (same f).trans (says_ofList_iff named)⟩

end DeclarativeMdp.BlocksWorld.World
