import DeclarativeMdp.Proofs.BlocksWorld.Dynamics
import DeclarativeMdp.Proofs.BlocksWorld.Search
import Mathlib.Data.List.Nodup

set_option autoImplicit false

namespace DeclarativeMdp

mutual

def Term.rename (ρ : String → String) : Term → Term
  | .number value => .number value
  | .symbol name => .symbol (ρ name)
  | .text value => .text value
  | .function name args => .function name (Term.renameAll ρ args)

def Term.renameAll (ρ : String → String) : List Term → List Term
  | [] => []
  | t :: ts => t.rename ρ :: Term.renameAll ρ ts

end

def Fact.rename (ρ : String → String) (fact : Fact) : Fact :=
  match fact.term with
  | .ok t => .ofTerm (t.rename ρ)
  | .error _ => fact

def Action.rename (ρ : String → String) (action : Action) : Action :=
  match action.term with
  | .ok t => .ofTerm (t.rename ρ)
  | .error _ => action

def State.rename (ρ : String → String) (state : State) : State :=
  .ofList (state.toList.map (Fact.rename ρ))

def AvailableActions.rename (ρ : String → String) (actions : AvailableActions) :
    AvailableActions :=
  .ofList (actions.toList.map (Action.rename ρ))

variable {ρ : String → String}

theorem Action.rename_of_term {action : Action} {t : Term} (meant : action.term = .ok t) :
    action.rename ρ = .ofTerm (t.rename ρ) := by
  rw [Action.rename, meant]

theorem State.mem_rename {state : State} {fact : Fact} :
    fact ∈ state.rename ρ ↔ ∃ old ∈ state, old.rename ρ = fact := by
  rw [State.rename, SortedSet.mem_ofList, List.mem_map]
  rfl

theorem AvailableActions.mem_rename {actions : AvailableActions} {action : Action} :
    action ∈ actions.rename ρ ↔ ∃ old ∈ actions, old.rename ρ = action := by
  rw [AvailableActions.rename, SortedSet.mem_ofList, List.mem_map]
  rfl

namespace BlocksWorld

def Fluent.rename (ρ : String → String) : Fluent → Fluent
  | .on x y => .on (ρ x) (ρ y)
  | .onTable x => .onTable (ρ x)
  | .clear x => .clear (ρ x)

def Fluent.About (names : String → Prop) (f : Fluent) : Prop := ∀ name ∈ f.blocks, names name

def Move.rename (ρ : String → String) (move : Move) : Move := ⟨ρ move.block, ρ move.target⟩

def Move.About (names : String → Prop) (move : Move) : Prop :=
  names move.block ∧ (names move.target ∨ move.target = table)

structure Renaming (ρ : String → String) (names : String → Prop) : Prop where
  table : ρ table = table
  old : ∀ x, names x → IsConstant x ∧ x ≠ BlocksWorld.table
  new : ∀ x, names x → IsConstant (ρ x) ∧ ρ x ≠ BlocksWorld.table
  injective : ∀ x y, names x → names y → ρ x = ρ y → x = y

structure CanonicalOver (names : String → Prop) (state : State) : Prop where
  canonical : ∀ fact ∈ state, ∃ f, Fluent.read fact = .ok f ∧ f.fact = fact
  about : ∀ f, Says state f → f.About names

variable {names : String → Prop} {state goal : State} {x y : String} {f g : Fluent}

theorem Fluent.about_rename :
    (f.rename ρ).About names ↔ f.About fun name => names (ρ name) := by
  cases f <;> simp [rename, About, blocks]

theorem Fluent.term_rename : (f.rename ρ).term = f.term.rename ρ := by
  cases f <;> simp [rename, term, Term.rename, Term.renameAll]

theorem Move.term_rename {move : Move} :
    (move.rename ρ).term = move.term.rename ρ := by
  simp [rename, term, Term.rename, Term.renameAll]

theorem Fluent.exists_rename (image : f.About fun y => ∃ x, names x ∧ ρ x = y) :
    ∃ g : Fluent, g.About names ∧ g.rename ρ = f := by
  cases f with
  | on a b =>
    obtain ⟨x, xNamed, rfl⟩ := image a (by simp [blocks])
    obtain ⟨y, yNamed, rfl⟩ := image b (by simp [blocks])
    exact ⟨.on x y, by simp [About, blocks, xNamed, yNamed], rfl⟩
  | onTable a =>
    obtain ⟨x, named, rfl⟩ := image a (by simp [blocks])
    exact ⟨.onTable x, by simp [About, blocks, named], rfl⟩
  | clear a =>
    obtain ⟨x, named, rfl⟩ := image a (by simp [blocks])
    exact ⟨.clear x, by simp [About, blocks, named], rfl⟩

theorem Fluent.fact_eq (constants : f.About IsConstant) : f.fact = .ofTerm f.term :=
  fact_of_ofTerm? (wellNamed_term constants) f.ofTerm?_term

namespace Renaming

theorem eq_iff (valid : Renaming ρ names) (left : names x) (right : names y) :
    ρ x = ρ y ↔ x = y :=
  ⟨valid.injective x y left right, congrArg ρ⟩

theorem eq_table_iff (valid : Renaming ρ names) (named : names y ∨ y = BlocksWorld.table) :
    ρ y = BlocksWorld.table ↔ y = BlocksWorld.table := by
  constructor
  · intro same
    exact named.resolve_left fun named => (valid.new y named).2 same
  · rintro rfl
    exact valid.table

theorem eq_target_iff (valid : Renaming ρ names) (left : names x)
    (right : names y ∨ y = BlocksWorld.table) : ρ x = ρ y ↔ x = y := by
  rcases right with right | rfl
  · exact valid.eq_iff left right
  · rw [valid.table]
    exact valid.eq_table_iff (.inl left)

theorem constants (valid : Renaming ρ names) (about : f.About names) : f.About IsConstant :=
  fun name there => (valid.old name (about name there)).1

theorem constants_rename (valid : Renaming ρ names) (about : f.About names) :
    (f.rename ρ).About IsConstant :=
  Fluent.about_rename.2 fun name there => (valid.new name (about name there)).1

theorem named_rename (valid : Renaming ρ names) (about : f.About names) : (f.rename ρ).Named :=
  fun name there => (valid.constants_rename about name there).isBlock

theorem rename_fact (valid : Renaming ρ names) (about : f.About names) :
    f.fact.rename ρ = (f.rename ρ).fact := by
  have constants := valid.constants about
  have meant : f.fact.term = .ok f.term := by
    rw [Fluent.fact_eq constants]
    exact Fact.term_ofTerm (Fluent.wellNamed_term constants)
  rw [Fact.rename, meant, Fluent.fact_eq (valid.constants_rename about), Fluent.term_rename]

theorem rename_injective (valid : Renaming ρ names) (left : f.About names)
    (right : g.About names) (same : f.rename ρ = g.rename ρ) : f = g := by
  cases f <;> cases g <;>
    simp_all [Fluent.rename, Fluent.About, Fluent.blocks, valid.eq_iff]

end Renaming

theorem CanonicalOver.mem_rename (canonicalOver : CanonicalOver names state)
    (valid : Renaming ρ names) {fact : Fact} :
    fact ∈ state.rename ρ ↔ ∃ f, Says state f ∧ (f.rename ρ).fact = fact := by
  rw [State.mem_rename]
  constructor
  · rintro ⟨old, present, rfl⟩
    obtain ⟨f, meant, rfl⟩ := canonicalOver.canonical old present
    have stated : Says state f := ⟨_, present, meant⟩
    exact ⟨f, stated, (valid.rename_fact (canonicalOver.about f stated)).symm⟩
  · rintro ⟨f, ⟨old, present, meant⟩, rfl⟩
    obtain ⟨g, again, rfl⟩ := canonicalOver.canonical old present
    obtain rfl := Except.ok.inj (meant.symm.trans again)
    exact ⟨_, present, valid.rename_fact (canonicalOver.about f ⟨_, present, meant⟩)⟩

theorem CanonicalOver.says_rename (canonicalOver : CanonicalOver names state)
    (valid : Renaming ρ names) : Says (state.rename ρ) f ↔ ∃ g, Says state g ∧ g.rename ρ = f := by
  constructor
  · rintro ⟨fact, present, meant⟩
    obtain ⟨g, stated, rfl⟩ := (canonicalOver.mem_rename valid).1 present
    have again := (valid.named_rename (canonicalOver.about g stated)).read_fact
    exact ⟨g, stated, Except.ok.inj (again.symm.trans meant)⟩
  · rintro ⟨g, stated, rfl⟩
    exact ⟨_, (canonicalOver.mem_rename valid).2 ⟨g, stated, rfl⟩,
      (valid.named_rename (canonicalOver.about g stated)).read_fact⟩

theorem CanonicalOver.canonical_rename (canonicalOver : CanonicalOver names state)
    (valid : Renaming ρ names) :
    ∀ fact ∈ state.rename ρ, ∃ f, Fluent.read fact = .ok f ∧ f.fact = fact := by
  intro fact present
  obtain ⟨g, stated, rfl⟩ := (canonicalOver.mem_rename valid).1 present
  exact ⟨_, (valid.named_rename (canonicalOver.about g stated)).read_fact, rfl⟩

namespace World

variable {w v : World} {move : Move}

structure Renamed (ρ : String → String) (names : String → Prop) (w v : World) : Prop where
  about : w.Names names
  image : v.Names fun y => ∃ x, names x ∧ ρ x = y
  holds : ∀ f : Fluent, f.About names → (v.Holds (f.rename ρ) ↔ w.Holds f)

theorem Renamed.of_alike {u z : World} (renamed : Renamed ρ names w v) (left : u.Alike w)
    (right : z.Alike v) : Renamed ρ names u z where
  about := renamed.about.of_alike left.symm
  image := renamed.image.of_alike right.symm
  holds f about := (right _).trans ((renamed.holds f about).trans (left f).symm)

theorem Renamed.holds_iff (renamed : Renamed ρ names w v) :
    v.Holds f ↔ ∃ g, w.Holds g ∧ g.rename ρ = f := by
  constructor
  · intro holds
    obtain ⟨g, about, rfl⟩ := Fluent.exists_rename (renamed.image f holds)
    exact ⟨g, (renamed.holds g about).1 holds, rfl⟩
  · rintro ⟨g, holds, rfl⟩
    exact (renamed.holds g (renamed.about g holds)).2 holds

theorem Renamed.constants (renamed : Renamed ρ names w v) (valid : Renaming ρ names) :
    w.Names IsConstant :=
  fun f holds => valid.constants (renamed.about f holds)

theorem Renamed.constants_image (renamed : Renamed ρ names w v) (valid : Renaming ρ names) :
    v.Names IsConstant := by
  intro f holds
  obtain ⟨g, before, rfl⟩ := renamed.holds_iff.1 holds
  exact valid.constants_rename (renamed.about g before)

theorem Renamed.holds_on (renamed : Renamed ρ names w v) (left : names x) (right : names y) :
    v.Holds (.on (ρ x) (ρ y)) ↔ w.Holds (.on x y) :=
  renamed.holds (.on x y) (by simp [Fluent.About, Fluent.blocks, left, right])

theorem Renamed.holds_onTable (renamed : Renamed ρ names w v) (named : names x) :
    v.Holds (.onTable (ρ x)) ↔ w.Holds (.onTable x) :=
  renamed.holds (.onTable x) (by simp [Fluent.About, Fluent.blocks, named])

theorem Renamed.holds_clear (renamed : Renamed ρ names w v) (named : names x) :
    v.Holds (.clear (ρ x)) ↔ w.Holds (.clear x) :=
  renamed.holds (.clear x) (by simp [Fluent.About, Fluent.blocks, named])

theorem Renamed.exists_below (renamed : Renamed ρ names w v) (named : names x) :
    (∃ y, v.Holds (.on (ρ x) y)) ↔ ∃ y, w.Holds (.on x y) := by
  constructor
  · rintro ⟨_, holds⟩
    obtain ⟨y, below, rfl⟩ := renamed.image _ holds _ (.tail _ (.head _))
    exact ⟨y, (renamed.holds_on named below).1 holds⟩
  · rintro ⟨y, holds⟩
    have below := renamed.about _ holds y (.tail _ (.head _))
    exact ⟨ρ y, (renamed.holds_on named below).2 holds⟩

theorem Renamed.exists_above (renamed : Renamed ρ names w v) (named : names x) :
    (∃ y, v.Holds (.on y (ρ x))) ↔ ∃ y, w.Holds (.on y x) := by
  constructor
  · rintro ⟨_, holds⟩
    obtain ⟨y, above, rfl⟩ := renamed.image _ holds _ (.head _)
    exact ⟨y, (renamed.holds_on above named).1 holds⟩
  · rintro ⟨y, holds⟩
    have above := renamed.about _ holds y (.head _)
    exact ⟨ρ y, (renamed.holds_on above named).2 holds⟩

theorem Renamed.occurs (renamed : Renamed ρ names w v) (named : names x) :
    Occurs v.Holds (ρ x) ↔ Occurs w.Holds x :=
  or_congr (renamed.exists_below named)
    (or_congr (renamed.exists_above named) (renamed.holds_onTable named))

theorem Renamed.legal (renamed : Renamed ρ names w v) (valid : Renaming ρ names)
    (block : names x) (target : names y ∨ y = table) :
    Legal v.Holds (ρ x) (ρ y) ↔ Legal w.Holds x y := by
  unfold Legal
  rw [renamed.holds_clear block, valid.eq_table_iff target, renamed.exists_below block]
  rcases target with target | rfl
  · rw [ne_eq, valid.eq_iff block target, renamed.occurs block, renamed.occurs target,
      renamed.holds_clear target, renamed.holds_on block target]
  · have nowhere {u : World} {p : String → Prop} (named : u.Names p) (none : ¬ p table) :
        ¬ u.Holds (.clear table) :=
      fun holds => none (named _ holds table (.head _))
    have left : ¬ w.Holds (.clear table) :=
      nowhere renamed.about fun named => (valid.old _ named).2 rfl
    have right : ¬ v.Holds (.clear (ρ table)) := by
      rw [valid.table]
      refine nowhere renamed.image ?_
      rintro ⟨x, named, same⟩
      exact (valid.new x named).2 same
    simp [left, right]

theorem Renamed.toState_eq (renamed : Renamed ρ names w v) (valid : Renaming ρ names) :
    v.toState = w.toState.rename ρ := by
  refine SortedSet.eq_of_mem_iff fun fact => ?_
  rw [State.mem_rename, mem_toState]
  constructor
  · rintro ⟨f, holds, rfl⟩
    obtain ⟨g, before, rfl⟩ := renamed.holds_iff.1 holds
    exact ⟨g.fact, mem_toState.2 ⟨g, before, rfl⟩, valid.rename_fact (renamed.about g before)⟩
  · rintro ⟨old, present, rfl⟩
    obtain ⟨g, holds, rfl⟩ := mem_toState.1 present
    exact ⟨g.rename ρ, renamed.holds_iff.2 ⟨g, holds, rfl⟩,
      (valid.rename_fact (renamed.about g holds)).symm⟩

theorem Proper.reaches_iff (proper : w.Proper)
    (canonical : ∀ fact ∈ goal, ∃ f, Fluent.read fact = .ok f ∧ f.fact = fact) :
    w.Reaches goal ↔ ∀ f, Says goal f → w.Holds f := by
  constructor
  · rintro reached f ⟨fact, present, meant⟩
    exact proper.says_toState_iff.1 ⟨fact, reached fact present, meant⟩
  · intro stated fact present
    obtain ⟨f, meant, same⟩ := canonical fact present
    exact mem_toState.2 ⟨f, stated f ⟨fact, present, meant⟩, same⟩

section

variable (valid : Renaming ρ names) (canonicalOver : CanonicalOver names goal)

include valid canonicalOver

theorem Renamed.reaches_iff (renamed : Renamed ρ names w v) (wProper : w.Proper)
    (vProper : v.Proper) : v.Reaches (goal.rename ρ) ↔ w.Reaches goal := by
  rw [vProper.reaches_iff (canonicalOver.canonical_rename valid),
    wProper.reaches_iff canonicalOver.canonical]
  constructor
  · intro all f stated
    have about := canonicalOver.about f stated
    exact (renamed.holds f about).1 (all _ ((canonicalOver.says_rename valid).2 ⟨f, stated, rfl⟩))
  · intro all f stated
    obtain ⟨g, before, rfl⟩ := (canonicalOver.says_rename valid).1 stated
    exact (renamed.holds g (canonicalOver.about g before)).2 (all g before)

end

theorem Names.about_of_feasible (about : w.Names names) (feasible : w.Feasible move) :
    move.About names :=
  ⟨about.of_mem_blocks feasible.1, feasible.2.2.symm.imp
    (fun target => about.of_mem_blocks target.1) fun target => target.1⟩

theorem Renamed.exists_move (renamed : Renamed ρ names w v) (valid : Renaming ρ names)
    (feasible : v.Feasible move) : ∃ old : Move, old.About names ∧ old.rename ρ = move := by
  obtain ⟨a, b⟩ := move
  obtain ⟨⟨x, block, rfl⟩, ⟨y, target, rfl⟩ | rfl⟩ := renamed.image.about_of_feasible feasible
  · exact ⟨⟨x, y⟩, ⟨block, .inl target⟩, rfl⟩
  · exact ⟨⟨x, table⟩, ⟨block, .inr rfl⟩, by rw [Move.rename, valid.table]⟩

theorem Renamed.feasible_iff (renamed : Renamed ρ names w v) (valid : Renaming ρ names)
    (about : move.About names) : v.Feasible (move.rename ρ) ↔ w.Feasible move :=
  feasible_iff_legal.trans ((renamed.legal valid about.1 about.2).trans feasible_iff_legal.symm)

theorem Renamed.apply (renamed : Renamed ρ names w v) (valid : Renaming ρ names)
    (wProper : w.Proper) (vProper : v.Proper) (feasible : w.Feasible move) :
    Renamed ρ names (w.apply move) (v.apply (move.rename ρ)) where
  about := renamed.about.apply wProper feasible
  image := renamed.image.apply vProper
    ((renamed.feasible_iff valid (renamed.about.about_of_feasible feasible)).2 feasible)
  holds f about := by
    obtain ⟨block, target⟩ := renamed.about.about_of_feasible feasible
    have onto := valid.eq_table_iff target
    rw [vProper.holds_apply, wProper.holds_apply]
    cases f with
    | on x y =>
      have upper : names x := about x (.head _)
      have lower : names y := about y (.tail _ (.head _))
      simp only [Fluent.rename, Move.rename, ne_eq, onto, valid.eq_iff upper block,
        valid.eq_target_iff lower target, renamed.holds_on upper lower]
    | onTable x =>
      have named : names x := about x (.head _)
      simp only [Fluent.rename, Move.rename, ne_eq, onto, valid.eq_iff named block,
        renamed.holds_onTable named]
    | clear x =>
      have named : names x := about x (.head _)
      simp only [Fluent.rename, Move.rename, ne_eq, onto, valid.eq_target_iff named target,
        renamed.holds_on block named, renamed.holds_clear named]

section

variable (valid : Renaming ρ names) (canonicalOver : CanonicalOver names goal)

include valid canonicalOver

theorem Renamed.mem_moves_iff (renamed : Renamed ρ names w v) (wProper : w.Proper)
    (vProper : v.Proper) :
    move ∈ v.moves (goal.rename ρ) ↔ ∃ old ∈ w.moves goal, old.rename ρ = move := by
  rw [vProper.mem_moves, renamed.reaches_iff valid canonicalOver wProper vProper]
  simp only [wProper.mem_moves]
  constructor
  · rintro ⟨away, feasible⟩
    obtain ⟨old, about, rfl⟩ := renamed.exists_move valid feasible
    exact ⟨old, ⟨away, (renamed.feasible_iff valid about).1 feasible⟩, rfl⟩
  · rintro ⟨old, ⟨away, feasible⟩, rfl⟩
    have about := renamed.about.about_of_feasible feasible
    exact ⟨away, (renamed.feasible_iff valid about).2 feasible⟩

-- By induction on the number of moves, of which each leads to worlds that are alike but for names.
theorem Renamed.within_iff {count : Nat} (renamed : Renamed ρ names w v) (wProper : w.Proper)
    (vProper : v.Proper) : Within (goal.rename ρ) count v ↔ Within goal count w := by
  induction count generalizing w v with
  | zero => exact renamed.reaches_iff valid canonicalOver wProper vProper
  | succ count ih =>
    have later {old : Move} (possible : old ∈ w.moves goal)
        (there : old.rename ρ ∈ v.moves (goal.rename ρ)) :
        Within (goal.rename ρ) count (v.apply (old.rename ρ)) ↔
          Within goal count (w.apply old) :=
      ih (renamed.apply valid wProper vProper (wProper.mem_moves.1 possible).2)
        (wProper.apply possible) (vProper.apply there)
    constructor
    · rintro ⟨move, there, within⟩
      obtain ⟨old, possible, rfl⟩ :=
        (renamed.mem_moves_iff valid canonicalOver wProper vProper).1 there
      exact ⟨old, possible, (later possible there).1 within⟩
    · rintro ⟨old, possible, within⟩
      have there :=
        (renamed.mem_moves_iff valid canonicalOver wProper vProper).2 ⟨old, possible, rfl⟩
      exact ⟨_, there, (later possible there).2 within⟩

theorem Renamed.planLength_eq (renamed : Renamed ρ names w v) (wProper : w.Proper)
    (vProper : v.Proper) (horizon : Nat) :
    v.planLength (goal.rename ρ) horizon = w.planLength goal horizon := by
  refine Option.ext fun count => ?_
  rw [planLength_eq_some_iff vProper, planLength_eq_some_iff wProper]
  simp only [renamed.within_iff valid canonicalOver wProper vProper]

theorem Renamed.offered_eq (renamed : Renamed ρ names w v) (wProper : w.Proper)
    (vProper : v.Proper) : v.offered (goal.rename ρ) = (w.offered goal).rename ρ := by
  have shown (old : Move) (possible : old ∈ w.moves goal) :
      (Action.ofTerm old.term).rename ρ = .ofTerm (old.rename ρ).term := by
    have feasible := (wProper.mem_moves.1 possible).2
    have named := (renamed.constants valid).wellNamed_of_feasible feasible
    rw [Action.rename_of_term (Action.term_ofTerm named), Move.term_rename]
  refine SortedSet.eq_of_mem_iff fun action => ?_
  rw [AvailableActions.mem_rename, mem_offered]
  constructor
  · rintro ⟨move, there, rfl⟩
    obtain ⟨old, possible, rfl⟩ :=
      (renamed.mem_moves_iff valid canonicalOver wProper vProper).1 there
    exact ⟨_, mem_offered.2 ⟨old, possible, rfl⟩, shown old possible⟩
  · rintro ⟨_, offered, rfl⟩
    obtain ⟨old, possible, rfl⟩ := mem_offered.1 offered
    exact ⟨old.rename ρ, (renamed.mem_moves_iff valid canonicalOver wProper vProper).2
      ⟨old, possible, rfl⟩, shown old possible⟩

end

end World

theorem CanonicalOver.size_rename (canonicalOver : CanonicalOver names state)
    (valid : Renaming ρ names) : (state.rename ρ).size = state.size := by
  have apart : ∀ old ∈ state.toList, ∀ other ∈ state.toList,
      old.rename ρ = other.rename ρ → old = other := by
    intro old present other there same
    obtain ⟨f, meant, rfl⟩ := canonicalOver.canonical old present
    obtain ⟨g, meantToo, rfl⟩ := canonicalOver.canonical other there
    have left := canonicalOver.about f ⟨_, present, meant⟩
    have right := canonicalOver.about g ⟨_, there, meantToo⟩
    rw [valid.rename_fact left, valid.rename_fact right] at same
    have alike := (valid.named_rename left).fact_injective (valid.named_rename right) same
    rw [valid.rename_injective left right alike]
  have nodup : (state.toList.map (Fact.rename ρ)).Nodup := List.Nodup.map_on apart state.nodup
  have same : (state.rename ρ).toList.Perm (state.toList.map (Fact.rename ρ)) :=
    (List.perm_ext_iff_of_nodup (state.rename ρ).nodup nodup).2 fun _ => SortedSet.mem_ofList
  rw [SortedSet.size, same.length_eq, List.length_map, SortedSet.size]

theorem World.Names.canonicalOver {w : World} (about : w.Names names) (proper : w.Proper) :
    CanonicalOver names w.toState where
  canonical fact present := by
    obtain ⟨f, holds, rfl⟩ := mem_toState.1 present
    exact ⟨f, (proper.named f holds).read_fact, rfl⟩
  about f stated := about f (proper.says_toState_iff.1 stated)

theorem CanonicalOver.exists_renamed {w : World} (canonicalOver : CanonicalOver names state)
    (valid : Renaming ρ names) (oneSupport : World.OneSupport state)
    (stated : w.Holds = Says state) :
    ∃ v, World.ofState (state.rename ρ) = .ok v ∧ v.toState = state.rename ρ ∧
      World.Renamed ρ names w v := by
  have once : World.OneSupport (state.rename ρ) := by
    intro x y z left right
    obtain ⟨f, first, same⟩ := (canonicalOver.says_rename valid).1 left
    obtain ⟨g, second, sameToo⟩ := (canonicalOver.says_rename valid).1 right
    cases f <;> cases g <;> simp only [Fluent.rename, reduceCtorEq, Fluent.on.injEq] at same sameToo
    next a b c d =>
      obtain ⟨rfl, rfl⟩ := same
      have upper := canonicalOver.about _ first a (.head _)
      have upperToo := canonicalOver.about _ second c (.head _)
      obtain rfl := valid.injective _ _ upperToo upper sameToo.1
      rw [← sameToo.2, oneSupport c b d first second]
  obtain ⟨v, read, written, holds⟩ :=
    World.exists_world_of_canonical (canonicalOver.canonical_rename valid) once
  refine ⟨v, read, written, fun f there => ?_, fun f there => ?_, fun f about => ?_⟩
  · rw [stated] at there
    exact canonicalOver.about f there
  · obtain ⟨g, before, rfl⟩ := (canonicalOver.says_rename valid).1 ((holds f).1 there)
    refine Fluent.about_rename.2 fun name inBlocks =>
      ⟨name, canonicalOver.about g before name inBlocks, rfl⟩
  · rw [holds, stated, canonicalOver.says_rename valid]
    constructor
    · rintro ⟨g, before, same⟩
      rwa [← valid.rename_injective (canonicalOver.about g before) about same]
    · exact fun before => ⟨f, before, rfl⟩

end BlocksWorld

end DeclarativeMdp
