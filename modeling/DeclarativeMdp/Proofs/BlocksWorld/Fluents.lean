import DeclarativeMdp.BlocksWorld.World
import DeclarativeMdp.Proofs.Term.Blanks
import Mathlib.Tactic.SplitIfs

set_option autoImplicit false

namespace DeclarativeMdp.BlocksWorld

inductive Fluent where
  | on (block below : String)
  | onTable (block : String)
  | clear (block : String)
  deriving DecidableEq, Repr

def IsBlock (name : String) : Prop := ∃ t : Term, t.WellNamed ∧ t.render = name

def IsConstant (name : String) : Prop := Term.IsName name.toList

instance : DecidablePred IsConstant := fun name =>
  inferInstanceAs (Decidable (Term.IsName name.toList))

theorem isConstant_table : IsConstant table := by decide

theorem IsConstant.wellNamed {name : String} (constant : IsConstant name) :
    (Term.symbol name).WellNamed :=
  constant

theorem render_symbol (name : String) : (Term.symbol name).render = name := String.ofList_toList

theorem IsConstant.isBlock {name : String} (constant : IsConstant name) : IsBlock name :=
  ⟨.symbol name, constant.wellNamed, render_symbol name⟩

namespace Fluent

def fact : Fluent → Fact
  | .on x y => .ofText ("on(" ++ x ++ "," ++ y ++ ")")
  | .onTable x => .ofText ("ontable(" ++ x ++ ")")
  | .clear x => .ofText ("clear(" ++ x ++ ")")

def blocks : Fluent → List String
  | .on x y => [x, y]
  | .onTable x | .clear x => [x]

def Named (fluent : Fluent) : Prop := ∀ name ∈ fluent.blocks, IsBlock name

def ofTerm? (t : Term) : Option Fluent :=
  match t.name?, t.args with
  | some "on", [x, y] => some (.on x.render y.render)
  | some "ontable", [x] => some (.onTable x.render)
  | some "clear", [x] => some (.clear x.render)
  | _, _ => none

def read (fact : Fact) : Except Error Fluent := do
  match ofTerm? (← readAtom fact.text) with
  | some fluent => return fluent
  | none => throw (.malformedAtom fact.text .notFluent)

theorem ofTerm?_eq_some_iff {t : Term} {fluent : Fluent} :
    ofTerm? t = some fluent ↔
      (∃ x y, t = .function "on" [x, y] ∧ fluent = .on x.render y.render) ∨
      (∃ x, t = .function "ontable" [x] ∧ fluent = .onTable x.render) ∨
      (∃ x, t = .function "clear" [x] ∧ fluent = .clear x.render) := by
  constructor
  · intro read
    unfold ofTerm? at read
    cases t with
    | number | text => simp [Term.name?] at read
    | symbol name => simp [Term.args] at read
    | function name args =>
      have called {other : String} (same : (Term.function name args).name? = some other) :
          name = other := by
        simp only [Term.name?] at same
        split_ifs at same
        exact Option.some.inj same
      simp only [Term.args] at read
      split at read
      next x y same =>
        rw [called same]
        exact .inl ⟨x, y, rfl, (Option.some.inj read).symm⟩
      next x same =>
        rw [called same]
        exact .inr (.inl ⟨x, rfl, (Option.some.inj read).symm⟩)
      next x same =>
        rw [called same]
        exact .inr (.inr ⟨x, rfl, (Option.some.inj read).symm⟩)
      next => simp at read
  · rintro (⟨x, y, rfl, rfl⟩ | ⟨x, rfl, rfl⟩ | ⟨x, rfl, rfl⟩) <;> rfl

theorem ofTerm?_eq_on_iff {t : Term} {x y : String} :
    ofTerm? t = some (.on x y) ↔
      ∃ a b, t = .function "on" [a, b] ∧ a.render = x ∧ b.render = y := by
  simp [ofTerm?_eq_some_iff, eq_comm]

theorem read_eq_ok_iff {fact : Fact} {fluent : Fluent} :
    read fact = .ok fluent ↔ ∃ t, fact.term = .ok t ∧ ofTerm? t = some fluent := by
  unfold read readAtom Fact.term
  cases parsed : Term.parse fact.text with
  | error => simp [Except.mapError, bind, Except.bind]
  | ok t =>
    cases meaning : ofTerm? t <;>
      simp [meaning, Except.mapError, bind, Except.bind, pure, Except.pure]

theorem blocks_of_ofTerm? {t : Term} {fluent : Fluent} (meaning : ofTerm? t = some fluent) :
    fluent.blocks = t.args.map Term.render := by
  rcases ofTerm?_eq_some_iff.1 meaning with ⟨x, y, rfl, rfl⟩ | ⟨x, rfl, rfl⟩ | ⟨x, rfl, rfl⟩ <;> rfl

theorem named_of_read {fact : Fact} {fluent : Fluent} (meant : read fact = .ok fluent) :
    fluent.Named := by
  obtain ⟨t, parsed, meaning⟩ := read_eq_ok_iff.1 meant
  intro name present
  rw [blocks_of_ofTerm? meaning] at present
  obtain ⟨arg, inArgs, rfl⟩ := List.mem_map.1 present
  exact ⟨arg, (Term.wellNamed_of_parse parsed).of_mem_args inArgs, rfl⟩

theorem fact_of_ofTerm? {t : Term} {fluent : Fluent} (named : t.WellNamed)
    (meaning : ofTerm? t = some fluent) : fluent.fact = .ofTerm t := by
  have written {text : String} (same : text.toList = t.chars) : Fact.ofText text = .ofTerm t := by
    have rendered : text = t.render := by rw [Term.render, ← same, String.ofList_toList]
    rw [Fact.ofText, rendered, Term.normalize_render named, Fact.ofTerm]
  rcases ofTerm?_eq_some_iff.1 meaning with ⟨x, y, rfl, rfl⟩ | ⟨x, rfl, rfl⟩ | ⟨x, rfl, rfl⟩
  all_goals
    refine written ?_
    simp [Term.render, Term.chars, Term.charsAll, Term.closing]

theorem exists_term {fluent : Fluent} {p : Term → Prop}
    (written : ∀ name ∈ fluent.blocks, ∃ t : Term, t.WellNamed ∧ t.render = name ∧ p t) :
    ∃ t, t.WellNamed ∧ ofTerm? t = some fluent ∧ ∀ arg ∈ t.args, p arg := by
  cases fluent with
  | on x y =>
    obtain ⟨s, sNamed, rfl, sHas⟩ := written x (by simp [blocks])
    obtain ⟨t, tNamed, rfl, tHas⟩ := written y (by simp [blocks])
    refine ⟨.function "on" [s, t], ⟨.inr (by decide), sNamed, tNamed, trivial⟩, rfl, ?_⟩
    simp [Term.args, sHas, tHas]
  | onTable x =>
    obtain ⟨s, named, rfl, has⟩ := written x (by simp [blocks])
    refine ⟨.function "ontable" [s], ⟨.inr (by decide), named, trivial⟩, rfl, ?_⟩
    simp [Term.args, has]
  | clear x =>
    obtain ⟨s, named, rfl, has⟩ := written x (by simp [blocks])
    refine ⟨.function "clear" [s], ⟨.inr (by decide), named, trivial⟩, rfl, ?_⟩
    simp [Term.args, has]

theorem Named.exists_term {fluent : Fluent} (named : fluent.Named) :
    ∃ t, t.WellNamed ∧ ofTerm? t = some fluent := by
  have written (name : String) (present : name ∈ fluent.blocks) :
      ∃ t : Term, t.WellNamed ∧ t.render = name ∧ True := by
    obtain ⟨t, wellNamed, same⟩ := named name present
    exact ⟨t, wellNamed, same, trivial⟩
  obtain ⟨t, wellNamed, meaning, -⟩ := Fluent.exists_term written
  exact ⟨t, wellNamed, meaning⟩

theorem exists_term_of_constants {fluent : Fluent}
    (constants : ∀ name ∈ fluent.blocks, IsConstant name) :
    ∃ t, t.WellNamed ∧ ofTerm? t = some fluent ∧ ∀ arg ∈ t.args, ∃ name, arg = .symbol name :=
  exists_term fun name present =>
    ⟨.symbol name, (constants name present).wellNamed, render_symbol name, name, rfl⟩

theorem Named.read_fact {fluent : Fluent} (named : fluent.Named) :
    read fluent.fact = .ok fluent := by
  obtain ⟨t, wellNamed, meaning⟩ := named.exists_term
  rw [fact_of_ofTerm? wellNamed meaning]
  exact read_eq_ok_iff.2 ⟨t, Fact.term_ofTerm wellNamed, meaning⟩

theorem Named.fact_injective {f g : Fluent} (fNamed : f.Named) (gNamed : g.Named)
    (same : f.fact = g.fact) : f = g := by
  have read := fNamed.read_fact
  rw [same, gNamed.read_fact] at read
  exact (Except.ok.inj read).symm

end Fluent

def Says (state : State) (fluent : Fluent) : Prop := ∃ fact ∈ state, Fluent.read fact = .ok fluent

theorem canonical_ofList {fluents : List Fluent} (named : ∀ f ∈ fluents, f.Named) :
    ∀ fact ∈ SortedSet.ofList (fluents.map Fluent.fact),
      ∃ f, Fluent.read fact = .ok f ∧ f.fact = fact := by
  intro fact present
  obtain ⟨f, there, rfl⟩ := List.mem_map.1 (SortedSet.mem_ofList.1 present)
  exact ⟨f, (named f there).read_fact, rfl⟩

theorem says_ofList_iff {fluents : List Fluent} (named : ∀ f ∈ fluents, f.Named) {f : Fluent} :
    Says (.ofList (fluents.map Fluent.fact)) f ↔ f ∈ fluents := by
  constructor
  · rintro ⟨fact, present, meant⟩
    obtain ⟨g, there, rfl⟩ := List.mem_map.1 (SortedSet.mem_ofList.1 present)
    rwa [Except.ok.inj (meant.symm.trans (named g there).read_fact)]
  · intro there
    have present : f.fact ∈ SortedSet.ofList (fluents.map Fluent.fact) :=
      SortedSet.mem_ofList.2 (List.mem_map.2 ⟨f, there, rfl⟩)
    exact ⟨f.fact, present, (named f there).read_fact⟩

end DeclarativeMdp.BlocksWorld
