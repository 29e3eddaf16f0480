import DeclarativeMdp.Proofs.State.Forms
import DeclarativeMdp.Proofs.Text.Spacing
import DeclarativeMdp.Request
import Mathlib.Data.Set.Insert

set_option autoImplicit false

namespace DeclarativeMdp.State

inductive Construction where
  | collecting (texts : List String)
  | including (receiver : Nat) (fact : Fact)
  | excluding (receiver : Nat) (fact : Fact)
  deriving DecidableEq, Repr

structure Interpretation (α : Type) where
  collecting : List String → α
  including : α → Fact → α
  excluding : α → Fact → α

namespace Interpretation

variable {α β : Type}

def next (interpretation : Interpretation α) (made : List α) : Construction → Option α
  | .collecting texts => some (interpretation.collecting texts)
  | .including receiver fact => made[receiver]?.map fun facts => interpretation.including facts fact
  | .excluding receiver fact => made[receiver]?.map fun facts => interpretation.excluding facts fact

def step (interpretation : Interpretation α) (made : List α) (construction : Construction) :
    List α :=
  made ++ (interpretation.next made construction).toList

def run (interpretation : Interpretation α) (constructions : List Construction) : List α :=
  constructions.foldl interpretation.step []

structure Agree (related : α → β → Prop) (first : Interpretation α) (second : Interpretation β) :
    Prop where
  collecting : ∀ texts, related (first.collecting texts) (second.collecting texts)
  including : ∀ {a b} fact, related a b → related (first.including a fact) (second.including b fact)
  excluding : ∀ {a b} fact, related a b → related (first.excluding a fact) (second.excluding b fact)

variable {related : α → β → Prop} {first : Interpretation α} {second : Interpretation β}
  {made : List α} {others : List β}

theorem rel_getElem? (each : List.Forall₂ related made others) (place : Nat) :
    Option.Rel related made[place]? others[place]? := by
  induction each generalizing place with
  | nil => exact .none
  | cons here _ ih =>
    cases place with
    | zero => exact .some here
    | succ place => simpa using ih place

theorem rel_map {f : α → α} {g : β → β} (kept : ∀ {a b}, related a b → related (f a) (g b))
    {a : Option α} {b : Option β} (here : Option.Rel related a b) :
    Option.Rel related (a.map f) (b.map g) := by
  cases here with
  | some here => exact .some (kept here)
  | none => exact .none

theorem forall₂_toList {a : Option α} {b : Option β} (here : Option.Rel related a b) :
    List.Forall₂ related a.toList b.toList := by
  cases here with
  | some here => exact .cons here .nil
  | none => exact .nil

theorem Agree.next (agree : Agree related first second) (each : List.Forall₂ related made others)
    (construction : Construction) :
    Option.Rel related (first.next made construction) (second.next others construction) := by
  cases construction with
  | collecting texts => exact .some (agree.collecting texts)
  | including receiver fact => exact rel_map (agree.including fact) (rel_getElem? each receiver)
  | excluding receiver fact => exact rel_map (agree.excluding fact) (rel_getElem? each receiver)

theorem Agree.step (agree : Agree related first second) (each : List.Forall₂ related made others)
    (construction : Construction) :
    List.Forall₂ related (first.step made construction) (second.step others construction) :=
  List.rel_append each (forall₂_toList (agree.next each construction))

theorem Agree.run (agree : Agree related first second) (constructions : List Construction) :
    List.Forall₂ related (first.run constructions) (second.run constructions) := by
  have later (made : List α) (others : List β) (each : List.Forall₂ related made others) :
      List.Forall₂ related (constructions.foldl first.step made)
        (constructions.foldl second.step others) := by
    induction constructions generalizing made others with
    | nil => exact each
    | cons construction constructions ih => exact ih _ _ (agree.step each construction)
  exact later [] [] .nil

theorem run_append (interpretation : Interpretation α) (constructions later : List Construction) :
    interpretation.run (constructions ++ later) =
      later.foldl interpretation.step (interpretation.run constructions) :=
  List.foldl_append

theorem isPrefix_run (interpretation : Interpretation α) (constructions later : List Construction) :
    interpretation.run constructions <+: interpretation.run (constructions ++ later) := by
  rw [run_append]
  generalize interpretation.run constructions = made
  induction later generalizing made with
  | nil => exact List.prefix_rfl
  | cons construction later ih => exact (List.prefix_append ..).trans (ih _)

end Interpretation

def states : Interpretation State := ⟨ofTexts, SortedSet.insert, SortedSet.erase⟩

def sets : Interpretation (Set Fact) where
  collecting texts := { fact | ∃ text ∈ texts, Fact.ofText text = fact }
  including facts fact := insert fact facts
  excluding facts fact := facts \ {fact}

def HasMembers (state : State) (facts : Set Fact) : Prop := ∀ fact, fact ∈ state ↔ fact ∈ facts

theorem states_agree_sets : Interpretation.Agree HasMembers states sets where
  collecting texts fact := by
    change fact ∈ SortedSet.ofList _ ↔ ∃ text ∈ texts, _
    rw [SortedSet.mem_ofList, List.mem_map]
  including {state facts} fact has other := by
    change other ∈ state.insert fact ↔ other ∈ insert fact facts
    rw [SortedSet.mem_insert, Set.mem_insert_iff, has]
  excluding {state facts} fact has other := by
    change other ∈ state.erase fact ↔ other ∈ facts \ {fact}
    rw [SortedSet.mem_erase, Set.mem_sdiff, Set.mem_singleton_iff, has]

theorem pairwise_toBytes (state : State) :
    state.toList.Pairwise fun a b => Text.toBytes a.text < Text.toBytes b.text :=
  state.ascending.imp Text.toBytes_lt_of_compare

structure Extensional (left right : State) : Prop where
  members : left = right ↔ ∀ fact, fact ∈ left ↔ fact ∈ right
  satisfies : left = right ↔ left.Satisfies right ∧ right.Satisfies left
  document : left = right ↔ left.toJson = right.toJson
  -- Lengths are written with 64 bits, and no memory holds more bytes than these count.
  snapshot : (Snapshot.state left).length < UInt64.size →
    (left = right ↔ Snapshot.state left = Snapshot.state right)
  printed : (∀ fact, fact ∈ left ↔ fact ∈ right) → left.render = right.render
  current : (∀ fact, fact ∈ left ↔ fact ∈ right) → ∀ request : Request,
    { request with current := left }.programText = { request with current := right }.programText
  subgoal : (∀ fact, fact ∈ left ↔ fact ∈ right) → ∀ request : Request,
    { request with subgoal := left }.programText = { request with subgoal := right }.programText

theorem extensional (left right : State) : Extensional left right where
  members := ⟨fun same _ => same ▸ .rfl, SortedSet.eq_of_mem_iff⟩
  satisfies := by
    refine ⟨?_, fun ⟨above, below⟩ => SortedSet.eq_of_mem_iff fun fact => ⟨below fact, above fact⟩⟩
    rintro rfl
    exact ⟨fun _ => id, fun _ => id⟩
  document := toJson_injective.eq_iff.symm
  snapshot short := ⟨congrArg _, eq_of_snapshot short⟩
  printed same := congrArg _ (SortedSet.eq_of_mem_iff same)
  current same _ := by rw [SortedSet.eq_of_mem_iff same]
  subgoal same _ := by rw [SortedSet.eq_of_mem_iff same]

theorem run_including {constructions : List Construction} {receiver : Nat} {state : State}
    (there : (states.run constructions)[receiver]? = some state) (fact : Fact) :
    states.run (constructions ++ [.including receiver fact]) =
      states.run constructions ++ [state.insert fact] := by
  rw [Interpretation.run_append, List.foldl_cons, List.foldl_nil, Interpretation.step,
    Interpretation.next, there]
  rfl

theorem run_excluding {constructions : List Construction} {receiver : Nat} {state : State}
    (there : (states.run constructions)[receiver]? = some state) (fact : Fact) :
    states.run (constructions ++ [.excluding receiver fact]) =
      states.run constructions ++ [state.erase fact] := by
  rw [Interpretation.run_append, List.foldl_cons, List.foldl_nil, Interpretation.step,
    Interpretation.next, there]
  rfl

theorem run_hasMembers (constructions : List Construction) :
    List.Forall₂ HasMembers (states.run constructions) (sets.run constructions) ∧
      (∀ text other, Fact.ofText text = Fact.ofText other ↔
        Relation.EqvGen Text.Drops text.toList other.toList) ∧
      (∀ later, states.run constructions <+: states.run (constructions ++ later)) ∧
      (∀ receiver state, (states.run constructions)[receiver]? = some state → ∀ fact,
        (∃ next, states.run (constructions ++ [.including receiver fact]) =
            states.run constructions ++ [next] ∧
          ∀ other, other ∈ next ↔ other ∈ state ∨ other = fact) ∧
        ∃ next, states.run (constructions ++ [.excluding receiver fact]) =
            states.run constructions ++ [next] ∧
          ∀ other, other ∈ next ↔ other ∈ state ∧ other ≠ fact) ∧
      (∀ state : State,
        state.toList.Pairwise fun a b => Text.toBytes a.text < Text.toBytes b.text) ∧
      ∀ left right : State, Extensional left right := by
  refine ⟨states_agree_sets.run constructions, fun text other => ?_,
    states.isPrefix_run constructions,
    fun receiver state there fact => ⟨?_, ?_⟩, pairwise_toBytes, extensional⟩
  · rw [Fact.ofText, Fact.ofText, Fact.mk.injEq, Text.normalize_eq_iff]
  · refine ⟨_, run_including there fact, fun other => ?_⟩
    rw [SortedSet.mem_insert, or_comm]
  · exact ⟨_, run_excluding there fact, fun other => SortedSet.mem_erase⟩

def mixture : List Construction :=
  [.collecting ["on(a, b)", "clear(a)"], .including 0 ⟨"p"⟩, .excluding 1 ⟨"p"⟩,
    .collecting ["clear( a )", "on(a,b)", "clear(a)"]]

theorem run_hasMembers_mixture :
    ∃ first second third fourth, states.run mixture = [first, second, third, fourth] ∧
      second.toJson ≠ first.toJson ∧ third = first ∧ fourth.toJson = third.toJson ∧
      ∃ next, states.run (mixture ++ [.including 3 ⟨"p"⟩]) =
        [first, second, third, fourth, next] ∧ next = second := by
  obtain ⟨has, -, -, grows, -, compared⟩ := run_hasMembers mixture
  obtain ⟨first, second, third, fourth, made⟩ :
      ∃ first second third fourth, states.run mixture = [first, second, third, fourth] :=
    ⟨_, _, _, _, rfl⟩
  obtain ⟨⟨next, more, members⟩, -⟩ := grows 3 fourth (by rw [made]; rfl) ⟨"p"⟩
  generalize given : sets.collecting ["on(a, b)", "clear(a)"] = facts
  have absent : ⟨"p"⟩ ∉ facts := by
    rw [← given]
    rintro ⟨text, present, same⟩
    revert text
    decide
  have shuffled : sets.collecting ["clear( a )", "on(a,b)", "clear(a)"] = facts := by
    have forms : Fact.ofText "on(a, b)" = Fact.ofText "on(a,b)" ∧
      Fact.ofText "clear( a )" = Fact.ofText "clear(a)" := by decide
    rw [← given]
    ext fact
    simp [sets, forms, or_comm]
  have meant : sets.run mixture = [facts, insert ⟨"p"⟩ facts, facts, facts] := by
    change [sets.collecting _, insert _ (sets.collecting _), insert _ (sets.collecting _) \ {_},
      sets.collecting _] = _
    rw [shuffled, given, Set.insert_sdiff_self_of_notMem absent]
  rw [made, meant] at has
  simp only [List.forall₂_cons] at has
  obtain ⟨one, two, three, four, -⟩ := has
  have back : third = first :=
    (compared third first).members.2 fun fact => (three fact).trans (one fact).symm
  have again : fourth = third :=
    (compared fourth third).members.2 fun fact => (four fact).trans (three fact).symm
  refine ⟨first, second, third, fourth, made, fun same => ?_, back,
    (compared fourth third).document.1 again, next, by rw [more, made]; rfl, ?_⟩
  · have alike := (compared second first).members.1 ((compared second first).document.2 same)
    exact absent ((one _).1 ((alike _).1 ((two _).2 (Set.mem_insert _ _))))
  · refine (compared next second).members.2 fun fact => ?_
    rw [members, four, two, Set.mem_insert_iff, or_comm]

end DeclarativeMdp.State
