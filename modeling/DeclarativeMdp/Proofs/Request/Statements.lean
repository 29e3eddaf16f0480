import DeclarativeMdp.Proofs.Term.Blanks
import DeclarativeMdp.Request
import Mathlib.Data.List.Basic

set_option autoImplicit false

namespace DeclarativeMdp

namespace Statement

theorem between?_append (first middle last : List Char) :
    between? first last (first ++ middle ++ last) = some middle := by
  have front : first.isPrefixOf (first ++ middle ++ last) = true := by
    rw [List.append_assoc, List.isPrefixOf_iff_prefix]
    exact List.prefix_append ..
  have behind : (first ++ middle ++ last).drop first.length = middle ++ last := by
    rw [List.append_assoc, List.drop_left]
  have back : last.isSuffixOf (middle ++ last) = true := by
    rw [List.isSuffixOf_iff_suffix]
    exact List.suffix_append ..
  have inner : (first ++ middle ++ last).length - first.length - last.length = middle.length := by
    simp only [List.length_append]
    omega
  rw [between?, behind, inner, if_pos ⟨front, back⟩, List.take_left]

theorem toList_render (signature : Signature) :
    signature.render.toList = signature.name.toList ++ '/' :: Nat.toDigits 10 signature.arity := by
  simp [Signature.render]

theorem signature?_render (signature : Signature) :
    signature? signature.render.toList = some signature := by
  have decimal : ∀ d ∈ (Nat.toDigits 10 signature.arity).reverse, d.isDigit = true :=
    fun d present =>
      Nat.isDigit_of_mem_toDigits (by decide) (by decide) (List.mem_reverse.1 present)
  have slash : ('/' : Char).isDigit = false := by decide
  have arity : (signature.render.toList.reverse.takeWhile Char.isDigit).reverse =
      Nat.toDigits 10 signature.arity := by
    rw [toList_render, List.reverse_append, List.reverse_cons, List.append_assoc,
      List.takeWhile_append_of_pos decimal]
    simp [slash]
  have name : signature.render.toList.take
      (signature.render.toList.length - (Nat.toDigits 10 signature.arity).length - 1) =
        signature.name.toList := by
    rw [toList_render, List.length_append, List.length_cons]
    exact List.take_left' (by omega)
  rw [signature?]
  simp only [arity, name]
  rw [if_neg, Term.natOfDigits_eq, Nat.ofDigitChars_ten_toDigits, String.ofList_toList]
  rw [not_or, not_not, List.isEmpty_iff]
  exact ⟨Nat.toDigits_ne_nil, (toList_render signature).symm⟩

theorem between?_of_apart {first text : List Char} (last : List Char)
    (apart : first.isPrefixOf text = false) : between? first last text = none := by
  rw [between?, if_neg]
  simp [apart]

theorem ofLine?_line (statement : Statement) : ofLine? statement.line = some statement := by
  cases statement with
  | current fact =>
    rw [line_current]
    simp only [ofLine?, between?_append]
    rw [if_neg (by simp), Option.map_some, String.ofList_toList]
    rfl
  | subgoal fact =>
    rw [line_subgoal]
    simp only [ofLine?, between?_append]
    rw [if_neg (by simp), between?_of_apart _ (by rfl), Option.map_some, String.ofList_toList]
    rfl
  | action chosen =>
    rw [line_action]
    simp only [ofLine?, between?_append]
    rw [if_neg (by simp), between?_of_apart _ (by rfl), between?_of_apart _ (by rfl),
      Option.map_some, String.ofList_toList]
    rfl
  | plan => rfl
  | shown signature =>
    rw [line_shown]
    simp only [ofLine?, between?_append]
    rw [if_neg (by simp), between?_of_apart _ (by rfl), between?_of_apart _ (by rfl),
      between?_of_apart _ (by rfl), Option.bind_some, signature?_render]
    rfl

theorem newline_not_mem_render {signature : Signature}
    (named : Term.IsName signature.name.toList) : '\n' ∉ signature.render.toList := by
  rw [toList_render, List.mem_append, List.mem_cons]
  rintro (present | same | present)
  · exact Term.not_kept_newline (Term.kept_of_isName named _ present)
  · exact absurd same (by decide)
  · have digit := Nat.isDigit_of_mem_toDigits (by decide) (by decide) present
    exact absurd digit (by decide)

def current? : Statement → Option Fact
  | current fact => some fact
  | _ => none

def subgoal? : Statement → Option Fact
  | subgoal fact => some fact
  | _ => none

def action? : Statement → Option Action
  | action chosen => some chosen
  | _ => none

def shown? : Statement → Option Signature
  | shown signature => some signature
  | _ => none

end Statement

namespace Request

structure Parsed (request : Request) : Prop where
  current : ∀ fact ∈ request.current, ∃ text, Fact.parse text = .ok fact
  subgoal : ∀ fact ∈ request.subgoal, ∃ text, Fact.parse text = .ok fact
  action : ∀ action ∈ request.action, ∃ text, Action.parse text = .ok action
  shown : ∀ signature ∈ request.shown, Term.IsName signature.name.toList

variable {request : Request}

theorem Parsed.newline_not_mem_line (parsed : request.Parsed) :
    ∀ statement ∈ request.statements, '\n' ∉ statement.line := by
  intro statement present
  simp only [statements, List.mem_append, List.mem_map] at present
  rcases present with (((⟨fact, there, rfl⟩ | ⟨fact, there, rfl⟩) | ⟨action, there, rfl⟩) | there) |
    ⟨signature, there, rfl⟩
  · obtain ⟨text, read⟩ := parsed.current fact there
    obtain ⟨t, named, rfl⟩ := Fact.exists_wellNamed read
    simp [Statement.line_current, Fact.ofTerm, Term.newline_not_mem_render named]
  · obtain ⟨text, read⟩ := parsed.subgoal fact there
    obtain ⟨t, named, rfl⟩ := Fact.exists_wellNamed read
    simp [Statement.line_subgoal, Fact.ofTerm, Term.newline_not_mem_render named]
  · obtain ⟨text, read⟩ := parsed.action action (Option.mem_toList.1 there)
    obtain ⟨t, named, rfl⟩ := Action.exists_wellNamed read
    simp [Statement.line_action, Action.ofTerm, Term.newline_not_mem_render named]
  · split_ifs at there
    · rw [List.mem_singleton.1 there]
      decide
    · exact absurd there List.not_mem_nil
  · have named := Statement.newline_not_mem_render (parsed.shown signature there)
    simp [Statement.line_shown, named]

theorem toList_programText (request : Request) : request.programText.toList =
    ['\n'].intercalate (request.statements.map Statement.line ++ [[]]) := by
  rw [programText, String.toList_ofList]
  induction request.statements with
  | nil => rfl
  | cons statement statements ih =>
    rw [List.flatMap_cons, ih]
    cases statements with
    | nil => simp
    | cons next statements => simp

theorem Parsed.filterMap_ofLine? (parsed : request.Parsed) :
    (request.programText.toList.splitOn '\n').filterMap Statement.ofLine? =
      request.statements := by
  have unbroken : ∀ line ∈ request.statements.map Statement.line ++ [[]], '\n' ∉ line := by
    intro line present
    rcases List.mem_append.1 present with present | last
    · obtain ⟨statement, there, rfl⟩ := List.mem_map.1 present
      exact parsed.newline_not_mem_line statement there
    · rw [List.mem_singleton.1 last]
      exact List.not_mem_nil
  rw [toList_programText, List.splitOn_intercalate _ unbroken (by simp), List.filterMap_append,
    List.filterMap_map]
  have each : (Statement.ofLine? ∘ Statement.line) = some := funext Statement.ofLine?_line
  rw [each, List.filterMap_some]
  exact List.append_nil _

-- The programs and the horizon go another way, and so does the number of models.
structure SameQuery (left right : Request) : Prop where
  current : left.current = right.current
  subgoal : left.subgoal = right.subgoal
  action : left.action = right.action
  shown : left.shown = right.shown
  mode : left.mode = .optimize ↔ right.mode = .optimize

theorem filterMap_statements {α : Type} (part : Statement → Option α) (silent : part .plan = none)
    (request : Request) : request.statements.filterMap part =
      request.current.toList.filterMap (part <| .current ·) ++
        request.subgoal.toList.filterMap (part <| .subgoal ·) ++
        request.action.toList.filterMap (part <| .action ·) ++
        request.shown.filterMap (part <| .shown ·) := by
  by_cases planned : request.mode = .optimize <;>
    simp [statements, planned, silent, List.filterMap_append, List.filterMap_map]

theorem statements_eq_iff {left right : Request} :
    left.statements = right.statements ↔ SameQuery left right := by
  constructor
  · intro same
    have parts {α : Type} (part : Statement → Option α) (silent : part .plan = none) :=
      (filterMap_statements part silent left).symm.trans
        ((congrArg _ same).trans (filterMap_statements part silent right))
    have current := parts Statement.current? rfl
    have subgoal := parts Statement.subgoal? rfl
    have action := parts Statement.action? rfl
    have shown := parts Statement.shown? rfl
    have mode : .plan ∈ left.statements ↔ .plan ∈ right.statements := by rw [same]
    simp [Statement.current?, Statement.subgoal?, Statement.action?, Statement.shown?, statements]
      at current subgoal action shown mode
    have chosen : left.action = right.action := by simpa using congrArg List.head? action
    exact ⟨SortedSet.ext current, SortedSet.ext subgoal, chosen, shown, mode⟩
  · rintro ⟨current, subgoal, action, shown, mode⟩
    simp only [statements, current, subgoal, action, shown, mode]

theorem programText_eq_iff {left right : Request} (parsed : left.Parsed) (parsed' : right.Parsed) :
    (left.programText = right.programText ↔ SameQuery left right) ∧
      (left.programText.toList.splitOn '\n').filterMap Statement.ofLine? = left.statements := by
  refine ⟨⟨fun same => statements_eq_iff.1 ?_, fun same => ?_⟩, parsed.filterMap_ofLine?⟩
  · rw [← parsed.filterMap_ofLine?, same, parsed'.filterMap_ofLine?]
  · rw [programText, statements_eq_iff.2 same, programText]

def asking (current subgoal : Term) : Request where
  programs := default
  current := ⟨[.ofTerm current], List.pairwise_singleton ..⟩
  subgoal := ⟨[.ofTerm subgoal], List.pairwise_singleton ..⟩
  horizon := 3
  action := some (.ofTerm (.function "move" [.symbol "a", .symbol "b"]))
  shown := [⟨"state", 1⟩, ⟨"#f", 0⟩]
  mode := .optimize

theorem asking_parsed {current subgoal : Term} (named : current.WellNamed)
    (named' : subgoal.WellNamed) : (asking current subgoal).Parsed where
  current fact present := by
    obtain rfl := List.mem_singleton.1 present
    exact ⟨_, Fact.parse_render named⟩
  subgoal fact present := by
    obtain rfl := List.mem_singleton.1 present
    exact ⟨_, Fact.parse_render named'⟩
  action action present := by
    obtain rfl := Option.some.inj present
    refine ⟨_, Action.parse_render ?_⟩
    simp only [Term.WellNamed, Term.AllWellNamed]
    decide
  shown := by
    change ∀ signature ∈ [(⟨"state", 1⟩ : Signature), ⟨"#f", 0⟩], _
    decide

theorem programText_eq_iff_ending : ∃ left right : Term,
    left = .unary "p" (.text "\").\nsubgoal(q).\nshown(\"") ∧ right = .unary "p" (.text "") ∧
      (asking left right).Parsed ∧ (asking right left).Parsed ∧
      (asking left right).programText ≠ (asking right left).programText ∧
      ((asking left right).programText.toList.splitOn '\n').filterMap Statement.ofLine? =
        [.current (.ofTerm left), .subgoal (.ofTerm right),
          .action ⟨"move(a,b)"⟩, .plan, .shown ⟨"state", 1⟩, .shown ⟨"#f", 0⟩] := by
  refine ⟨_, _, rfl, rfl, ?_⟩
  generalize made : Term.unary "p" (.text "\").\nsubgoal(q).\nshown(\"") = left
  generalize made' : Term.unary "p" (.text "") = right
  have named : left.WellNamed := by
    rw [← made]
    simp only [Term.unary, Term.WellNamed, Term.AllWellNamed]
    decide
  have named' : right.WellNamed := by
    rw [← made']
    simp only [Term.unary, Term.WellNamed, Term.AllWellNamed]
    decide
  have parsed := asking_parsed named named'
  have parsed' := asking_parsed named' named
  obtain ⟨same, read⟩ := programText_eq_iff parsed parsed'
  refine ⟨parsed, parsed', fun alike => ?_, read.trans rfl⟩
  have facts : Fact.ofTerm left = Fact.ofTerm right :=
    (List.cons.inj (congrArg SortedSet.toList (same.1 alike).current)).1
  have terms := Term.render_injective named named' (congrArg Fact.text facts)
  rw [← made, ← made'] at terms
  simp [Term.unary] at terms

end Request

end DeclarativeMdp
