import DeclarativeMdp.SortedSet
import DeclarativeMdp.Term.Printer
import DeclarativeMdp.Term.Reader

set_option autoImplicit false

namespace DeclarativeMdp

structure Fact where
  text : String
  deriving DecidableEq, Hashable, Inhabited, Repr

structure Action where
  text : String
  deriving DecidableEq, Hashable, Inhabited, Repr

namespace Fact

def ofText (text : String) : Fact := ⟨Text.normalize text⟩

def ofTerm (term : Term) : Fact := ⟨term.render⟩

def term (fact : Fact) : Except Term.Misreading Term := Term.parse fact.text

instance : Ord Fact := ⟨compareOn Fact.text⟩

instance : Std.TransOrd Fact := inferInstanceAs (Std.TransCmp (compareOn Fact.text))

instance : Std.LawfulEqOrd Fact where
  eq_of_compare {a b} h := by
    cases a; cases b
    exact congrArg Fact.mk (Std.LawfulEqOrd.eq_of_compare h)

end Fact

namespace Action

def ofText (text : String) : Action := ⟨Text.normalize text⟩

def ofTerm (term : Term) : Action := ⟨term.render⟩

def term (action : Action) : Except Term.Misreading Term := Term.parse action.text

instance : Ord Action := ⟨compareOn Action.text⟩

instance : Std.TransOrd Action := inferInstanceAs (Std.TransCmp (compareOn Action.text))

instance : Std.LawfulEqOrd Action where
  eq_of_compare {a b} h := by
    cases a; cases b
    exact congrArg Action.mk (Std.LawfulEqOrd.eq_of_compare h)

end Action

abbrev State := SortedSet Fact

abbrev AvailableActions := SortedSet Action

namespace State

def ofTexts (texts : List String) : State := .ofList (texts.map Fact.ofText)

def texts (state : State) : List String := state.toList.map Fact.text

def Satisfies (state goal : State) : Prop := ∀ fact ∈ goal.toList, fact ∈ state.toList

instance (state goal : State) : Decidable (Satisfies state goal) :=
  inferInstanceAs (Decidable (∀ fact ∈ goal.toList, fact ∈ state.toList))

def render (state : State) : String :=
  "\x7b" ++ ", ".intercalate (texts state) ++ "\x7d"

end State

def AvailableActions.texts (actions : AvailableActions) : List String :=
  actions.toList.map Action.text

end DeclarativeMdp
