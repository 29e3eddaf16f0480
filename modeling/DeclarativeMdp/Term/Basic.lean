set_option autoImplicit false

namespace DeclarativeMdp

/-- A ground term: what facts, actions and the atoms of a model are made of. A function without a
name is a tuple. -/
inductive Term where
  | number (value : Int64)
  | symbol (name : String)
  | text (value : String)
  | function (name : String) (args : List Term)
  deriving Inhabited, Repr

structure Signature where
  name : String
  arity : Nat
  deriving DecidableEq, Repr, Inhabited

def Signature.render (signature : Signature) : String :=
  signature.name ++ "/" ++ toString signature.arity

namespace Term

mutual

def same : Term → Term → Bool
  | .number m, .number n => m = n
  | .symbol a, .symbol b => a = b
  | .text a, .text b => a = b
  | .function f xs, .function g ys => f = g && sameAll xs ys
  | _, _ => false

def sameAll : List Term → List Term → Bool
  | [], [] => true
  | x :: xs, y :: ys => same x y && sameAll xs ys
  | _, _ => false

end

mutual

theorem eq_of_same : ∀ {s t : Term}, same s t = true → s = t
  | .number _, t, h => by cases t <;> simp_all [same]
  | .symbol _, t, h => by cases t <;> simp_all [same]
  | .text _, t, h => by cases t <;> simp_all [same]
  | .function f xs, t, h => by
    cases t with
    | function g ys =>
      simp only [same, Bool.and_eq_true, decide_eq_true_eq] at h
      rw [h.1, eq_of_sameAll h.2]
    | _ => simp [same] at h

theorem eq_of_sameAll : ∀ {xs ys : List Term}, sameAll xs ys = true → xs = ys
  | [], ys, h => by cases ys <;> simp_all [sameAll]
  | x :: xs, ys, h => by
    cases ys with
    | nil => simp [sameAll] at h
    | cons y ys =>
      simp only [sameAll, Bool.and_eq_true] at h
      rw [eq_of_same h.1, eq_of_sameAll h.2]

end

mutual

theorem same_self : ∀ t : Term, same t t = true
  | .number _ => by simp [same]
  | .symbol _ => by simp [same]
  | .text _ => by simp [same]
  | .function f xs => by simp [same, sameAll_self xs]

theorem sameAll_self : ∀ xs : List Term, sameAll xs xs = true
  | [] => rfl
  | x :: xs => by simp [sameAll, same_self x, sameAll_self xs]

end

instance : DecidableEq Term := fun s t =>
  if h : same s t = true then isTrue (eq_of_same h)
  else isFalse fun e => h (e ▸ same_self s)

def name? : Term → Option String
  | .symbol name => some name
  | .function name _ => if name.isEmpty then none else some name
  | _ => none

def args : Term → List Term
  | .function _ args => args
  | _ => []

def number? : Term → Option Int64
  | .number value => some value
  | _ => none

def signature? (term : Term) : Option Signature :=
  term.name?.map (⟨·, term.args.length⟩)

def Matches (term : Term) (signature : Signature) : Prop :=
  term.name? = some signature.name ∧ term.args.length = signature.arity

instance (term : Term) (signature : Signature) : Decidable (term.Matches signature) :=
  inferInstanceAs (Decidable (_ ∧ _))

def unary (name : String) (arg : Term) : Term := .function name [arg]

mutual

def compare : Term → Term → Ordering
  | .number m, .number n => Ord.compare m n
  | .number _, _ => .lt
  | .symbol _, .number _ => .gt
  | .symbol a, .symbol b => Ord.compare a b
  | .symbol _, _ => .lt
  | .text _, .number _ => .gt
  | .text _, .symbol _ => .gt
  | .text a, .text b => Ord.compare a b
  | .text _, .function .. => .lt
  | .function f xs, .function g ys => (Ord.compare f g).then (compareAll xs ys)
  | .function .., _ => .gt

def compareAll : List Term → List Term → Ordering
  | [], [] => .eq
  | [], _ :: _ => .lt
  | _ :: _, [] => .gt
  | x :: xs, y :: ys => (compare x y).then (compareAll xs ys)

end

def dropRepeats : List Term → List Term
  | [] => []
  | [t] => [t]
  | s :: t :: ts => if s = t then dropRepeats (t :: ts) else s :: dropRepeats (t :: ts)

def sortUnique (terms : List Term) : List Term :=
  dropRepeats (terms.mergeSort fun s t => (s.compare t).isLE)

end Term

end DeclarativeMdp
