import DeclarativeMdp.Error
import DeclarativeMdp.Proofs.Term.Characters
import Mathlib.Tactic.SplitIfs

set_option autoImplicit false

namespace DeclarativeMdp.Term

open Text

def IsName : List Char → Prop
  | [] => False
  | c :: cs => isNameStart c = true ∧ ∀ d ∈ cs, isNameChar d = true

instance : DecidablePred IsName
  | [] => isFalse id
  | c :: cs =>
    decidable_of_iff (isNameStart c = true ∧ cs.all isNameChar = true) (by simp [IsName])

mutual

def WellNamed : Term → Prop
  | .number _ | .text _ => True
  | .symbol name => IsName name.toList
  | .function name args => (name = "" ∨ IsName name.toList) ∧ AllWellNamed args

def AllWellNamed : List Term → Prop
  | [] => True
  | t :: ts => WellNamed t ∧ AllWellNamed ts

end

theorem allWellNamed_iff {terms : List Term} : AllWellNamed terms ↔ ∀ t ∈ terms, t.WellNamed := by
  induction terms with
  | nil => simp [AllWellNamed]
  | cons t ts ih => simp [AllWellNamed, ih]

theorem WellNamed.of_mem_args {t arg : Term} (named : t.WellNamed) (present : arg ∈ t.args) :
    arg.WellNamed := by
  cases t with
  | number | symbol | text => simp [args] at present
  | function name terms => exact allWellNamed_iff.1 named.2 arg present

end DeclarativeMdp.Term
