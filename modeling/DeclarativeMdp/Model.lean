import DeclarativeMdp.Error

set_option autoImplicit false

namespace DeclarativeMdp

structure Model where
  atoms : List Term
  costs : List Int64
  deriving DecidableEq, Repr, Inhabited

namespace Model

def ofAtoms (atoms : List Term) : Model := ⟨atoms, []⟩

def parse (texts : List String) : Except Error Model := ofAtoms <$> texts.mapM readAtom

def atomsOf (model : Model) (signature : Signature) : List Term :=
  model.atoms.filter (·.Matches signature)

def argumentsOf (model : Model) (signature : Signature) : List Term :=
  (model.atomsOf signature).filterMap (·.args.head?)

def uniqueNumber (model : Model) (signature : Signature) : Except Error Int64 :=
  match model.atomsOf signature with
  | [] => .error (.malformedAtom signature.render .missing)
  | [atom] =>
    match atom.args.head?.bind Term.number? with
    | some value => .ok value
    | none => .error (.malformedAtom atom.render .notInteger)
  | _ :: extra :: _ => .error (.malformedAtom extra.render (.repeated signature))

def single (query : Query) : List Model → Except Error Model
  | [] => .error (.modelNotFound query)
  | [model] => .ok model
  | models => .error (.ambiguousModel query models.length)

def best (query : Query) (models : List Model) : Except Error Model :=
  match models.getLast? with
  | some model => .ok model
  | none => .error (.modelNotFound query)

end Model

end DeclarativeMdp
