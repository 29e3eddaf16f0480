set_option autoImplicit false

namespace DeclarativeMdp

-- A place that is known by a name of its own. No path that is given as a text leads there.
inductive Landmark where
  | programs
  | clingo
  deriving DecidableEq, Repr

def Landmark.name : Landmark → String
  | .programs => "<asp>"
  | .clingo => "<clingo>"

structure Path where
  landmark : Option Landmark
  text : String
  deriving DecidableEq, Repr, Inhabited

namespace Path

def ofText (text : String) : Path := ⟨none, text⟩

def ofLandmark (landmark : Landmark) : Path := ⟨some landmark, ""⟩

def render (path : Path) : String :=
  match path.landmark with
  | some landmark => landmark.name ++ path.text
  | none => path.text

def IsAbsolute (path : Path) : Prop := path.landmark.isSome ∨ path.text.startsWith "/"

instance (path : Path) : Decidable path.IsAbsolute := inferInstanceAs (Decidable (_ ∨ _))

def join (directory path : Path) : Path :=
  if path.IsAbsolute then path
  else if directory.render.isEmpty ∨ directory.text.endsWith "/" then
    ⟨directory.landmark, directory.text ++ path.text⟩
  else ⟨directory.landmark, directory.text ++ "/" ++ path.text⟩

def components (path : Path) : List String := path.text.splitOn "/"

def maxBytes : Nat := 4095

def maxNameBytes : Nat := 255

def Fits (path : Path) : Prop :=
  path.render.utf8ByteSize ≤ maxBytes ∧
    ∀ name ∈ path.components, name.utf8ByteSize ≤ maxNameBytes

instance (path : Path) : Decidable path.Fits := inferInstanceAs (Decidable (_ ∧ _))

def stem (file : List Char) : List Char :=
  let extension := file.reverse.takeWhile (· ≠ '.')
  let front := file.take (file.length - extension.length - 1)
  if file = ['.', '.'] then [] else if front.isEmpty then file else front

def fileStem (path : Path) : String :=
  String.ofList (stem (path.components.getLastD "").toList)

end Path

end DeclarativeMdp
