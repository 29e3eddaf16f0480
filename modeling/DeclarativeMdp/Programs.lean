import DeclarativeMdp.Error
import DeclarativeMdp.Json.Decode
import DeclarativeMdp.Json.Writer

set_option autoImplicit false

namespace DeclarativeMdp

structure FileTree where
  files : List (List String)
  directories : List (List String)
  home : List String
  deriving Repr

namespace FileTree

def empty : FileTree := ⟨[], [], []⟩

def isDirectory (tree : FileTree) (place : List String) : Bool :=
  place.isEmpty || tree.directories.any (place.isPrefixOf ·) ||
    tree.files.any fun file => place.isPrefixOf file && place.length < file.length

def walk (tree : FileTree) : List String → List String → Option (List String)
  | place, [] => some place
  | place, name :: names =>
    if tree.isDirectory place then
      if name = "" ∨ name = "." then tree.walk place names
      else if name = ".." then
        if place.isEmpty then none else tree.walk place.dropLast names
      else tree.walk (place ++ [name]) names
    else none

def hasFile (tree : FileTree) (names : List String) : Bool :=
  match tree.walk tree.home names with
  | some place => place ∈ tree.files
  | none => false

end FileTree

structure FileSystem where
  working : FileTree
  bundled : FileTree
  deriving Repr

def FileSystem.isFile (system : FileSystem) (path : Path) : Bool :=
  decide path.Fits &&
    match path.landmark with
    | some .programs => system.bundled.hasFile path.components
    | some .clingo => false
    | none => !path.text.startsWith "/" && system.working.hasFile path.components

structure ProgramSet where
  interface : Path
  domain : Path
  deriving DecidableEq, Repr, Inhabited

namespace ProgramSet

def interfaceFile : Path := .ofText "markov_decision_procedure.lp"

def paths (programs : ProgramSet) : List Path := [programs.interface, programs.domain]

def locate (system : FileSystem) (interface domain : Path) : Except Error ProgramSet :=
  match [interface, domain].find? (!system.isFile ·) with
  | some path => .error (.missingProgram path)
  | none => .ok ⟨interface, domain⟩

def inDirectory (system : FileSystem) (directory domainFile : Path) : Except Error ProgramSet :=
  locate system (directory.join interfaceFile) (directory.join domainFile)

def bundled (system : FileSystem) (domainFile : Path) : Except Error ProgramSet :=
  inDirectory system (.ofLandmark .programs) domainFile

def domainName (programs : ProgramSet) : String := programs.domain.fileStem

open Json

def toJson (programs : ProgramSet) : String :=
  writeObject [
    ("interface", writeString programs.interface.render),
    ("domain", writeString programs.domain.render)]

def ofJson? (value : Json) : Option ProgramSet := do
  match ← value.record? ["interface", "domain"] with
  | [interface, domain] => some ⟨.ofText (← interface.string?), .ofText (← domain.string?)⟩
  | _ => none

end ProgramSet

end DeclarativeMdp
