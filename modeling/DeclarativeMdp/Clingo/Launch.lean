import DeclarativeMdp.Path

set_option autoImplicit false

namespace DeclarativeMdp.Clingo

structure Invocation where
  executable : Path
  programs : List Path
  arguments : List String
  input : String
  deriving DecidableEq, Repr

inductive Ending where
  | exited (code : Int)
  | signalled
  deriving DecidableEq, Repr

structure Reply where
  readsInput : Bool
  output : List UInt8
  complaint : List UInt8
  ending : Ending
  deriving DecidableEq, Repr

inductive Launch where
  | refused (reason : String)
  | ran (reply : Reply)
  deriving DecidableEq, Repr

class Launcher (ρ : Type) where
  launch : Invocation → ρ → Launch × ρ

class Program (ρ : Type) where
  reply : Invocation → ρ → Reply × ρ

structure Prepared where
  replies : List Reply
  deriving Repr

def Reply.silent : Reply := ⟨true, [], [], .exited 0⟩

instance : Program Prepared where
  reply _ prepared := (prepared.replies.headD .silent, ⟨prepared.replies.drop 1⟩)

structure Machine (ρ : Type) where
  program : ρ
  runs : List Invocation

namespace Machine

def start {ρ : Type} (program : ρ) : Machine ρ := ⟨program, []⟩

def isDirectory (path : Path) : Bool :=
  path.landmark = some .programs ||
    (!path.text.isEmpty && path.components.all (· ∈ ["", ".", ".."]))

-- Nothing is looked for behind the first name on the way, as no directory has that name. So it is
-- the only one whose length counts.
def isTooLong (path : Path) : Bool :=
  Path.maxBytes < path.render.utf8ByteSize ||
    (path.components.find? (· ∉ ["", ".", ".."])).any (Path.maxNameBytes < ·.utf8ByteSize)

def refusal (path : Path) : String :=
  if path.text.contains (Char.ofNat 0) then "nul byte found in provided data"
  else if isTooLong path then "File name too long (os error 36)"
  else if isDirectory path then "Permission denied (os error 13)"
  else "No such file or directory (os error 2)"

instance {ρ : Type} [Program ρ] : Launcher (Machine ρ) where
  launch invocation machine :=
    if invocation.executable = .ofLandmark .clingo then
      let (reply, program) := Program.reply invocation machine.program
      let seen := if reply.readsInput then invocation else { invocation with input := "" }
      (.ran reply, ⟨program, machine.runs ++ [seen]⟩)
    else (.refused (refusal invocation.executable), machine)

end Machine

end DeclarativeMdp.Clingo
