import DeclarativeMdp.Duration
import DeclarativeMdp.Error
import DeclarativeMdp.Json.Decode
import DeclarativeMdp.Json.Writer
import DeclarativeMdp.Request

set_option autoImplicit false

namespace DeclarativeMdp

open Json

namespace Duration

def toJson (d : Duration) : String :=
  writeObject [("secs", toString d.secs), ("nanos", toString d.nanos)]

def ofJson? (value : Json) : Option Duration := do
  match ← value.fields? ["secs", "nanos"] true false with
  | [some secs, some nanos] => ofParts? (← secs.below? UInt64.size) (← nanos.below? UInt32.size)
  | _ => none

end Duration

namespace Clingo

structure Settings where
  executable : Path
  timeLimit : Option Duration
  threads : UInt32
  deriving DecidableEq, Repr

namespace Settings

def standard : Settings := ⟨.ofText "clingo", none, 1⟩

def withTimeLimit (settings : Settings) (seconds : Float) : Except Error Settings :=
  match Duration.ofSeconds? seconds with
  | some limit => .ok { settings with timeLimit := some limit }
  | none => .error (.invalidTimeLimit seconds)

def withThreads (settings : Settings) (threads : UInt32) : Settings :=
  { settings with threads := max threads 1 }

def modeArguments : Mode → List String
  | .enumerate limit => ["--models=" ++ toString limit, "--opt-mode=ignore"]
  | .optimize => ["--models=0", "--opt-mode=opt"]

/-- Clingo counts in whole seconds and takes zero for no limit at all. The number has to be one of
64 bits: the last second of their range has no successor. -/
def limitArguments : Option Duration → Except Error (List String)
  | none => .ok []
  | some limit =>
    if limit.wholeSeconds < UInt64.size then
      .ok ["--time-limit=" ++ toString (max limit.wholeSeconds 1)]
    else .error .undefinedAnswer

def arguments (settings : Settings) (request : Request) : Except Error (List String) := do
  let limit ← limitArguments settings.timeLimit
  return ["-", "--outf=2", "-c", "t=" ++ toString request.horizon] ++
    modeArguments request.mode ++ limit ++
    if 1 < settings.threads then ["--parallel-mode=" ++ toString settings.threads] else []

def toJson (settings : Settings) : String :=
  writeObject [
    ("executable", writeString settings.executable.render),
    ("time_limit", writeOption Duration.toJson settings.timeLimit),
    ("threads", toString settings.threads)]

def ofJson? (value : Json) : Option Settings := do
  match ← value.record? ["executable", "time_limit", "threads"] with
  | [executable, limit, threads] =>
    some ⟨.ofText (← executable.string?), ← option? Duration.ofJson? limit, ← threads.uint32?⟩
  | _ => none

end Settings

end Clingo

end DeclarativeMdp
