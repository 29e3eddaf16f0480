import DeclarativeMdp.Clingo.Launch
import DeclarativeMdp.Clingo.Report
import DeclarativeMdp.Clingo.Settings
import DeclarativeMdp.Solver.Basic
import DeclarativeMdp.Text.Utf8

set_option autoImplicit false

namespace DeclarativeMdp

structure Clingo (ρ : Type) where
  settings : Clingo.Settings
  launcher : ρ

namespace Clingo

def invocation (settings : Settings) (request : Request) : Except Error Invocation := do
  return {
    executable := settings.executable
    programs := request.programs.paths
    arguments := ← settings.arguments request
    input := request.programText }

-- Exit codes from here on say that there was no search.
def failureCode : Int := 33

-- Did the search end before it was done? Its exit code is odd then.
def Interrupted (code : Int) (report : Report) : Prop :=
  code % 2 ≠ 0 ∨ report.result = "UNKNOWN"

instance (code : Int) (report : Report) : Decidable (Interrupted code report) :=
  inferInstanceAs (Decidable (_ ∨ _))

def interruption (settings : Settings) (report : Report) : Error :=
  match settings.timeLimit with
  | some budget => .timedOut budget
  | none => .solver (.interrupted report.result)

def conclude (settings : Settings) (code : Int) (report : Report) :
    Except Error (List Model) × List Event :=
  if Interrupted code report then
    (.error (interruption settings report), [.interrupted report.result code])
  else
    match report.models with
    | .error error => (.error error, [])
    | .ok models => (.ok models, [.finished report.result models.length])

def complaint (reply : Reply) : String := Text.trim (Text.ofBytesLossy reply.complaint)

def ofReply (settings : Settings) (reply : Reply) : Except Error (List Model) × List Event :=
  if reply.readsInput then
    match reply.ending with
    | .signalled => (.error (.solver .signalled), [])
    | .exited code =>
      if failureCode ≤ code then (.error (.solver (.exited code (complaint reply))), [])
      else
        match Report.ofBytes reply.output with
        | .error error => (.error error, [])
        | .ok report => conclude settings code report
  else (.error (.solver (.stoppedReading "Broken pipe (os error 32)" (complaint reply))), [])

def ofLaunch (settings : Settings) : Launch → Except Error (List Model) × List Event
  | .refused reason => (.error (.solver (.notStarted settings.executable reason)), [])
  | .ran reply => ofReply settings reply

instance {ρ : Type} [Launcher ρ] : Solver (Clingo ρ) where
  solve request solver :=
    let settings := solver.settings
    match invocation settings request with
    | .error error => ⟨.error error, [], solver⟩
    | .ok invocation =>
      let (launch, launcher) := Launcher.launch invocation solver.launcher
      let (result, events) := ofLaunch settings launch
      ⟨result, .spawning settings.executable request.horizon request.mode :: events, settings,
        launcher⟩

end Clingo

end DeclarativeMdp
