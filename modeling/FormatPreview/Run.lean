import FormatPreview.Arguments.Basic
import FormatPreview.Batch
import FormatPreview.Report
import FormatPreview.Targets

/-!
A run: the targets are loaded, the files are checked as a batch and the report is written. Nothing
is checked or written when the targets cannot be loaded.
-/
namespace FormatPreview

inductive RunError where
  | load (error : LoadError)
  | output (error : SinkError)
deriving DecidableEq

def RunError.message : RunError → String
  | .load error => error.message
  | .output error => "failed to write report: " ++ error.message

/-- What a run has done once it is over. -/
structure RunResult where
  outcome : Except RunError Outcome
  sink : Sink
  events : List Event
  calls : List Call

/-- The exit code of a run. An error counts like a file that needs formatting. -/
def RunResult.exitCode (r : RunResult) : Nat :=
  match r.outcome with
  | .ok outcome => outcome.exitCode
  | .error _ => 1

def Arguments.options (a : Arguments) : Options := { Options.comparing with parser := a.parser }

/-- The form of the report of a run, given whether styles are on. -/
def Arguments.form (a : Arguments) (on : Bool) : Form :=
  if a.noColor then .plain else .colored on

/-- A run with a time limit in milliseconds, if there is one. -/
def run (source : FileSource) (engine : Engine) (limit : Option Nat) (arguments : Arguments)
    (on : Bool) (sink : Sink) : RunResult :=
  let (events, loaded) := load source arguments.targets
  match loaded with
  | .error e => ⟨.error (.load e), sink, events, []⟩
  | .ok files =>
    let batch := checkFiles engine arguments.options limit files
    let starts := batch.calls.map fun call =>
      Event.formatStart (call.options.filepath.getD "") call.options.parser
    let (sink, written) := writeReport sink (arguments.form on) batch.results
    { outcome := written.mapError .output
      sink := sink
      events := events ++ starts ++ batch.events ++ [.complete batch.results.length]
      calls := batch.calls }

end FormatPreview
