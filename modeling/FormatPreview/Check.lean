import FormatPreview.Comparison
import FormatPreview.Decimal.Shortest
import FormatPreview.Engine

/-!
The check of one file: the project's configuration is resolved, the text is formatted with the given
options laid over it, and the result is compared with the text. A check may have a time limit; one
that reaches its end later than that has timed out, whatever the end would have been.
-/
namespace FormatPreview

structure SourceFile where
  path : String
  content : String
deriving DecidableEq

/-- A request to the engine to format a text. -/
structure Call where
  content : String
  options : Options

inductive FormatError where
  | engine (path : String) (failure : Failure)
  | timedOut (path : String) (limit : Nat)
  | panicked (path : String) (payload : Option String)
deriving DecidableEq

/-- Milliseconds as a number of seconds in single precision: the seconds and the rest are rounded,
divided and added as such. -/
def secondsText (milliseconds : Nat) : String :=
  let f := Decimal.Format.single
  let whole := f.ofNat (milliseconds / 1000)
  let rest := f.div (f.ofNat (milliseconds % 1000 * 1000000)) (f.ofNat 1000000000)
  (Decimal.shortest f (f.add whole rest)).positional

namespace FormatError

def path : FormatError → String
  | .engine path _ | .timedOut path _ | .panicked path _ => path

def reason : FormatError → String
  | .engine _ failure => failure.summary
  | .timedOut _ limit => "timed out after " ++ secondsText limit ++ "s"
  | .panicked _ payload => "engine panicked: " ++ panicMessage payload

def message (e : FormatError) : String := "failed to format " ++ e.path ++ ": " ++ e.reason

end FormatError

/-- A piece of work together with the calls that it makes, each with the time of the call. -/
structure Run (α : Type) where
  calls : List (Nat × Call)
  work : Step α

/-- The options for a file: the given ones over those of its project, under its own path. -/
def mergedOptions (options : Options) (project : Option Options) (path : String) : Options :=
  { options.overlay (project.getD .unset) with filepath := some path }

def formatFile (engine : Engine) (options : Options) (file : SourceFile) : Run String :=
  let resolved := engine.configuration file.path
  match resolved.ending with
  | .failed failure => ⟨[], ⟨resolved.delay, .failed failure⟩⟩
  | .panicked payload => ⟨[], ⟨resolved.delay, .panicked payload⟩⟩
  | .done project =>
    let merged := mergedOptions options project file.path
    let formatted := engine.format file.content merged
    ⟨[(resolved.delay, ⟨file.content, merged⟩)],
      ⟨resolved.delay + formatted.delay, formatted.ending⟩⟩

/-- What came of a check, and the calls that were made for it. -/
structure Checked where
  result : Except FormatError Comparison
  calls : List Call

def endingResult (file : SourceFile) : Ending String → Except FormatError Comparison
  | .done formatted => .ok ⟨file.path, file.content, formatted⟩
  | .failed failure => .error (.engine file.path failure)
  | .panicked payload => .error (.panicked file.path payload)

/-- The check of a file, with a limit in milliseconds if there is one. A call is made unless the
limit has passed before it. -/
def checkFile (engine : Engine) (options : Options) (limit : Option Nat) (file : SourceFile) :
    Checked :=
  let run := formatFile engine options file
  match limit with
  | none => ⟨endingResult file run.work.ending, run.calls.map (·.2)⟩
  | some limit =>
    let calls := (run.calls.filter (·.1 ≤ limit)).map (·.2)
    if run.work.delay ≤ limit then ⟨endingResult file run.work.ending, calls⟩
    else ⟨.error (.timedOut file.path limit), calls⟩

end FormatPreview
