import FormatPreview.Check
import FormatPreview.Event
import FormatPreview.Path
import FormatPreview.Pattern.Brace
import FormatPreview.Text.Line

/-!
Targets of a run: paths of files, and patterns that stand for the files they match. A path that
comes up more than once counts where it comes up first, with the spelling it has there. A file named
as such must be readable; one that a pattern brought in is left out with a warning when it is not.

Paths are texts. A name in UTF-8 is printed as it is; names that are not in UTF-8, which are printed
with replacement characters, do not come up.
-/
namespace FormatPreview

/-- Where targets are looked up. -/
structure FileSource where
  read : (path : String) → Except Failure String
  expand : (pattern : String) → Except Failure (List String)

inductive LoadError where
  | noTargets
  | badPattern (target : String) (failure : Failure)
  | noMatches (targets : List String)
  | unreadable (path : String) (failure : Failure)
deriving DecidableEq

def LoadError.message : LoadError → String
  | .noTargets => "No file paths provided"
  | .badPattern target failure => "invalid pattern " ++ target ++ ": " ++ failure.summary
  | .noMatches targets => "no files matched: " ++ Text.joinWith ", " targets
  | .unreadable path failure => "error reading file " ++ path ++ ": " ++ failure.summary

/-- A path to load. -/
structure Found where
  path : String
  fromPattern : Bool
deriving DecidableEq

/-- The paths with one more, unless it is among them. -/
def addFound (found : List Found) (path : String) (fromPattern : Bool) : List Found :=
  if found.any (fun f => Path.same f.path path) then found else found ++ [⟨path, fromPattern⟩]

/-- What targets stand for: the paths to load, and the patterns that match nothing. -/
structure Resolution where
  found : List Found
  unmatched : List String

def Resolution.add (source : FileSource) (r : Resolution) (target : String) :
    Except LoadError Resolution :=
  if Pattern.isPattern target then
    match source.expand target with
    | .error failure => .error (.badPattern target failure)
    | .ok paths =>
      .ok ⟨paths.foldl (addFound · · true) r.found,
        if paths.isEmpty then r.unmatched ++ [target] else r.unmatched⟩
  else .ok ⟨addFound r.found target false, r.unmatched⟩

/-- The targets resolved in turn, up to a pattern that cannot be expanded. The resolution is the one
reached in either case. -/
def resolveFrom (source : FileSource) (r : Resolution) :
    List String → Resolution × Except LoadError Unit
  | [] => (r, .ok ())
  | target :: rest =>
    match r.add source target with
    | .ok r => resolveFrom source r rest
    | .error e => (r, .error e)

/-- The files read in turn, up to a named one that cannot be read, with an event for each left out. -/
def readFound (source : FileSource) : List Found → List Event × Except LoadError (List SourceFile)
  | [] => ([], .ok [])
  | f :: rest =>
    match source.read f.path with
    | .ok content =>
      let (events, files) := readFound source rest
      (events, files.map (⟨f.path, content⟩ :: ·))
    | .error failure =>
      if f.fromPattern then
        let (events, files) := readFound source rest
        (.readFailed f.path failure.summary :: events, files)
      else ([], .error (.unreadable f.path failure))

def load (source : FileSource) (targets : List String) :
    List Event × Except LoadError (List SourceFile) :=
  if targets.isEmpty then ([], .error .noTargets)
  else
    let (r, resolved) := resolveFrom source ⟨[], []⟩ targets
    let warnings := r.unmatched.map Event.noFilesMatched
    match resolved with
    | .error e => (warnings, .error e)
    | .ok () =>
      if r.found.isEmpty then (warnings, .error (.noMatches r.unmatched))
      else
        let (events, files) := readFound source r.found
        (warnings ++ events, files)

end FormatPreview
