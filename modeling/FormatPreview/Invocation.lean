import FormatPreview.Arguments.Reader
import FormatPreview.Bridge.Process
import FormatPreview.Environment.File
import FormatPreview.Log
import FormatPreview.Run
import FormatPreview.Settings
import FormatPreview.Tree.Source

/-!
An invocation of the program: what it is started with, and what it leaves behind. A command line
without words asks for the short help. The arguments are read before the settings, and the settings
before any file. The log's own variables are looked up before the file of assignments is read, all
others after it.
-/
namespace FormatPreview

structure Invocation where
  /-- The words of the command line after the program's name. -/
  words : List (List UInt8)
  environment : Environment
  tree : Tree
  /-- The working directory. -/
  place : Place
  /-- The programs that can be started, by name. -/
  programs : (node : String) → Bridge.Program

/-- What is left behind: two texts and an exit code. -/
structure Ended where
  output : String
  errors : String
  exitCode : Nat
deriving DecidableEq

/-- Whether names can be looked up in a directory and in all above it. -/
def Tree.reached (t : Tree) : Place → Bool
  | [] => t.entered []
  | name :: above => t.entered (name :: above) && t.reached above

/-- The nearest file of assignments, in a directory or above it. -/
def Tree.assignments? (t : Tree) : Place → Option Place
  | [] => if t.isFile [".env"] then some [".env"] else none
  | name :: above =>
    let place := ".env" :: name :: above
    if t.isFile place then some place else t.assignments? above

namespace Invocation

/-- The content of the nearest file of assignments, if it can be read. -/
def assignments? (i : Invocation) : Option (List UInt8) :=
  if i.tree.reached i.place then (i.tree.assignments? i.place).bind i.tree.content? else none

/-- The variables with those of the nearest file of assignments. -/
def allVariables (i : Invocation) : Environment :=
  match i.assignments? with
  | some bytes => Environment.load i.environment bytes
  | none => i.environment

/-- Whether reports have styles. They go to no terminal, so styles have to be forced. -/
def stylesForced (environment : Environment) : Bool :=
  match environment.get? "CLICOLOR_FORCE" with
  | some value => value ≠ "0"
  | none => false

/-- Whether the log has styles. -/
def logStyled (environment : Environment) : Bool :=
  (environment.get? "NO_COLOR").getD "" = ""

def logFilter (environment : Environment) : Log.Filter :=
  .ofVariable (environment.get? "RUST_LOG")

def errorLine (message : String) : String := "Error: " ++ message ++ "\n"

def ended (i : Invocation) (environment : Environment) (settings : Settings)
    (arguments : Arguments) : Ended :=
  let engine := Bridge.engine settings.node settings.package (i.programs settings.node)
  let r := run (i.tree.source i.place) engine (settings.timeout.map (· * 1000)) arguments
    (stylesForced environment) (.empty none)
  let events := i.tree.withUnreadable i.place arguments.targets r.events
  let log := Log.text (logFilter i.environment) (logStyled i.environment) events
  let failure := match r.outcome with
    | .ok _ => ""
    | .error e => errorLine e.message
  ⟨r.sink.text, log ++ failure, r.exitCode⟩

def start (i : Invocation) : Ended :=
  if i.words.isEmpty then ⟨Arguments.shortHelp, "", 0⟩
  else match Arguments.read i.words with
    | .error refusal =>
      if refusal.isAnswer then ⟨refusal.message, "", 0⟩ else ⟨"", refusal.message, 1⟩
    | .ok arguments =>
      let environment := i.allVariables
      match Settings.ofLookup environment.get? with
      | .error e => ⟨"", errorLine e.message, 1⟩
      | .ok settings => i.ended environment settings arguments

end Invocation

end FormatPreview
