import FormatPreview.Bridge.Message
import FormatPreview.Engine
import FormatPreview.Text.Blank

/-!
The engine that asks a process. For each request the process is started anew, gets the request on its
input and answers on its output. How it ended and its error output matter only when it answers
nothing at all. Where the request cannot be written, as when the process ends before it has read its
input, its answer does not count.
-/
namespace FormatPreview.Bridge

/-- How a process ended: with an exit code, or by a signal. -/
inductive Status where
  | code (n : Nat)
  | signal (number : Nat) (dumped : Bool)
deriving DecidableEq

/-- The names of signals, from the first one on. -/
def signalNames : List String :=
  ["HUP", "INT", "QUIT", "ILL", "TRAP", "ABRT", "BUS", "FPE", "KILL", "USR1", "SEGV", "USR2", "PIPE",
    "ALRM", "TERM", "STKFLT", "CHLD", "CONT", "STOP", "TSTP", "TTIN", "TTOU", "URG", "XCPU", "XFSZ",
    "VTALRM", "PROF", "WINCH", "IO", "PWR", "SYS"]

/-- The name of a signal in brackets, if it has one. -/
def signalName (number : Nat) : String :=
  match ("" :: signalNames)[number]? with
  | none | some "" => ""
  | some name => " (SIG" ++ name ++ ")"

def Status.text : Status → String
  | .code n => "exit status: " ++ toString n
  | .signal number dumped =>
    "signal: " ++ toString number ++ signalName number ++ if dumped then " (core dumped)" else ""

/-- What a process left behind. -/
structure Output where
  stdout : List UInt8
  stderr : List UInt8
  status : Status

/-- What comes of a request to a process that is started. -/
inductive Exchange where
  /-- The request could not be written, or the process not be waited for. -/
  | broken (failure : Failure)
  | ended (output : Output)

/-- A program that can be given an input, unless it cannot be started. -/
abbrev Program := Option (List UInt8 → Exchange)

def Reply.result (r : Reply) : Except Failure Json :=
  if r.ok then .ok r.value
  else .error (.of (r.error.getD "prettier failed without a message"))

def Output.result (node : String) (output : Output) : Except Failure Json :=
  if output.stdout.isEmpty then
    .error (.of (node ++ " exited with " ++ output.status.text ++ ": " ++
      Text.trim (Text.decodeLossy output.stderr)))
  else match Reply.ofBytes? output.stdout with
    | some reply => reply.result
    | none => .error (.of "unexpected output from prettier bridge")

def Exchange.result (node : String) : Exchange → Except Failure Json
  | .broken failure => .error failure
  | .ended output => output.result node

def ask (node package : String) (program : Program) (request : Request) : Except Failure Json :=
  match program with
  | none => .error (.of ("failed to start " ++ node))
  | some respond => (respond (request.bytes package)).result node

/-- A configuration from the value of a reply. `null` is none. -/
def readConfig (path : String) : Json → Except Failure (Option Options)
  | .null => .ok none
  | value =>
    match Options.ofJson value with
    | .ok options => .ok (some options)
    | .error e =>
      .error ((Failure.of e.message).within ("invalid prettier configuration for " ++ path))

def readText : Json → Except Failure String
  | .text formatted => .ok formatted
  | other => .error (.of ("prettier returned " ++ other.print ++ " instead of text"))

def resolveConfig (node package : String) (program : Program) (path : String) :
    Except Failure (Option Options) :=
  (ask node package program (.resolveConfig path)).bind (readConfig path)

def format (node package : String) (program : Program) (content : String) (options : Options) :
    Except Failure String :=
  (ask node package program (.format content options)).bind readText

def immediately {α : Type} : Except Failure α → Step α
  | .ok value => ⟨0, .done value⟩
  | .error failure => ⟨0, .failed failure⟩

def engine (node package : String) (program : Program) : Engine where
  configuration path := immediately (resolveConfig node package program path)
  format content options := immediately (format node package program content options)

end FormatPreview.Bridge
