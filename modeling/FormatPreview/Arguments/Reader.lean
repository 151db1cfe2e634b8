import FormatPreview.Arguments.Basic
import FormatPreview.Arguments.Help
import FormatPreview.Text.Similarity
import FormatPreview.Text.Utf8

/-!
Reading a command line. Words that begin with a dash are flags; everything else, a lone dash, and all
that follows a double dash is a target. Values are taken up when the next flag comes or the line
ends, so an error in a flag is found before an error in the value in front of it, unless the flag is
a known one.
-/
namespace FormatPreview.Arguments

/-- What can be given, as usage lines name it. -/
inductive Given where
  | targets
  | noColor
  | parser
  | help
  | version
deriving DecidableEq

/-- The long flags, in the order in which similar ones are looked for. -/
def flags : List (String × Given) :=
  [("no-color", .noColor), ("parser", .parser), ("help", .help), ("version", .version)]

def Given.shown : Given → String
  | .targets => "<PATH_OR_GLOB>..."
  | .noColor => "--no-color"
  | .parser => "--parser <NAME>"
  | .help => "--help"
  | .version => "--version"

/-- A usage line. What has been given stands for the options, once each, and the targets come last. -/
def usage (given : List Given) : String :=
  let options := (given.filter (· ≠ .targets)).eraseDups.map Given.shown
  let parts :=
    if given = [] then ["[OPTIONS]", "[PATH_OR_GLOB]..."]
    else options ++ [if given.contains .targets then Given.targets.shown else "[PATH_OR_GLOB]..."]
  "Usage: prettier-diffcheck " ++ " ".intercalate parts

/-- Why a command line is not carried out. -/
inductive Refusal where
  | unknown (argument : String) (similar : Option String) (given : List Given)
  | missingValue
  | unneededValue (value : String) (flag : Given) (given : List Given)
  | repeated (flag : Given)
  | notText
  | help (long : Bool)
  | version

namespace Refusal

/-- Whether it is the answer to a question, and no error. -/
def isAnswer : Refusal → Bool
  | .help _ | .version => true
  | _ => false

def lines : Refusal → List String
  | .unknown argument similar given =>
    let tip := match similar with
      | some flag => "a similar argument exists: '--" ++ flag ++ "'"
      | none => "to pass '" ++ argument ++ "' as a value, use '-- " ++ argument ++ "'"
    ["error: unexpected argument '" ++ argument ++ "' found", "  tip: " ++ tip, usage given]
  | .missingValue => ["error: a value is required for '--parser <NAME>' but none was supplied"]
  | .unneededValue value flag given =>
    ["error: unexpected value '" ++ value ++ "' for '" ++ flag.shown ++
      "' found; no more were expected", usage given]
  | .repeated flag =>
    ["error: the argument '" ++ flag.shown ++ "' cannot be used multiple times", usage []]
  | .notText => ["error: invalid UTF-8 was detected in one or more arguments", usage []]
  | .help _ | .version => []

def message (r : Refusal) : String :=
  match r with
  | .help true => longHelp
  | .help false => shortHelp
  | .version => Arguments.version
  | r => "\n\n".intercalate (r.lines ++ ["For more information, try '--help'.\n"])

end Refusal

/-- Values that have been read and not yet taken up. -/
inductive Pending where
  | nothing
  | parser (value : Option (List UInt8))
  | targets (values : List (List UInt8))

/-- What has been read so far, with what has been given in the order of taking up. -/
structure State where
  arguments : Arguments
  given : List Given
  pending : Pending

namespace State

def start : State := ⟨⟨[], false, none⟩, [], .nothing⟩

def give (s : State) (g : Given) : State :=
  { s with given := if s.given.contains g then s.given else s.given ++ [g] }

def setParser (s : State) (value : List UInt8) : State × Except Refusal Unit :=
  if s.given.contains .parser then
    ({ s with given := s.given.filter (· ≠ .parser) }, .error (.repeated .parser))
  else match Text.decode? value with
    | some name =>
      ({ s.give .parser with arguments := { s.arguments with parser := some name } }, .ok ())
    | none => (s.give .parser, .error .notText)

def addTargets (s : State) : List (List UInt8) → State × Except Refusal Unit
  | [] => (s, .ok ())
  | value :: rest =>
    match Text.decode? value with
    | some target =>
      let a := s.arguments
      { s with arguments := { a with targets := a.targets ++ [target] } }.addTargets rest
    | none => (s, .error .notText)

def settle (s : State) : State × Except Refusal Unit :=
  let settled : State := { s with pending := .nothing }
  match s.pending with
  | .nothing => (s, .ok ())
  | .parser none => (settled, .error .missingValue)
  | .parser (some value) => settled.setParser value
  | .targets values => (settled.give .targets).addTargets values

def target (s : State) (value : List UInt8) : Except Refusal State :=
  match s.pending with
  | .targets values => .ok { s with pending := .targets (values ++ [value]) }
  | _ =>
    match s.settle with
    | (s, .ok ()) => .ok { s with pending := .targets [value] }
    | (_, .error e) => .error e

/-- A word is read that is no flag: the value that a flag waits for, or a target. -/
def value (s : State) (word : List UInt8) : Except Refusal State :=
  match s.pending with
  | .parser none => .ok { s with pending := .parser (some word) }
  | _ => s.target word

/-- A known flag without a value is read. -/
def flag (s : State) (g : Given) (long : Bool) : Except Refusal State :=
  match s.settle with
  | (_, .error e) => .error e
  | (s, .ok ()) =>
    match g with
    | .help => .error (.help long)
    | .version => .error .version
    | .parser => .ok { s with pending := .parser none }
    | .noColor | .targets =>
      if s.given.contains g then .error (.repeated g)
      else .ok { s.give g with arguments := { s.arguments with noColor := true } }

def attached (s : State) (g : Given) (value : List UInt8) : Except Refusal State :=
  if g = .parser then
    match s.settle with
    | (_, .error e) => .error e
    | (s, .ok ()) =>
      match s.setParser value with
      | (s, .ok ()) => .ok s
      | (_, .error e) => .error e
  else .error (.unneededValue (Text.decodeLossy value) g (s.given ++ [g]))

/-- A flag is read that is not known. The most similar known one counts as given in the usage line. -/
def unknownLong (s : State) (name : String) : Refusal :=
  let given := s.settle.1
  match Text.mostSimilar? name (flags.map (·.1)) with
  | some similar =>
    .unknown ("--" ++ name) (some similar) (given.give ((flags.lookup similar).getD .help)).given
  | none => .unknown ("--" ++ name) none given.given

/-- A word with two dashes is read, without them. -/
def long (s : State) (name : List UInt8) (value : Option (List UInt8)) : Except Refusal State :=
  match (Text.decode? name).bind fun text => flags.lookup text with
  | some g =>
    match value with
    | some value => s.attached g value
    | none => s.flag g true
  | none => .error (s.unknownLong (Text.decodeLossy name))

/-- A word with one dash is read, without it. Its first letter decides. -/
def short (s : State) (letters : List UInt8) : Except Refusal State :=
  match Text.symbols letters with
  | some 'h' :: _ => s.flag .help false
  | some 'V' :: _ => s.flag .version false
  | some c :: _ => .error (.unknown (String.ofList ['-', c]) none [])
  | _ => .error (.unknown ("-" ++ Text.decodeLossy letters) none [])

end State

def dash : UInt8 := 0x2D

def equals : UInt8 := 0x3D

def readWord (s : State) (word : List UInt8) : Except Refusal State :=
  match word with
  | a :: b :: rest =>
    if a = dash ∧ b = dash then
      let name := rest.takeWhile (· ≠ equals)
      let value := match rest.dropWhile (· ≠ equals) with
        | _ :: value => some value
        | [] => none
      s.long name value
    else if a = dash then s.short (b :: rest)
    else s.value word
  | word => s.value word

def readWords (s : State) : List (List UInt8) → Except Refusal State
  | [] => .ok s
  | word :: rest =>
    if word = [dash, dash] then rest.foldlM State.target s
    else do readWords (← readWord s word) rest

def read (words : List (List UInt8)) : Except Refusal Arguments := do
  let s ← readWords .start words
  match s.settle with
  | (s, .ok ()) => .ok s.arguments
  | (_, .error e) => .error e

end FormatPreview.Arguments
