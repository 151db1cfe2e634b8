import FormatPreview.Event
import FormatPreview.Text.Quoted

/-!
The log: one line for each event that a filter lets through. A filter is a list of directives, each
with a bound on the levels that show and perhaps a target that it is about. Of the directives about
this program the one with the longest target counts, and of two alike the later one.
-/
namespace FormatPreview.Log

/-- The levels that show, as a number from 0 for none to 5 for all of them. -/
abbrev Bound := Nat

def rank : Level → Bound
  | .error => 1
  | .warn => 2
  | .debug => 4

structure Directive where
  target : Option String
  bound : Bound
deriving DecidableEq

abbrev Filter := List Directive

def Filter.usual : Filter := [⟨none, 2⟩]

def boundNames : List (String × Bound) :=
  [("off", 0), ("error", 1), ("warn", 2), ("info", 3), ("debug", 4), ("trace", 5), ("", 1)]

/-- A bound by its name in letters of either case, or by its number. -/
def bound? (text : List Char) : Option Bound :=
  let digits := match text with
    | '+' :: digits => digits
    | digits => digits
  if digits ≠ [] ∧ digits.all (·.isDigit) then
    let n := digits.foldl (fun n c => n * 10 + (c.toNat - '0'.toNat)) 0
    if n ≤ 5 then some n else none
  else boundNames.lookup (String.ofList (text.map Char.toLower))

/-- A directive: a bound, a target, or a target with its bound. A target alone shows all levels. -/
def directive? (text : List Char) : Option Directive :=
  match text with
  | [] => none
  | c :: _ =>
    if c.isAlphanum ∨ ['-', ':', '_'].contains c ∨ c.toNat ≥ 0x80 then
      let target := text.takeWhile (· ≠ '=')
      match text.dropWhile (· ≠ '=') with
      | _ :: bound => (bound? bound).map fun bound => ⟨some (String.ofList target), bound⟩
      | [] =>
        match bound? text with
        | some bound => some ⟨none, bound⟩
        | none => some ⟨some (String.ofList text), 5⟩
    else none

def commaParts : List Char → List (List Char)
  | [] => [[]]
  | c :: rest =>
    if c = ',' then [] :: commaParts rest
    else match commaParts rest with
      | [] => [[c]]
      | part :: more => (c :: part) :: more

/-- The filter that a variable asks for. Without directives errors alone show, and a malformed one
makes the filter the usual one. -/
def Filter.ofVariable (value : Option String) : Filter :=
  match value with
  | none => .usual
  | some text =>
    match ((commaParts text.toList).filter (· ≠ [])).mapM directive? with
    | none => .usual
    | some [] => [⟨none, 1⟩]
    | some directives => directives

def ownTarget : String := "prettier_diffcheck"

/-- How long the target of a directive is. One about everything comes before any target. -/
def Directive.reach (d : Directive) : Nat :=
  match d.target with
  | none => 0
  | some t => t.length + 1

def Directive.applies (d : Directive) : Bool :=
  match d.target with
  | none => true
  | some t => t.toList.isPrefixOf ownTarget.toList

def Filter.bound (f : Filter) : Bound :=
  let chosen := (f.filter Directive.applies).foldl (fun best d =>
    match best with
    | none => some d
    | some b => if b.reach ≤ d.reach then some d else some b) none
  (chosen.map (·.bound)).getD 0

def Filter.shows (f : Filter) (e : Event) : Bool := rank e.level ≤ f.bound

def levelName : Level → String × String
  | .error => ("ERROR", "31")
  | .warn => (" WARN", "33")
  | .debug => ("DEBUG", "34")

def fields : Event → List (String × String)
  | .entryUnreadable pattern error => [("pattern", pattern), ("error", error)]
  | .noFilesMatched pattern => [("pattern", pattern)]
  | .readFailed path error => [("path", path), ("error", error)]
  | .formatFailed path error => [("path", path), ("error", error)]
  | .formatStart path parser =>
    [("path", path), ("parser", match parser with
      | none => "None"
      | some name => "Some(" ++ Text.quoted name ++ ")")]
  | .complete files => [("files", toString files)]

/-- A text after the code of a style and before the code that ends it. -/
def styled (on : Bool) (code text : String) : String :=
  if on then "\x1b[" ++ code ++ "m" ++ text ++ "\x1b[0m" else text

/-- The line of an event, with styles or without. -/
def line (on : Bool) (e : Event) : String :=
  let (level, color) := levelName e.level
  styled on color level ++ " " ++ e.name ++
    String.join ((fields e).map fun (name, value) =>
      " " ++ styled on "3" name ++ styled on "2" "=" ++ value) ++ "\n"

def text (f : Filter) (on : Bool) (events : List Event) : String :=
  String.join ((events.filter f.shows).map (line on))

end FormatPreview.Log
