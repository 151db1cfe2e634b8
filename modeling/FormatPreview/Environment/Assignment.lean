import FormatPreview.Dictionary
import FormatPreview.Text.Blank

/-!
Assignments: a name, an equals sign and a value, which may stand in quotes. Between single quotes
every character stands for itself. Elsewhere a backslash escapes, and a dollar sign is replaced,
with the name after it, by the value of that variable. A value out of quotes ends at a blank, after
which only a comment may follow.
-/
namespace FormatPreview

abbrev Environment := Dictionary String

namespace Environment

inductive Mode where
  | bare
  | single
  | double
  | escaped (inDouble : Bool)
  /-- A name after a dollar sign. -/
  | name (inDouble : Bool) (read : List Char)
  /-- A name in braces after a dollar sign. -/
  | braced (inDouble : Bool) (read : List Char)
  | ended
  | comment

def Mode.outer (inDouble : Bool) : Mode := if inDouble then .double else .bare

/-- The value that takes the place of a name. An unset variable leaves nothing. -/
def replacement (environment : Environment) (name : List Char) : List Char :=
  ((environment.get? (String.ofList name)).getD "").toList

/-- Whether a character belongs to a name after a dollar sign: letters and digits, and whatever is
not ASCII. -/
def isNameChar (c : Char) : Bool := c.isAlphanum || c.toNat ≥ 0x80

def escapedChar? (c : Char) : Option Char :=
  if c = 'n' then some '\n'
  else if ['\\', '\'', '"', '$', ' '].contains c then some c
  else none

/-- A character of a value is read: the mode after it and what it adds to the value. The character
that ends a name is taken as it stands. -/
def Mode.next? (environment : Environment) (m : Mode) (c : Char) : Option (Mode × List Char) :=
  match m with
  | .bare =>
    match c with
    | '$' => some (.name false [], [])
    | '\'' => some (.single, [])
    | '"' => some (.double, [])
    | '\\' => some (.escaped false, [])
    | ' ' | '\t' => some (.ended, [])
    | c => some (.bare, [c])
  | .single => if c = '\'' then some (.bare, []) else some (.single, [c])
  | .double =>
    match c with
    | '$' => some (.name true [], [])
    | '"' => some (.bare, [])
    | '\\' => some (.escaped true, [])
    | c => some (.double, [c])
  | .escaped inDouble => (escapedChar? c).map fun c => (.outer inDouble, [c])
  | .name inDouble read =>
    if isNameChar c then some (.name inDouble (read ++ [c]), [])
    else if c = '\x7b' ∧ read = [] then some (.braced inDouble [], [])
    else if c = '$' then some (.name inDouble [], replacement environment read)
    else some (.outer inDouble, replacement environment read ++ [c])
  | .braced inDouble read =>
    if c = '\x7d' then some (.outer inDouble, replacement environment read)
    else some (.braced inDouble (read ++ [c]), [])
  | .ended =>
    if c = ' ' ∨ c = '\t' then some (.ended, [])
    else if c = '#' then some (.comment, [])
    else none
  | .comment => some (.comment, [])

/-- What the end of the line adds to a value. A value that is open then is none. -/
def Mode.finish? (environment : Environment) : Mode → Option (List Char)
  | .bare | .escaped false | .ended | .comment => some []
  | .name false read => some (replacement environment read)
  | _ => none

def readValue? (environment : Environment) (m : Mode) : List Char → Option (List Char)
  | [] => m.finish? environment
  | c :: rest =>
    match m.next? environment c with
    | none => none
    | some (m, added) => (readValue? environment m rest).map (added ++ ·)

def readName? : List Char → Option (List Char × List Char)
  | [] => none
  | c :: rest =>
    if c.isAlpha || c = '_' then
      let inside (c : Char) := c.isAlphanum || c = '_' || c = '.'
      some (c :: rest.takeWhile inside, rest.dropWhile inside)
    else none

def skipBlank (cs : List Char) : List Char := cs.dropWhile Text.isBlank

def afterEquals? (cs : List Char) : Option (List Char) :=
  match skipBlank cs with
  | '=' :: rest => some (skipBlank rest)
  | _ => none

/-- The name that a line assigns to, and the text of its value. The word before a name that exports
it is passed over. -/
def readTarget? (line : List Char) : Option (List Char × List Char) := do
  let (name, rest) ← readName? line
  match afterEquals? rest with
  | some value => return (name, value)
  | none =>
    if name = "export".toList then
      let (name, rest) ← readName? (skipBlank rest)
      return (name, ← afterEquals? rest)
    else none

/-- A line is empty, or a comment, or an assignment, or neither of them. -/
inductive Line where
  | nothing
  | assignment (name value : String)
  | malformed
deriving DecidableEq

def readLine (environment : Environment) (line : List Char) : Line :=
  match Text.trimChars line with
  | [] | '#' :: _ => .nothing
  | line =>
    match readTarget? line with
    | none => .malformed
    | some (name, []) | some (name, '#' :: _) => .assignment (String.ofList name) ""
    | some (name, value) =>
      match readValue? environment .bare value with
      | some value => .assignment (String.ofList name) (String.ofList value)
      | none => .malformed

end Environment

end FormatPreview
