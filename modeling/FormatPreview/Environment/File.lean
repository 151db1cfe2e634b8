import FormatPreview.Environment.Assignment
import FormatPreview.Text.Utf8

/-!
Files of assignments. A line goes on over a line end inside quotes, and up to a comment, which begins
with a number sign after a blank. The first assignment to a name counts, and one from the surrounding
variables comes before all of them. The file is read up to its first malformed line.
-/
namespace FormatPreview.Environment

/-- Where in a line its end or a comment is looked for. -/
inductive Scan where
  | plain
  | afterBlank
  | escaped
  | single
  | singleEscaped
  | double
  | doubleEscaped
deriving DecidableEq

def Scan.opened (c : Char) : Scan :=
  match c with
  | '\\' => .escaped
  | '"' => .double
  | '\'' => .single
  | _ => .plain

/-- The scan after one more character, unless a comment begins with it. -/
def Scan.next? (s : Scan) (c : Char) : Option Scan :=
  match s with
  | .plain =>
    if Text.isBlank c ∧ c ≠ '\n' ∧ c ≠ '\r' then some .afterBlank else some (Scan.opened c)
  | .afterBlank => if c = '#' then none else some (Scan.opened c)
  | .escaped => some .plain
  | .single => some (if c = '\\' then .singleEscaped else if c = '\'' then .plain else .single)
  | .singleEscaped => some .single
  | .double => some (if c = '\\' then .doubleEscaped else if c = '"' then .plain else .double)
  | .doubleEscaped => some .double

/-- One line up to its comment, and the scan at its end. After a comment there is none. -/
def scanLine (s : Scan) : List Char → List Char × Option Scan
  | [] => ([], some s)
  | c :: rest =>
    match s.next? c with
    | none => ([], none)
    | some next =>
      let (found, ending) := scanLine next rest
      (c :: found, ending)

def feedLines : List Char → List (List Char)
  | [] => []
  | c :: rest =>
    if c = '\n' then [c] :: feedLines rest
    else match feedLines rest with
      | [] => [[c]]
      | line :: more => (c :: line) :: more

/-- The lines joined over open quotes. `none` stands for an end in the middle of a line. -/
def joinLines (s : Scan) (begun : List Char) : List (List Char) → List (Option (List Char))
  | [] => if s = .plain then [] else [none]
  | line :: rest =>
    if (skipBlank (begun ++ line)).head? = some '#' then some [] :: joinLines .plain [] rest
    else match scanLine s line with
      | (found, none) => some (begun ++ found) :: joinLines .plain [] rest
      | (found, some .plain) => some (begun ++ found) :: joinLines .plain [] rest
      | (found, some open_) => joinLines open_ (begun ++ found) rest

/-- The variables with one more, unless it is set. -/
def define (environment : Environment) (name value : String) : Environment :=
  if (environment.get? name).isSome then environment else environment.insert name value

def defineAll (environment : Environment) : List (Option (List Char)) → Environment
  | [] => environment
  | none :: _ => environment
  | some line :: rest =>
    match readLine environment line with
    | .nothing => defineAll environment rest
    | .assignment name value => defineAll (environment.define name value) rest
    | .malformed => environment

/-- The text of a file up to the line in which a byte belongs to no character. -/
def validText (bytes : List UInt8) : List Char :=
  let symbols := Text.symbols bytes
  let valid := (symbols.takeWhile (·.isSome)).filterMap id
  if symbols.all (·.isSome) then valid
  else (valid.reverse.dropWhile (· ≠ '\n')).reverse

/-- The text without a byte order mark at its start. -/
def withoutMark : List Char → List Char
  | '\ufeff' :: rest => rest
  | cs => cs

def load (environment : Environment) (bytes : List UInt8) : Environment :=
  defineAll environment (joinLines .plain [] (feedLines (withoutMark (validText bytes))))

end FormatPreview.Environment
