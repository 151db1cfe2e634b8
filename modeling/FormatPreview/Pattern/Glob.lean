import FormatPreview.Path
import FormatPreview.Pattern.Wildcard

/-!
Patterns without braces, as what a search compares with names: one segment for each component. A
run of components of two stars is one, since each stands for any directories.
-/
namespace FormatPreview.Pattern

inductive Segment where
  | literal (name : String)
  | wild (wildcards : List Wildcard)
  | anyDirectories
deriving DecidableEq

namespace Segment

/-- The name that wildcards spell, if they are literal throughout. -/
def name? : List Wildcard → Option (List Char)
  | [] => some []
  | .literal c :: ws => (name? ws).map (c :: ·)
  | _ :: _ => none

def ofWildcards (ws : List Wildcard) : Segment :=
  match name? ws with
  | some name => .literal (String.ofList name)
  | none => if ws = [.anyDirectories] then .anyDirectories else .wild ws

/-- Whether a segment matches the name of an entry. -/
def accepts (s : Segment) (name : String) : Bool :=
  match s with
  | .literal other => name = other
  | .wild ws => fits ws name.toList
  | .anyDirectories => false

/-- The names of the directory above and of the directory itself, where wildcards match them. Only
wildcards after a written dot do. -/
def dots (ws : List Wildcard) : List String :=
  if ws.head? = some (.literal '.') then ["..", "."].filter fun name => fits ws name.toList else []

/-- Segments with one in front of them, two runs of directories taken as one. -/
def push (s : Segment) (rest : List Segment) : List Segment :=
  if s = .anyDirectories ∧ rest.head? = some .anyDirectories then rest else s :: rest

end Segment

structure Glob where
  /-- Whether the pattern starts at the root. -/
  absolute : Bool
  segments : List Segment
  /-- Whether the pattern ends in a separator and so finds directories alone. -/
  directoriesOnly : Bool
deriving DecidableEq

/-- The components of a pattern after the root. A separator at the end begins no further one, except
that nothing at all is one component. -/
def components (text : List Char) : List (List Char) :=
  if text.getLast? = some '/' then (Path.segments text).dropLast else Path.segments text

/-- The pattern that a text writes. The text is looked at as a whole first and then component by
component, since a set may hold a separator. -/
def Glob.ofText (text : String) : Except SyntaxError Glob := do
  let cs := text.toList
  let _ ← wildcards cs
  let absolute := cs.head? = some '/'
  let parts ← (components (if absolute then cs.tail else cs)).mapM wildcards
  return {
    absolute := absolute
    segments := (parts.map Segment.ofWildcards).foldr Segment.push []
    directoriesOnly := cs.getLast? = some '/' }

end FormatPreview.Pattern
