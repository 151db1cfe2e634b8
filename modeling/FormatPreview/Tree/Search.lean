import FormatPreview.Pattern.Glob
import FormatPreview.Tree.Basic

/-!
The entries of a tree that a pattern finds, each with the path that leads there. The path keeps the
components that the pattern writes and has the names that wildcards match; the dot where a search
starts is not part of it. A search looks literal components up and lists directories for the others.
A directory that it cannot list is told in place of what might be found there, and the search goes on.
-/
namespace FormatPreview.Tree

open Pattern (Glob Segment)

/-! Paths looked up. -/

/-- Where a component of a path leads. It is looked up in a directory that can be entered. Of no
characters, between two separators or after the last one, it only stands in a directory. -/
def follow? (t : Tree) (place : Place) (segment : List Char) : Option Place :=
  if segment = [] then if t.isDirectory place then some place else none
  else if !t.entered place then none
  else if segment = ['.'] then some place
  else if segment = ['.', '.'] then some place.tail
  else if (t.get? (String.ofList segment :: place)).isSome then
    some (String.ofList segment :: place)
  else none

def walk? (t : Tree) (place : Place) (segments : List (List Char)) : Option Place :=
  segments.foldlM t.follow? place

/-- Where a path leads, from the root or from a directory of the tree on. -/
def resolve? (t : Tree) (start : Place) (path : String) : Option Place :=
  if path = "" then none
  else t.walk? (if path.toList.head? = some '/' then [] else start) (Path.segments path.toList)

/-! Patterns searched for. -/

/-- A path that a search has come to. -/
structure Match where
  path : String
  /-- Where the path leads. What is listed in a directory that cannot be entered has a path that leads
  nowhere. -/
  place : Option Place
  directory : Bool
deriving DecidableEq

/-- A directory whose names cannot be listed. -/
structure Unreadable where
  path : String
deriving DecidableEq

def Unreadable.message (u : Unreadable) : String :=
  "attempting to read `" ++ u.path ++ "` resulted in an error: Permission denied (os error 13)"

abbrev Hit := Except Unreadable Match

def joined (path name : String) : String :=
  if path.isEmpty || path.toList.getLast? = some '/' then path ++ name else path ++ "/" ++ name

/-- A path with one more component, unless it is the dot where a search starts. -/
def extended (path name : String) : String :=
  if Path.same path "." then name else joined path name

def looked (t : Tree) (path : String) (place : Option Place) : Match :=
  ⟨path, place, place.any t.isDirectory⟩

/-- A path with a literal component more, if it leads somewhere. Dots are not looked up before they
are taken. -/
def step? (t : Tree) (m : Match) (name : String) : Option Match :=
  let next := t.looked (extended m.path name) (m.place.bind (t.follow? · name.toList))
  if name = "." ∨ name = ".." then if m.directory then some next else none
  else if name = "" ∧ Path.same m.path "." then none
  else if next.place.isSome then some next else none

/-- The directory whose names are listed at a path, if they can be. -/
def listing? (t : Tree) (m : Match) : Option Place := m.place.filter t.listed

/-- A name that is listed in a directory. -/
def child (t : Tree) (path : String) (place : Place) (name : String) : Match :=
  ⟨extended path name, if t.entered place then some (name :: place) else none,
    t.isDirectory (name :: place)⟩

/-- How deep the tree can still be below a path. -/
def below (t : Tree) (m : Match) : Nat := (m.place.map fun place => t.depth + 1 - place.length).getD 0

theorem place_of_listing? {t : Tree} {m : Match} {place : Place} (h : t.listing? m = some place) :
    m.place = some place :=
  (Option.filter_eq_some_iff.1 h).1

theorem below_child {t : Tree} {m : Match} {place : Place} {name : String}
    (listing : t.listing? m = some place) (mem : name ∈ t.children place) :
    t.below (t.child m.path place name) < t.below m := by
  have inside := length_of_mem_children mem
  rw [below, below, child, place_of_listing? listing]
  cases t.entered place with
  | true =>
    simp only [if_true, Option.map_some, Option.getD_some, List.length_cons]
    omega
  | false =>
    simp only [Bool.false_eq_true, if_false, Option.map_none, Option.map_some, Option.getD_none,
      Option.getD_some]
    omega

def search (t : Tree) (segments : List Segment) (m : Match) : List Hit :=
  match segments with
  | [] => [.ok m]
  | .literal name :: rest =>
    match t.step? m name with
    | none => []
    | some next => search t rest next
  | .wild ws :: rest =>
    if m.directory then
      match t.listing? m with
      | none => [.error ⟨m.path⟩]
      | some place =>
        (Segment.dots ws).flatMap (fun name =>
          search t rest (t.looked (joined m.path name) (t.follow? place name.toList))) ++
        (t.children place).flatMap fun name =>
          if (Segment.wild ws).accepts name then search t rest (t.child m.path place name) else []
    else []
  | .anyDirectories :: rest =>
    if m.directory then
      match _listing : t.listing? m with
      | none => [.error ⟨m.path⟩]
      | some place =>
        (t.children place).attach.flatMap fun ⟨name, _mem⟩ =>
          let next := t.child m.path place name
          (match rest with
            | [] => if next.directory then [.ok next] else []
            | segment :: more => if segment.accepts name then search t more next else []) ++
          search t (.anyDirectories :: rest) next
    else []
termination_by (segments.length, t.below m)
decreasing_by
  all_goals try exact Prod.Lex.left _ _ (by simp only [List.length_cons]; omega)
  exact Prod.Lex.right _ (below_child _listing _mem)

/-- The path where a search starts. -/
def origin (t : Tree) (start : Place) (absolute : Bool) : Match :=
  if absolute then t.looked "/" (some []) else t.looked "." (t.follow? start ['.'])

/-- What a pattern finds, from the root or from a directory of the tree on. -/
def find (t : Tree) (start : Place) (g : Glob) : List Hit :=
  (t.search g.segments (t.origin start g.absolute)).filter fun
    | .ok m => !g.directoriesOnly || m.directory
    | .error _ => true

end FormatPreview.Tree
