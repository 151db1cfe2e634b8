import FormatPreview.Event
import FormatPreview.Pattern.Brace
import FormatPreview.Targets
import FormatPreview.Text.Utf8
import FormatPreview.Tree.Search

/-!
A directory tree as the place where targets are looked up. A pattern stands for the regular files
that one of its words finds, in the order of paths, without those that have a component named like a
directory of dependencies, of build output or of version control. Directories that cannot be listed
are told in events and otherwise passed over.
-/
namespace FormatPreview.Tree

open Pattern (Glob)

/-- The content of the file at a path, if it can be read. -/
def bytes? (t : Tree) (start : Place) (path : String) : Option (List UInt8) :=
  (t.resolve? start path).bind t.content?

def readText (t : Tree) (start : Place) (path : String) : Except Failure String :=
  match (t.bytes? start path).bind Text.decode? with
  | some text => .ok text
  | none => .error (.of ("unable to read " ++ path))

def ignoredNames : List String := ["node_modules", ".git", "dist", "build", "coverage"]

/-- Whether a component of a path has an ignored name. The name of the file counts too. -/
def ignored (path : String) : Bool :=
  (Path.components path).any fun
    | .name value => ignoredNames.contains value
    | _ => false

/-- A path put into paths in ascending order, unless it is among them in some spelling. -/
def insertPath (path : String) : List String → List String
  | [] => [path]
  | p :: rest =>
    if Path.before path p then path :: p :: rest
    else if Path.same path p then p :: rest
    else p :: insertPath path rest

/-- Whether a path leads to a regular file. -/
def leadsToFile (t : Tree) (start : Place) (path : String) : Bool :=
  (t.resolve? start path).any t.isFile

/-- The path of what a search tells, if it leads to a regular file and is not ignored. -/
def kept? (t : Tree) (start : Place) : Hit → Option String
  | .ok m => if t.leadsToFile start m.path && !ignored m.path then some m.path else none
  | .error _ => none

/-- The paths of the files that a pattern without braces finds, as they come up. -/
def matchedFiles (t : Tree) (start : Place) (word : String) :
    Except Pattern.SyntaxError (List String) := do
  let glob ← Glob.ofText word
  return (t.find start glob).filterMap (t.kept? start)

/-- The files that the words of a pattern find, in the order of paths. -/
def expandWords (t : Tree) (start : Place) (words : List String) :
    Except Pattern.SyntaxError (List String) := do
  let found ← words.mapM (t.matchedFiles start)
  return found.flatten.foldl (fun paths path => insertPath path paths) []

def expand (t : Tree) (start : Place) (pattern : String) : Except Failure (List String) :=
  (t.expandWords start (Pattern.expandBraces pattern)).mapError fun e =>
    (Failure.of e.message).within ("invalid glob pattern " ++ pattern)

def unreadable? : Hit → Option Unreadable
  | .ok _ => none
  | .error u => some u

/-- The directories that words come to and cannot list, up to a word that is no pattern. -/
def unreadable (t : Tree) (start : Place) : (words : List String) → List Unreadable
  | [] => []
  | word :: rest =>
    match Glob.ofText word with
    | .error _ => []
    | .ok glob => (t.find start glob).filterMap unreadable? ++ t.unreadable start rest

def source (t : Tree) (start : Place) : FileSource := ⟨t.readText start, t.expand start⟩

/-- The events of a run over targets, each target's after those of expanding it. A target that cannot
be expanded is the last one looked at, and one without a match has the next event. -/
def withUnreadable (t : Tree) (start : Place) : (targets : List String) → List Event → List Event
  | [], events => events
  | target :: rest, events =>
    if Pattern.isPattern target then
      (t.unreadable start (Pattern.expandBraces target)).map (.entryUnreadable target ·.message) ++
        match t.expand start target with
        | .error _ => events
        | .ok [] => events.take 1 ++ t.withUnreadable start rest (events.drop 1)
        | .ok (_ :: _) => t.withUnreadable start rest events
    else t.withUnreadable start rest events

end FormatPreview.Tree
