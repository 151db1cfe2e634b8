import FormatPreview.Check
import FormatPreview.Event

/-!
Batches. All files are checked at once and finish in any order; each result goes into the slot of
its file. A file whose check fails counts as formatted, and an event tells why.
-/
namespace FormatPreview

structure BatchResult where
  results : List Comparison
  events : List Event
  calls : List Call

namespace Batch

def failureEvent? (c : Checked) : Option Event :=
  match c.result with
  | .ok _ => none
  | .error e => some (.formatFailed e.path e.message)

/-- The slots after a check has finished: its result in its own slot, if it has one. -/
def place (slots : List (Option Comparison)) (finished : Nat × Checked) :
    List (Option Comparison) :=
  match finished.2.result with
  | .ok c => slots.set finished.1 (some c)
  | .error _ => slots

/-- The slots once all checks have finished, in the given order. -/
def collect (size : Nat) (finished : List (Nat × Checked)) : List (Option Comparison) :=
  finished.foldl place (List.replicate size none)

/-- The checks in the order in which they finish, each with the index of its file. -/
def finished (check : SourceFile → Checked) (files : List SourceFile) (order : List Nat) :
    List (Nat × Checked) :=
  order.filterMap fun i => files[i]?.map fun file => (i, check file)

def run (check : SourceFile → Checked) (files : List SourceFile) (order : List Nat) :
    BatchResult :=
  let done := finished check files order
  { results := (collect files.length done).zipWith
      (fun slot file => slot.getD (.unchanged file.path file.content)) files
    events := done.filterMap (failureEvent? ·.2)
    calls := done.flatMap (·.2.calls) }

end Batch

/-- The batch whose checks finish in the order of their files. -/
def checkFiles (engine : Engine) (options : Options) (limit : Option Nat)
    (files : List SourceFile) : BatchResult :=
  Batch.run (checkFile engine options limit) files (List.range files.length)

/-- Paths with their contents. A path without a content stands for an empty file. -/
def sourceFiles : List String → List String → List SourceFile
  | [], _ => []
  | path :: paths, [] => ⟨path, ""⟩ :: sourceFiles paths []
  | path :: paths, content :: contents => ⟨path, content⟩ :: sourceFiles paths contents

/-- The batch of the given paths, when the options ask for a comparison at all. -/
def checkContents (engine : Engine) (options : Options) (limit : Option Nat)
    (paths contents : List String) : Option BatchResult :=
  if options.compares then some (checkFiles engine options limit (sourceFiles paths contents))
  else none

end FormatPreview
