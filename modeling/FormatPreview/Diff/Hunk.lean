import FormatPreview.Diff.Compaction

/-!
Hunks: the changes of a script with up to three kept items around each. Two changes stand in one
hunk when at most six kept items lie between them.
-/
namespace FormatPreview.Diff

/-- A run of both lists that is kept as it is, or changed from the old to the new items. -/
structure Block where
  changed : Bool
  old : Span
  new : Span
deriving DecidableEq

namespace Block

def oldLength (edits : List Edit) : Nat := (edits.map (·.old.length)).foldr (· + ·) 0

def newLength (edits : List Edit) : Nat := (edits.map (·.new.length)).foldr (· + ·) 0

/-- A run of kept items: the start of the first edit and all the lengths. -/
def kept (edits : List Edit) : Block :=
  ⟨false, ⟨(edits.head?.map (·.old.start)).getD 0, oldLength edits⟩,
    ⟨(edits.head?.map (·.new.start)).getD 0, oldLength edits⟩⟩

/-- A run of deletions and insertions: what all the deletions delete from the start of the first of
them, and what all the insertions insert. Where one kind is missing, the other gives the position. -/
def change (edits : List Edit) : Block :=
  let deletions := edits.filter (·.kind = .deleted)
  let insertions := edits.filter (·.kind = .inserted)
  let first := (deletions.head?.or insertions.head?).map fun e => e.old.start
  let other := (insertions.head?.or deletions.head?).map fun e => e.new.start
  ⟨true, ⟨first.getD 0, oldLength deletions⟩,
    ⟨other.getD 0, newLength insertions⟩⟩

end Block

/-- The longest runs of kept items and of changes of a script. -/
def blocks (edits : List Edit) : List Block :=
  (edits.splitBy fun a b => decide (a.kind = .kept) == decide (b.kind = .kept)).map fun run =>
    if run.all (·.kind = .kept) then Block.kept run else Block.change run

def context : Nat := 3

/-- The block without its first items. -/
def Block.dropFront (b : Block) (count : Nat) : Block :=
  ⟨b.changed, ⟨b.old.start + count, b.old.length - count⟩,
    ⟨b.new.start + count, b.new.length - count⟩⟩

/-- The block with so many items at most, from its front. -/
def Block.takeFront (b : Block) (count : Nat) : Block :=
  ⟨b.changed, ⟨b.old.start, min b.old.length count⟩, ⟨b.new.start, min b.new.length count⟩⟩

/-- The block with so many items at most, from its back. -/
def Block.takeBack (b : Block) (count : Nat) : Block := b.dropFront (b.old.length - count)

/-- The blocks with no more context than is shown before the first change. -/
def trimFront : List Block → List Block
  | b :: rest => if b.changed then b :: rest else b.takeBack context :: rest
  | [] => []

/-- The blocks with no more context than is shown after the last change. -/
def trimBack : List Block → List Block
  | [] => []
  | [b] => if b.changed then [b] else [b.takeFront context]
  | b :: next :: rest => b :: trimBack (next :: rest)

abbrev Hunk := List Block

/-- The hunks of trimmed blocks, with the blocks of the current hunk from the last. A kept run of
more than two contexts ends a hunk and begins another; a hunk without a change is none. -/
def hunksFrom : List Block → List Block → List Hunk
  | current, [] => if current.any (·.changed) then [current.reverse] else []
  | current, b :: rest =>
    if !b.changed && 2 * context < b.old.length then
      (b.takeFront context :: current).reverse :: hunksFrom [b.takeBack context] rest
    else hunksFrom (b :: current) rest

def hunks {α : Type} [DecidableEq α] (as bs : List α) : List Hunk :=
  hunksFrom [] (trimBack (trimFront (blocks (compact as bs (script as bs)))))

end FormatPreview.Diff
