import FormatPreview.Diff.Hunk
import FormatPreview.Text.Line

/-!
Reading patches and applying them. The text after the names of a patch is read line by line: a
header tells how many lines of each side follow, each of them with its mark, and a remark takes
back the line feed that was put before it. A patch is applied to one side by replacing the lines
that its hunks show of that side, which have to stand there, by those they show of the other.
-/
namespace FormatPreview.Diff

inductive Side where
  | old
  | new
deriving DecidableEq

def Side.other : Side → Side
  | .old => .new
  | .new => .old

/-- Whether a line of a kind stands on a side. -/
def Edit.Kind.shown : Edit.Kind → Side → Bool
  | .deleted, .new | .inserted, .old => false
  | _, _ => true

/-- A hunk as it is read: the ranges of its header, and its marked lines. -/
structure Section where
  old : Span
  new : Span
  lines : List (Edit.Kind × String)
deriving DecidableEq

def Section.span (s : Section) : Side → Span
  | .old => s.old
  | .new => s.new

def shownLines (side : Side) (lines : List (Edit.Kind × String)) : List String :=
  (lines.filter (·.1.shown side)).map (·.2)

def Section.shown (s : Section) (side : Side) : List String := shownLines side s.lines

namespace Reading

def number? (cs : List Char) : Option (Nat × List Char) :=
  match cs.takeWhile Char.isDigit with
  | [] => none
  | digits => some (Nat.ofDigitChars 10 digits 0, cs.dropWhile Char.isDigit)

/-- A range as headers write it, counted from one. A count that is left out is one, and an empty
range names the line before it. -/
def range? (cs : List Char) : Option (Span × List Char) :=
  match number? cs with
  | none => none
  | some (start, ',' :: rest) =>
    (number? rest).map fun (length, rest) => (⟨if length = 0 then start else start - 1, length⟩, rest)
  | some (start, rest) => some (⟨start - 1, 1⟩, rest)

def header? (line : String) : Option (Span × Span) :=
  match line.toList with
  | '@' :: '@' :: ' ' :: '-' :: rest =>
    match range? rest with
    | some (old, ' ' :: '+' :: rest) =>
      match range? rest with
      | some (new, [' ', '@', '@', '\n']) => some (old, new)
      | _ => none
    | _ => none
  | _ => none

def marked? (line : String) : Option (Edit.Kind × String) :=
  match line.toList with
  | ' ' :: text => some (.kept, String.ofList text)
  | '-' :: text => some (.deleted, String.ofList text)
  | '+' :: text => some (.inserted, String.ofList text)
  | _ => none

def remark : String := "\\ No newline at end of file\n"

/-- The lines without remarks. A line before a remark loses its line feed. -/
def resolve : List String → List String
  | line :: next :: rest =>
    if next = remark then String.ofList line.toList.dropLast :: resolve rest
    else line :: resolve (next :: rest)
  | lines => lines

/-- The marked lines that are still owed to the current hunk, and the hunks after it. -/
def sections? (old new : Nat) : List String → Option (List (Edit.Kind × String) × List Section)
  | [] => if old = 0 ∧ new = 0 then some ([], []) else none
  | line :: rest =>
    if old = 0 ∧ new = 0 then
      match header? line with
      | none => none
      | some (o, n) =>
        (sections? o.length n.length rest).map fun (lines, more) => ([], ⟨o, n, lines⟩ :: more)
    else
      match marked? line with
      | none => none
      | some (kind, text) =>
        if (kind.shown .old → old ≠ 0) ∧ (kind.shown .new → new ≠ 0) then
          (sections? (old - (kind.shown .old).toNat) (new - (kind.shown .new).toNat) rest).map
            fun (lines, more) => ((kind, text) :: lines, more)
        else none

/-- The hunks of a patch, given the text after its names. -/
def patch? (text : String) : Option (List Section) :=
  (sections? 0 0 (resolve (Text.lines text))).map (·.2)

end Reading

/-- Lines of a side, from a position on, with the hunks applied. -/
def rewrite? (side : Side) (position : Nat) (lines : List String) :
    List Section → Option (List String)
  | [] => some lines
  | s :: rest =>
    let start := (s.span side).start
    let gap := start - position
    let here := lines.drop gap
    if position ≤ start ∧ gap ≤ lines.length ∧ (s.shown side).isPrefixOf here then
      (rewrite? side (start + (s.shown side).length) (here.drop (s.shown side).length) rest).map
        fun done => lines.take gap ++ s.shown side.other ++ done
    else none

/-- A text of a side with the hunks applied: the text of the other side. -/
def converted? (side : Side) (sections : List Section) (text : String) : Option String :=
  (rewrite? side 0 (Text.lines text) sections).map String.join

/-- Whether the text of hunks reads, and turns each of two texts into the other. -/
def Converts (hunkText content formatted : String) : Prop :=
  ∃ sections, Reading.patch? hunkText = some sections ∧
    converted? .old sections content = some formatted ∧ converted? .new sections formatted = some content

end FormatPreview.Diff
