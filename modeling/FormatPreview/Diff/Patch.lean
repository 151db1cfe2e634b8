import FormatPreview.Diff.Hunk
import FormatPreview.Text.Line

/-!
The text of a patch in the unified format, and the kinds of its lines. A patch names the file on
both sides and then writes its hunks: a header with the ranges of both sides, and each line after a
mark that says whether it is kept, deleted or inserted.
-/
namespace FormatPreview

namespace Diff

/-- The lines of a span in a hunk header, counted from one. A single line has no count, and an empty
range names the line before it. -/
def range (start stop : Nat) : String :=
  let length := stop - start
  if length = 1 then toString (start + 1)
  else if length = 0 then toString start ++ ",0"
  else toString (start + 1) ++ "," ++ toString length

/-- The header of a hunk, from the start of its first block to the end of its last. -/
def header (hunk : Hunk) : String :=
  match hunk.head?, hunk.getLast? with
  | some first, some last =>
    "@@ -" ++ range first.old.start last.old.stop ++ " +" ++ range first.new.start last.new.stop
      ++ " @@\n"
  | _, _ => ""

/-- A line after its mark. A line without a terminator gets one, and a remark that it had none. -/
def marked (mark : String) (line : String) : String :=
  mark ++ line ++ if Text.terminated line then "" else "\n\\ No newline at end of file\n"

/-- The marked lines of a block. All deleted lines of a change stand before the inserted ones. -/
def body (old new : List String) (b : Block) : String :=
  if b.changed then
    String.join ((b.old.of old).map (marked "-")) ++ String.join ((b.new.of new).map (marked "+"))
  else String.join ((b.old.of old).map (marked " "))

/-- The patch from one text to another, under the name of a file. -/
def patch (name content formatted : String) : String :=
  let old := Text.lines content
  let new := Text.lines formatted
  let hunkTexts := (hunks old new).map fun hunk =>
    header hunk ++ String.join (hunk.map (body old new))
  if hunkTexts.isEmpty then ""
  else "--- a/" ++ name ++ "\n+++ b/" ++ name ++ "\n" ++ String.join hunkTexts

end Diff

/-- What a line of a patch is, judged by how it begins. -/
inductive LineKind where
  | fileHeader
  | hunk
  | added
  | removed
  | context
deriving DecidableEq

def LineKind.of (line : String) : LineKind :=
  match line.toList with
  | '-' :: '-' :: '-' :: _ => .fileHeader
  | '+' :: '+' :: '+' :: _ => .fileHeader
  | '@' :: '@' :: _ => .hunk
  | '+' :: _ => .added
  | '-' :: _ => .removed
  | _ => .context

def LineKind.name : LineKind → String
  | .fileHeader => "fileheader"
  | .hunk => "hunk"
  | .added => "added"
  | .removed => "removed"
  | .context => "context"

end FormatPreview
