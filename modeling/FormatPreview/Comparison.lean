import FormatPreview.Diff.Patch

/-!
A file before and after formatting. Whether the two texts differ and the patch between them follow
from the texts, so no comparison can contradict itself.
-/
namespace FormatPreview

structure Comparison where
  path : String
  content : String
  formatted : String
deriving DecidableEq

namespace Comparison

def unchanged (path content : String) : Comparison := ⟨path, content, content⟩

/-- The name of a text that comes from no file. -/
def unnamed : String := "file"

def differs (c : Comparison) : Bool := c.content ≠ c.formatted

/-- The patch, empty where the texts agree. -/
def patch (c : Comparison) : String :=
  if c.differs then Diff.patch c.path c.content c.formatted else ""

/-- The pieces of the patch between line feeds, each with its kind. -/
def patchLines (c : Comparison) : List (LineKind × String) :=
  (Text.pieces c.patch).map fun line => (LineKind.of line, line)

end Comparison

end FormatPreview
