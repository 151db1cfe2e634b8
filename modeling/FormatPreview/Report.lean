import FormatPreview.Comparison
import FormatPreview.Sink
import FormatPreview.Style

/-!
Reports on a batch of comparisons: a block for each file that differs, in their order, and a summary
with the counts. The plain form writes patches as they are; the coloured form styles them line by
line, where styles are on.
-/
namespace FormatPreview

namespace Comparison

def agreement (c : Comparison) : String := "✓ " ++ c.path ++ " is already formatted"

def warning (c : Comparison) : String := "⚠ " ++ c.path ++ " needs formatting:"

def plain (c : Comparison) : String :=
  if c.differs then Text.joinWith "\n" [c.warning, c.patch, ""] else c.agreement

end Comparison

def LineKind.style? : LineKind → Option Style
  | .fileHeader => some .bold
  | .hunk => some .cyan
  | .added => some .green
  | .removed => some .red
  | .context => none

def LineKind.paint (k : LineKind) (on : Bool) (line : String) : String :=
  match k.style? with
  | some style => style.paint on line
  | none => line

namespace Comparison

def colored (c : Comparison) (on : Bool) : String :=
  if c.differs then
    Text.joinWith "\n"
      (Style.yellow.paint on c.warning :: c.patchLines.map (fun (kind, line) => kind.paint on line)
        ++ [""])
  else Style.green.paint on c.agreement

end Comparison

/-- How many files of a batch were compared and how many of them differ. -/
structure Stats where
  total : Nat
  differing : Nat
  differing_le_total : differing ≤ total

namespace Stats

def of (results : List Comparison) : Stats :=
  ⟨results.length, results.countP (·.differs), List.countP_le_length⟩

def formatted (s : Stats) : Nat := s.total - s.differing

def heading : String := "Formatting Summary:"

def totalLine (s : Stats) : String := "Total files: " ++ toString s.total

def formattedLine (s : Stats) : String := "✓ Already formatted: " ++ toString s.formatted

def differingLine (s : Stats) : String := "⚠ Needs formatting: " ++ toString s.differing

def plain (s : Stats) : String :=
  Text.joinWith "\n"
    [heading, "  " ++ s.totalLine, "  " ++ s.formattedLine, "  " ++ s.differingLine]

def colored (s : Stats) (on : Bool) : String :=
  Text.joinWith "\n"
    [Style.bold.paint on heading, "  " ++ s.totalLine,
      "  " ++ Style.green.paint on s.formattedLine, "  " ++ Style.yellow.paint on s.differingLine]

end Stats

inductive Outcome where
  | noFiles
  | allFormatted
  | formattingNeeded
deriving DecidableEq

namespace Outcome

def name : Outcome → String
  | .noFiles => "NoFiles"
  | .allFormatted => "AllFormatted"
  | .formattingNeeded => "FormattingNeeded"

def needsFormatting (o : Outcome) : Bool := o = .formattingNeeded

def exitCode (o : Outcome) : Nat := if o.needsFormatting then 1 else 0

def of (results : List Comparison) : Outcome :=
  if results.isEmpty then .noFiles
  else if results.any (·.differs) then .formattingNeeded
  else .allFormatted

end Outcome

/-- The form of a report: plain, or coloured with styles on or off. -/
inductive Form where
  | plain
  | colored (on : Bool)
deriving DecidableEq

namespace Form

def comparison (f : Form) (c : Comparison) : String :=
  match f with
  | .plain => c.plain
  | .colored on => c.colored on

def stats (f : Form) (s : Stats) : String :=
  match f with
  | .plain => s.plain
  | .colored on => s.colored on

end Form

/-- The texts that make up a report, one for each write. -/
def reportTexts (form : Form) (results : List Comparison) : List String :=
  if results.isEmpty then ["No files to check.\n"]
  else
    (results.filter (·.differs)).flatMap (fun c => [form.comparison c, "\n"]) ++
      ["\n", form.stats (Stats.of results), "\n"]

/-- A report written to a sink. The outcome is known once everything is written. -/
def writeReport (sink : Sink) (form : Form) (results : List Comparison) :
    Sink × Except SinkError Outcome :=
  let (sink, written) := sink.writeAll (reportTexts form results)
  (sink, written.map fun () => Outcome.of results)

end FormatPreview
