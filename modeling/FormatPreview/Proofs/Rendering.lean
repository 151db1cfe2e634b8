import FormatPreview.Proofs.Diff.Conversion
import FormatPreview.Proofs.Report
import FormatPreview.Proofs.Style
import FormatPreview.Proofs.Text.Piece

/-!
The two forms of a report agree. A coloured patch is painted piece by piece and joined again, so with
styles off it is the plain one, and with styles on it shows the plain one where no text holds an
escape character: a patch has its characters from its texts, from numbers and from fixed marks.
-/
namespace FormatPreview

open Style (Unstyled Shows)

namespace Text

theorem unstyled_lines {text : String} (free : Unstyled text) :
    ∀ line ∈ lines text, Unstyled line := by
  rwa [← join_lines text, Style.unstyled_join] at free

theorem unstyled_pieces {text : String} (free : Unstyled text) :
    ∀ piece ∈ pieces text, Unstyled piece := by
  rwa [← joinWith_pieces text, Style.unstyled_joinWith] at free

end Text

namespace Diff

theorem unstyled_range (start stop : Nat) : Unstyled (range start stop) := by
  have marks : Unstyled ",0" ∧ Unstyled "," := by decide
  simp only [range]
  split
  · simp
  · split <;> simp [marks]

theorem unstyled_header (s : Section) : Unstyled s.header := by
  simp only [Section.header, Style.unstyled_append, unstyled_range, and_true]
  simp [Unstyled, Style.escape]

theorem unstyled_printedLine {line : Edit.Kind × String} (free : Unstyled line.2) :
    ∀ text ∈ printedLine line, Unstyled text := by
  have mark : ∀ kind : Edit.Kind, Unstyled kind.mark := by
    intro kind
    cases kind <;> decide
  have closed : Unstyled "\n" ∧ Unstyled Reading.remark := by decide
  unfold printedLine
  split <;> simp [mark, free, closed]

theorem unstyled_patch {name content formatted : String} (label : Unstyled name)
    (old : Unstyled content) (new : Unstyled formatted) (differ : content ≠ formatted) :
    Unstyled (patch name content formatted) := by
  have printed : ∀ s ∈ readings (Text.lines content) (Text.lines formatted),
      ∀ text ∈ s.printed, Unstyled text := by
    intro s mem text shown
    rcases List.mem_cons.1 shown with rfl | shown
    · exact unstyled_header s
    · obtain ⟨line, inside, shown⟩ := List.mem_flatMap.1 shown
      have free : Unstyled line.2 := (mem_of_reading mem line inside).elim
        (Text.unstyled_lines old _) (Text.unstyled_lines new _)
      exact unstyled_printedLine free text shown
  have marks : Unstyled "--- a/" ∧ Unstyled "\n+++ b/" ∧ Unstyled "\n" := by decide
  rw [patch_eq name differ, hunkText_eq]
  simp only [Style.unstyled_append, Style.unstyled_join, label, marks, true_and, List.mem_flatMap]
  rintro text ⟨s, mem, shown⟩
  exact printed s mem text shown

end Diff

theorem LineKind.paint_off (k : LineKind) (line : String) : k.paint false line = line := by
  cases k <;> rfl

theorem LineKind.shows_paint (k : LineKind) {line : String} (free : Unstyled line) :
    Shows (k.paint true line) line := by
  unfold LineKind.paint
  split
  · exact Style.shows_paint _ true free
  · exact Style.shows_self free

namespace Comparison

/-- No text of the comparison holds an escape character. -/
structure Unstyled (c : Comparison) : Prop where
  path : Style.Unstyled c.path
  content : Style.Unstyled c.content
  formatted : Style.Unstyled c.formatted

/-- The plain form is the pieces of the patch without their kinds. -/
theorem plain_eq {c : Comparison} (differs : c.differs = true) :
    c.plain = Text.joinWith "\n" (c.warning :: c.patchLines.map (·.2) ++ [""]) := by
  have texts : c.patchLines.map (·.2) = Text.pieces c.patch := by
    rw [patchLines, List.map_map]
    exact List.map_id _
  rw [plain, if_pos differs, texts, ← Text.joinWith_between _ (Text.pieces_ne_nil _),
    Text.joinWith_pieces]

theorem colored_off (c : Comparison) : c.colored false = c.plain := by
  cases differs : c.differs with
  | false => simp [colored, plain, differs]
  | true => simp [plain_eq differs, colored, differs, LineKind.paint_off]

theorem unstyled_warning {c : Comparison} (free : c.Unstyled) : Style.Unstyled c.warning := by
  simp only [warning, Style.unstyled_append, free.path, and_true]
  simp [Style.Unstyled, Style.escape]

theorem unstyled_agreement {c : Comparison} (free : c.Unstyled) : Style.Unstyled c.agreement := by
  simp only [agreement, Style.unstyled_append, free.path, and_true]
  simp [Style.Unstyled, Style.escape]

theorem unstyled_patch {c : Comparison} (free : c.Unstyled) : Style.Unstyled c.patch := by
  unfold patch
  split
  · next differs =>
    have differ : c.content ≠ c.formatted := by simpa [Comparison.differs] using differs
    exact Diff.unstyled_patch free.path free.content free.formatted differ
  · decide

theorem unstyled_plain {c : Comparison} (free : c.Unstyled) : Style.Unstyled c.plain := by
  unfold plain
  split
  · have last : Style.Unstyled "" := by decide
    simp [Style.unstyled_joinWith, unstyled_warning free, unstyled_patch free, last]
  · exact unstyled_agreement free

theorem shows_colored {c : Comparison} (free : c.Unstyled) : Shows (c.colored true) c.plain := by
  cases differs : c.differs with
  | false =>
    simpa [colored, plain, differs] using Style.shows_paint .green true (unstyled_agreement free)
  | true =>
    -- Cut into its pieces, the plain form is joined from as many texts as the coloured one.
    rw [plain_eq differs, colored, if_pos differs]
    apply Style.shows_joinWith
    have lines : List.Forall₂ Shows (c.patchLines.map fun line => line.1.paint true line.2)
        (c.patchLines.map (·.2)) := by
      rw [List.forall₂_map_left_iff, List.forall₂_map_right_iff, List.forall₂_same]
      intro line mem
      obtain ⟨piece, inside, rfl⟩ := List.mem_map.1 mem
      exact LineKind.shows_paint _ (Text.unstyled_pieces (unstyled_patch free) piece inside)
    exact List.rel_append (.cons (Style.shows_paint .yellow true (unstyled_warning free)) lines)
      (.cons (Style.shows_self (by decide)) .nil)

end Comparison

namespace Stats

theorem colored_off (s : Stats) : s.colored false = s.plain := by
  simp [colored, plain]

theorem unstyled_lines (s : Stats) : Unstyled heading ∧ Unstyled ("  " ++ s.totalLine) ∧
    Unstyled s.formattedLine ∧ Unstyled s.differingLine := by
  unfold totalLine formattedLine differingLine
  simp only [Style.unstyled_append, Nat.toString_eq_repr, Style.unstyled_repr, and_true]
  simp [Unstyled, Style.escape, heading]

theorem unstyled_plain (s : Stats) : Unstyled s.plain := by
  have indent : Unstyled "  " := by decide
  obtain ⟨head, total, formatted, differing⟩ := s.unstyled_lines
  simpa [plain, Style.unstyled_joinWith, head, formatted, differing, indent] using total

theorem shows_colored (s : Stats) : Shows (s.colored true) s.plain := by
  have indent : Shows "  " "  " := Style.shows_self (by decide)
  obtain ⟨head, total, formatted, differing⟩ := s.unstyled_lines
  unfold colored plain
  apply Style.shows_joinWith
  refine .cons (Style.shows_paint .bold true head) (.cons (Style.shows_self total) ?_)
  refine .cons (indent.append (Style.shows_paint .green true formatted)) ?_
  exact .cons (indent.append (Style.shows_paint .yellow true differing)) .nil

end Stats

/-- The form that colours are asked for or not, where styles are on or off. -/
def Form.of (colored on : Bool) : Form := if colored then .colored on else .plain

/-- The text of a whole report. -/
def reportText (form : Form) (results : List Comparison) : String :=
  String.join (reportTexts form results)

theorem reportTexts_off (results : List Comparison) :
    reportTexts (.colored false) results = reportTexts .plain results := by
  have blocks : Form.comparison (.colored false) = Form.comparison .plain :=
    funext Comparison.colored_off
  have summary : Form.stats (.colored false) = Form.stats .plain := funext Stats.colored_off
  simp only [reportTexts, blocks, summary]

theorem unstyled_report {results : List Comparison} (free : ∀ c ∈ results, c.Unstyled) :
    Unstyled (reportText .plain results) := by
  have feed : Unstyled "\n" := by decide
  rw [reportText, Style.unstyled_join, reportTexts]
  split
  · decide
  · intro text mem
    rcases List.mem_append.1 mem with block | summary
    · obtain ⟨c, inside, mem⟩ := List.mem_flatMap.1 block
      have whole : text = c.plain ∨ text = "\n" := by simpa [Form.comparison] using mem
      rcases whole with rfl | rfl
      · exact Comparison.unstyled_plain (free c (List.mem_filter.1 inside).1)
      · exact feed
    · have part : text = "\n" ∨ text = (Stats.of results).plain := by
        simpa [Form.stats, or_comm, or_assoc, or_left_comm] using summary
      rcases part with rfl | rfl
      · exact feed
      · exact Stats.unstyled_plain _

theorem shows_report {results : List Comparison} (free : ∀ c ∈ results, c.Unstyled) :
    Shows (reportText (.colored true) results) (reportText .plain results) := by
  have feed : Shows "\n" "\n" := Style.shows_self (by decide)
  apply Style.shows_join
  unfold reportTexts
  split
  · exact .cons (Style.shows_self (by decide)) .nil
  · apply List.rel_append
    · have inner : ∀ c ∈ results.filter (·.differs), c.Unstyled := fun c mem =>
        free c (List.mem_filter.1 mem).1
      generalize results.filter (·.differs) = shown at inner
      induction shown with
      | nil => exact .nil
      | cons c rest ih =>
        rw [List.flatMap_cons, List.flatMap_cons]
        have block := Comparison.shows_colored (inner c (List.mem_cons_self ..))
        exact List.rel_append (.cons block (.cons feed .nil))
          (ih fun c mem => inner c (List.mem_cons_of_mem _ mem))
    · exact .cons feed (.cons (Stats.shows_colored _) (.cons feed .nil))

/-- A report that its sink takes reaches it whole, with an outcome that no form changes. The plain
report is the same under every override, and the coloured one is that report with styles off. With
styles on it is the plain report once its codes are deleted, if no text holds an escape character. -/
theorem colored_report_shows_plain (results : List Comparison) :
    (∀ sink colored on, ¬ sink.FailsAmong (reportTexts (.of colored on) results) →
      writeReport sink (.of colored on) results =
          ({ sink with
            pieces := sink.pieces ++ (reportTexts (.of colored on) results).map Text.encode },
            .ok (Outcome.of results)) ∧
        (writeReport sink (.of colored on) results).1.pieces.flatten =
          sink.pieces.flatten ++ Text.encode (reportText (.of colored on) results)) ∧
    (∀ sink on on', writeReport sink (.of false on) results =
      writeReport sink (.of false on') results) ∧
    (∀ sink, writeReport sink (.of true false) results =
      writeReport sink (.of false false) results) ∧
    ((∀ c ∈ results, c.Unstyled) →
      Style.withoutCodes (reportText (.of true true) results).toList =
          (reportText (.of false true) results).toList ∧
        Unstyled (reportText (.of false true) results)) := by
  refine ⟨fun sink colored on takes => ?_, fun sink on on' => rfl, fun sink => ?_, fun free => ?_⟩
  · have written := Sink.writeAll_of_not_fails takes
    constructor
    · simp [writeReport, written, Except.map]
    · simp [writeReport, written, reportText, Text.encode_join]
  · have texts : reportTexts (.of true false) results = reportTexts (.of false false) results :=
      reportTexts_off results
    rw [writeReport, texts, writeReport]
  · exact ⟨(shows_report free).eq, unstyled_report free⟩

theorem colored_report_shows_plain_pair :
    let results : List Comparison := [⟨"x", "a\n", "b\n"⟩, .unchanged "y" "c"]
    (writeReport (.empty none) (.of true true) results).2 = .ok .formattingNeeded ∧
      Style.withoutCodes (reportText (.of true true) results).toList =
        (reportText (.of false true) results).toList := by
  intro results
  obtain ⟨taken, _, _, shown⟩ := colored_report_shows_plain results
  have free : ∀ c ∈ results, c.Unstyled := by
    intro c mem
    have either : c = ⟨"x", "a\n", "b\n"⟩ ∨ c = .unchanged "y" "c" := by simpa [results] using mem
    rcases either with rfl | rfl <;> exact ⟨by decide, by decide, by decide⟩
  have outcome : Outcome.of results = .formattingNeeded := by decide
  refine ⟨?_, (shown free).1⟩
  rw [(taken _ true true (Sink.empty_takes _)).1, outcome]

end FormatPreview
