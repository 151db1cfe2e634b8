import FormatPreview.Comparison
import FormatPreview.Proofs.Diff.Conversion
import FormatPreview.Proofs.Text.Piece

/-!
Rows of a patch, and how they are seen. Where no carriage return stands alone, the pieces of a patch
between line feeds are its rows: the two names, then for each hunk its ranges, its marked lines and
the remarks after them, and an empty row at the end. A row is seen as what its place makes it, save
that a changed line which begins with its own mark twice is seen as a name.
-/
namespace FormatPreview

namespace Diff

/-- What a row of a patch is by its place. -/
inductive Role where
  | name
  | range
  | line (kind : Edit.Kind)
  | remark
  | last
deriving DecidableEq

/-- The kind of line that a role asks for. -/
def Role.kind : Role → LineKind
  | .name => .fileHeader
  | .range => .hunk
  | .line .deleted => .removed
  | .line .inserted => .added
  | .line .kept | .remark | .last => .context

structure Row where
  role : Role
  text : String
deriving DecidableEq

namespace Row

/-- A changed line that begins with its own mark twice, so that its row begins with three marks. -/
def doubled (r : Row) : Bool :=
  match r.role, r.text.toList with
  | .line .deleted, '-' :: '-' :: '-' :: _ => true
  | .line .inserted, '+' :: '+' :: '+' :: _ => true
  | _, _ => false

def seen (r : Row) : LineKind := if r.doubled then .fileHeader else r.role.kind

end Row

/-- The text without the line feed that it may end in. -/
def bare (text : String) : String :=
  if text.toList.getLast? = some '\n' then String.ofList text.toList.dropLast else text

def lineRows (line : Edit.Kind × String) : List Row :=
  ⟨.line line.1, line.1.mark ++ bare line.2⟩ ::
    if Text.terminated line.2 then [] else [⟨.remark, "\\ No newline at end of file"⟩]

def Section.rows (s : Section) : List Row := ⟨.range, s.ranges⟩ :: s.lines.flatMap lineRows

def nameRows (name : String) : List Row := [⟨.name, "--- a/" ++ name⟩, ⟨.name, "+++ b/" ++ name⟩]

def rows (name : String) (sections : List Section) : List Row :=
  nameRows name ++ sections.flatMap Section.rows ++ [⟨.last, ""⟩]

/-- The number of marked lines of a kind. -/
def marks (kind : Edit.Kind) (sections : List Section) : Nat :=
  (sections.flatMap (·.lines)).countP (·.1 = kind)

theorem bare_append {text : String} (ended : text.toList.getLast? = some '\n') :
    bare text ++ "\n" = text := by
  rw [bare, if_pos ended, ← String.toList_inj, String.toList_append, String.toList_ofList]
  exact List.dropLast_append_getLast? _ ended

theorem feed_notMem_bare {text : String} (inner : '\n' ∉ text.toList.dropLast) :
    '\n' ∉ (bare text).toList := by
  unfold bare
  by_cases ended : text.toList.getLast? = some '\n'
  · rwa [if_pos ended, String.toList_ofList]
  · rw [if_neg ended]
    intro mem
    rcases List.eq_nil_or_concat text.toList with none | ⟨before, c, cut⟩
    · simp [none] at mem
    · rw [List.concat_eq_append] at cut
      rw [cut, List.dropLast_concat] at inner
      rw [cut, List.getLast?_concat] at ended
      rw [cut] at mem
      rcases List.mem_append.1 mem with mem | last
      · exact inner mem
      · exact ended (congrArg some (List.mem_singleton.1 last).symm)

/-- The line is whole and does not end in a carriage return. -/
structure Fed (line : Edit.Kind × String) : Prop where
  whole : Text.IsLine line.2
  fed : line.2.toList.getLast? ≠ some '\r'

theorem printedLine_eq {line : Edit.Kind × String} (h : Fed line) :
    printedLine line = (lineRows line).map (·.text ++ "\n") := by
  unfold printedLine lineRows
  by_cases ended : Text.terminated line.2 = true
  · have feed := ((Text.terminated_iff _).1 ended).resolve_right h.fed
    simp [ended, String.append_assoc, bare_append feed]
  · have other : ¬ line.2.toList.getLast? = some '\n' := fun feed =>
      ended ((Text.terminated_iff _).2 (.inl feed))
    simp [ended, bare, other, Reading.remark]

theorem printed_eq {s : Section} (h : ∀ line ∈ s.lines, Fed line) :
    s.printed = s.rows.map (·.text ++ "\n") := by
  rw [Section.printed, Section.rows, List.map_cons, s.header_eq, List.map_flatMap]
  exact congrArg _ (List.flatMap_congr fun line mem => printedLine_eq (h line mem))

theorem mem_nameRows {name : String} {r : Row} :
    r ∈ nameRows name ↔ r = ⟨.name, "--- a/" ++ name⟩ ∨ r = ⟨.name, "+++ b/" ++ name⟩ := by
  simp [nameRows]

theorem eq_of_mem_lineRows {line : Edit.Kind × String} {r : Row} (mem : r ∈ lineRows line) :
    r = ⟨.line line.1, line.1.mark ++ bare line.2⟩ ∨ r = ⟨.remark, "\\ No newline at end of file"⟩ := by
  rcases List.mem_cons.1 mem with rfl | mem
  · exact .inl rfl
  · split at mem
    · simp at mem
    · exact .inr (List.mem_singleton.1 mem)

theorem feed_notMem_lineRows {line : Edit.Kind × String} (h : Fed line) :
    ∀ r ∈ lineRows line, '\n' ∉ r.text.toList := by
  obtain ⟨c, mark, inner⟩ := mark_chars line.1
  have apart : '\n' ≠ c := fun same => inner (.inl same.symm)
  have bare := feed_notMem_bare (Text.feed_notMem_dropLast h.whole)
  intro r mem
  rcases eq_of_mem_lineRows mem with rfl | rfl
  · simp [mark, apart, bare]
  · decide

theorem feed_notMem_rows {s : Section} (h : ∀ line ∈ s.lines, Fed line) :
    ∀ r ∈ s.rows, '\n' ∉ r.text.toList := by
  intro r mem
  rcases List.mem_cons.1 mem with rfl | mem
  · exact fun feed => s.plain_ranges _ feed (.inl rfl)
  · obtain ⟨line, inside, mem⟩ := List.mem_flatMap.1 mem
    exact feed_notMem_lineRows (h line inside) r mem

theorem of_line (kind : Edit.Kind) (text : String) :
    LineKind.of (kind.mark ++ text) = Row.seen ⟨.line kind, kind.mark ++ text⟩ := by
  cases kind with
  | kept => simp [LineKind.of, Row.seen, Row.doubled, Role.kind, Edit.Kind.mark]
  | deleted =>
    have chars : ("-" ++ text).toList = '-' :: text.toList := by simp
    simp only [LineKind.of, Row.seen, Row.doubled, Role.kind, Edit.Kind.mark, chars]
    grind
  | inserted =>
    have chars : ("+" ++ text).toList = '+' :: text.toList := by simp
    simp only [LineKind.of, Row.seen, Row.doubled, Role.kind, Edit.Kind.mark, chars]
    grind

theorem of_lineRows (line : Edit.Kind × String) :
    ∀ r ∈ lineRows line, LineKind.of r.text = r.seen := by
  intro r mem
  rcases eq_of_mem_lineRows mem with rfl | rfl
  · exact of_line line.1 (bare line.2)
  · decide

theorem of_rows (name : String) (sections : List Section) :
    ∀ r ∈ rows name sections, LineKind.of r.text = r.seen := by
  intro r mem
  rcases List.mem_append.1 mem with mem | mem
  · rcases List.mem_append.1 mem with mem | mem
    · rcases mem_nameRows.1 mem with rfl | rfl <;>
        simp [LineKind.of, Row.seen, Row.doubled, Role.kind]
    · obtain ⟨s, _, mem⟩ := List.mem_flatMap.1 mem
      rcases List.mem_cons.1 mem with rfl | mem
      · simp [LineKind.of, Row.seen, Row.doubled, Role.kind, Section.ranges]
      · obtain ⟨line, _, mem⟩ := List.mem_flatMap.1 mem
        exact of_lineRows line r mem
  · obtain rfl := List.mem_singleton.1 mem
    decide

theorem fed_of_reading {content formatted : String} (old : Text.Paired content.toList)
    (new : Text.Paired formatted.toList) {s : Section}
    (mem : s ∈ readings (Text.lines content) (Text.lines formatted)) :
    ∀ line ∈ s.lines, Fed line := by
  have last : ∀ {text line : String}, Text.Paired text.toList → line ∈ Text.lines text →
      line.toList.getLast? ≠ some '\r' := by
    intro text line paired mem
    obtain ⟨cs, inside, rfl⟩ := List.mem_map.1 mem
    rw [String.toList_ofList]
    exact Text.last_of_paired paired inside
  intro line shown
  have fed := (mem_of_reading mem line shown).elim (last old) (last new)
  exact ⟨isLine_of_reading mem line shown, fed⟩

/-- The pieces of a patch are its rows. -/
theorem pieces_patch {name content formatted : String} (differ : content ≠ formatted)
    (old : Text.Paired content.toList) (new : Text.Paired formatted.toList)
    (label : '\n' ∉ name.toList) :
    Text.pieces (patch name content formatted) =
      (rows name (readings (Text.lines content) (Text.lines formatted))).map (·.text) := by
  have fed := fun s mem => fed_of_reading (s := s) old new mem
  have named := patch_eq name differ
  rw [hunkText_eq] at named
  generalize readings (Text.lines content) (Text.lines formatted) = sections at fed named
  have inner : ∀ text ∈ (nameRows name ++ sections.flatMap Section.rows).map (·.text),
      '\n' ∉ text.toList := by
    intro text mem
    obtain ⟨r, among, rfl⟩ := List.mem_map.1 mem
    rcases List.mem_append.1 among with among | among
    · rcases mem_nameRows.1 among with rfl | rfl <;> simpa using label
    · obtain ⟨s, inside, shown⟩ := List.mem_flatMap.1 among
      exact feed_notMem_rows (fed s inside) r shown
  have whole : patch name content formatted = String.join
      (((nameRows name ++ sections.flatMap Section.rows).map (·.text)).map (· ++ "\n")) := by
    have printed : sections.flatMap Section.printed =
        ((sections.flatMap Section.rows).map (·.text)).map (· ++ "\n") := by
      rw [List.map_map, List.map_flatMap]
      exact List.flatMap_congr fun s mem => printed_eq (fed s mem)
    have feed : "\n+++ b/" = "\n" ++ "+++ b/" := rfl
    rw [named, printed, feed]
    simp only [nameRows, List.cons_append, List.nil_append, List.map_cons, String.join_cons,
      String.append_assoc]
  rw [whole, Text.pieces_join inner]
  simp [rows]

/-- The kind of the marked lines that a side alone shows. -/
def Side.changed : Side → Edit.Kind
  | .old => .deleted
  | .new => .inserted

theorem marks_append (kind : Edit.Kind) (s : Section) (sections : List Section) :
    marks kind (s :: sections) = s.lines.countP (·.1 = kind) + marks kind sections := by
  simp [marks]

theorem length_shown (side : Side) (lines : List (Edit.Kind × String)) :
    (shownLines side lines).length =
      lines.countP (·.1 = side.changed) + lines.countP (·.1 = .kept) := by
  induction lines with
  | nil => rfl
  | cons line lines ih =>
    rw [Reading.length_shownLines, ih, List.countP_cons, List.countP_cons]
    obtain ⟨kind, text⟩ := line
    cases kind <;> cases side <;> simp [Edit.Kind.shown, Side.changed] <;> omega

/-- Headers that count right say how many lines are changed and kept. -/
theorem sum_counted {sections : List Section} (counted : ∀ s ∈ sections, s.Counted) (side : Side) :
    (sections.map fun s => (s.span side).length).sum =
      marks side.changed sections + marks .kept sections := by
  induction sections with
  | nil => rfl
  | cons s sections ih =>
    have here : (s.span side).length = (s.shown side).length := by
      cases side
      · exact (counted s (by simp)).1
      · exact (counted s (by simp)).2
    have rest := ih fun s mem => counted s (by simp [mem])
    rw [List.map_cons, List.sum_cons, rest, here, Section.shown, length_shown, marks_append,
      marks_append]
    omega

theorem countP_lineRows (kind : Edit.Kind) (lines : List (Edit.Kind × String)) :
    (lines.flatMap lineRows).countP (·.role = .line kind) = lines.countP (·.1 = kind) := by
  induction lines with
  | nil => rfl
  | cons line lines ih =>
    rw [List.flatMap_cons, List.countP_append, ih, List.countP_cons, lineRows]
    by_cases same : line.1 = kind <;> by_cases ended : Text.terminated line.2 = true <;>
      simp [same, ended, Nat.add_comm]

theorem countP_rows (kind : Edit.Kind) (name : String) (sections : List Section) :
    (rows name sections).countP (·.role = .line kind) = marks kind sections := by
  have inner : (sections.flatMap Section.rows).countP (·.role = .line kind) =
      marks kind sections := by
    induction sections with
    | nil => rfl
    | cons s sections ih =>
      rw [List.flatMap_cons, List.countP_append, ih, marks_append, Section.rows, List.countP_cons,
        countP_lineRows]
      simp
  rw [rows, List.countP_append, List.countP_append, inner]
  simp [nameRows]

theorem seen_iff (side : Side) (r : Row) :
    r.seen = (Role.line side.changed).kind ↔ r.role = .line side.changed ∧ r.doubled = false := by
  obtain ⟨role, text⟩ := r
  unfold Row.seen
  cases doubled : Row.doubled ⟨role, text⟩ with
  | true => cases side <;> simp [Role.kind, Side.changed]
  | false =>
    rcases role with _ | _ | kind | _ | _
    case line => cases kind <;> cases side <;> simp [Role.kind, Side.changed]
    all_goals cases side <;> simp [Role.kind, Side.changed]

/-- The rows of changed lines are seen as such, save the doubled ones. -/
theorem countP_seen (side : Side) (rs : List Row) :
    rs.countP (·.seen = (Role.line side.changed).kind) +
        rs.countP (fun r => r.doubled ∧ r.role = .line side.changed) =
      rs.countP (·.role = .line side.changed) := by
  induction rs with
  | nil => rfl
  | cons r rs ih =>
    simp only [List.countP_cons, seen_iff, decide_eq_true_eq] at *
    rw [← ih]
    by_cases role : r.role = .line side.changed <;> cases doubled : r.doubled <;>
      simp [role] <;> omega

end Diff

/-- The pieces of a patch are its rows as they are seen. The marked lines that are seen as changed,
and the doubled ones, are as many as the hunks show, and as many as their headers say where the script
is anchored. -/
theorem Comparison.patchLines_by_place (name content formatted : String)
    (differ : content ≠ formatted) (old : Text.Paired content.toList)
    (new : Text.Paired formatted.toList) (label : '\n' ∉ name.toList) :
    let c : Comparison := ⟨name, content, formatted⟩
    let sections := Diff.readings (Text.lines content) (Text.lines formatted)
    let rows := Diff.rows name sections
    c.patchLines = rows.map (fun r => (r.seen, r.text)) ∧
      ∀ side : Diff.Side,
        c.patchLines.countP (·.1 = (Diff.Role.line side.changed).kind) +
            rows.countP (fun r => r.doubled ∧ r.role = .line side.changed) =
          Diff.marks side.changed sections ∧
        (Diff.Anchored (Text.lines content) (Text.lines formatted) →
          (sections.map fun s => (s.span side).length).sum =
            Diff.marks side.changed sections + Diff.marks .kept sections) := by
  intro c sections rows
  have differs : c.differs = true := by simpa [c, Comparison.differs] using differ
  have text : c.patch = Diff.patch name content formatted := if_pos differs
  have lines : c.patchLines = rows.map (fun r => (r.seen, r.text)) := by
    rw [Comparison.patchLines, text, Diff.pieces_patch differ old new label, List.map_map]
    exact List.map_congr_left fun r mem => congrArg (·, r.text) (Diff.of_rows name sections r mem)
  refine ⟨lines, fun side => ⟨?_, fun anchored => ?_⟩⟩
  · rw [lines, List.countP_map, ← Diff.countP_rows _ name, ← Diff.countP_seen]
    rfl
  · exact Diff.sum_counted (Diff.counted_of_anchored anchored) side

theorem Comparison.patchLines_by_place_marks :
    let c : Comparison := ⟨"x", "a\r\n--b\n", "a\r\n++c"⟩
    let sections := Diff.readings (Text.lines c.content) (Text.lines c.formatted)
    c.patchLines = (Diff.rows "x" sections).map fun r => (r.seen, r.text) := by
  have differ : "a\r\n--b\n" ≠ "a\r\n++c" := by decide
  have old : Text.Paired "a\r\n--b\n".toList := by simp [Text.paired_cons]
  have new : Text.Paired "a\r\n++c".toList := by simp [Text.paired_cons]
  exact (Comparison.patchLines_by_place "x" _ _ differ old new (by decide)).1

/-- A deleted line that begins with two dashes is not seen as what its place makes it. -/
theorem Comparison.dashes_seen_as_name :
    let c : Comparison := ⟨"x", "--a\n", "b\n"⟩
    let sections := Diff.readings (Text.lines c.content) (Text.lines c.formatted)
    (c.content ≠ c.formatted ∧ Text.Paired c.content.toList ∧ Text.Paired c.formatted.toList ∧
        '\n' ∉ c.path.toList) ∧
      c.patch = "--- a/x\n+++ b/x\n@@ -1 +1 @@\n---a\n+b\n" ∧
      c.patchLines.map (·.1) = [.fileHeader, .fileHeader, .hunk, .fileHeader, .added, .context] ∧
      c.patchLines ≠ (Diff.rows c.path sections).map fun r => (r.role.kind, r.text) := by
  intro c sections
  have text : c.patch = "--- a/x\n+++ b/x\n@@ -1 +1 @@\n---a\n+b\n" := by cbv
  have seen : c.patchLines.map (·.1) =
      [.fileHeader, .fileHeader, .hunk, .fileHeader, .added, .context] := by cbv
  have placed : (Diff.rows "x" (Diff.readings (Text.lines "--a\n") (Text.lines "b\n"))).map
      (·.role.kind) = [.fileHeader, .fileHeader, .hunk, .removed, .added, .context] := by cbv
  refine ⟨⟨by decide, by simp [c, Text.paired_cons], by simp [c, Text.paired_cons], by decide⟩, text,
    seen, fun same => ?_⟩
  have kinds := congrArg (List.map (·.1)) same
  rw [seen, List.map_map] at kinds
  exact absurd (kinds.trans placed) (by decide)

end FormatPreview
