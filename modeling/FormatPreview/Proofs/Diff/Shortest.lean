import FormatPreview.Proofs.Diff.Amount
import FormatPreview.Proofs.Diff.Excerpt
import FormatPreview.Proofs.Diff.Row

/-!
No patch reports more change than there is. The changed blocks of a script run over what the script
deletes and inserts, grouping them leaves out kept items alone, and each of their items is one marked
line of the patch. So the lines that a patch marks as changed are those left over beside a longest
common list of the lines of both texts.
-/
namespace FormatPreview.Diff

/-! Blocks. -/

/-- The number of items of a side that changed blocks run over. -/
def changedLength (side : Side) (bl : List Block) : Nat :=
  ((bl.filter (·.changed)).map fun b => (b.span side).length).sum

@[simp] theorem changedLength_cons (side : Side) (b : Block) (bl : List Block) :
    changedLength side (b :: bl) =
      (if b.changed then (b.span side).length else 0) + changedLength side bl := by
  cases changed : b.changed <;> simp [changedLength, changed]

theorem span_change (side : Side) (run : List Edit) :
    ((Block.change run).span side).length = amount side.changed run := by
  cases side <;>
  · apply congrArg List.sum
    apply List.map_congr_left
    intro e mem
    have kind := of_decide_eq_true (List.mem_filter.1 mem).2
    cases e <;> first | rfl | cases kind

theorem amount_of_kept {run : List Edit} (kept : ∀ e ∈ run, e.kind = .kept) (side : Side) :
    amount side.changed run = 0 := by
  have none : run.filter (·.kind = side.changed) = [] := by
    rw [List.filter_eq_nil_iff]
    intro e mem
    rw [kept e mem]
    cases side <;> decide
  rw [amount, none, List.map_nil, List.sum_nil]

/-- The changed blocks of a script run over what it deletes and inserts. -/
theorem changedLength_blocks (side : Side) (edits : List Edit) :
    changedLength side (blocks edits) = amount side.changed edits := by
  have each : ∀ runs ⊆ edits.splitBy together,
      changedLength side (runs.map fun run =>
        if run.all (·.kind = .kept) then Block.kept run else Block.change run) =
          amount side.changed runs.flatten := by
    intro runs all
    induction runs with
    | nil => rfl
    | cons run runs ih =>
      obtain ⟨mem, later⟩ := List.cons_subset.1 all
      rw [List.map_cons, changedLength_cons, ih later, List.flatten_cons, amount_append]
      congr 1
      by_cases kept : run.all (·.kind = .kept) = true
      · rw [if_pos kept, amount_of_kept (by simpa using kept)]
        rfl
      · rw [if_neg kept, span_change]
        rfl
  have whole := each _ (List.Subset.refl _)
  rwa [List.flatten_splitBy] at whole

/-! Grouping. -/

theorem filter_trimFront (bl : List Block) :
    (trimFront bl).filter (·.changed) = bl.filter (·.changed) := by
  cases bl with
  | nil => rfl
  | cons b rest =>
    cases changed : b.changed <;> simp [trimFront, changed, Block.takeBack, Block.dropFront]

theorem filter_trimBack (bl : List Block) :
    (trimBack bl).filter (·.changed) = bl.filter (·.changed) := by
  fun_induction trimBack bl with
  | case1 => rfl
  | case2 => rfl
  | case3 b kept => simp [kept, Block.takeFront]
  | case4 b next rest ih => rw [List.filter_cons, List.filter_cons, ih]

theorem filter_hunksFrom (current rest : List Block) :
    (hunksFrom current rest).flatten.filter (·.changed) =
      (current.reverse ++ rest).filter (·.changed) := by
  fun_induction hunksFrom current rest with
  | case1 current change => simp
  | case2 current none =>
    have none : ∀ b ∈ current, b.changed = false := by simpa using none
    simp only [List.flatten_nil, List.filter_nil, List.append_nil]
    exact (List.filter_eq_nil_iff.2 fun b mem => by simp [none b (by simpa using mem)]).symm
  | case3 current b rest long ih =>
    have kept : b.changed = false := (long_iff.1 long).1
    have front : (b.takeFront context).changed = false := kept
    have back : (b.takeBack context).changed = false := kept
    rw [List.flatten_cons, List.filter_append, ih]
    simp [kept, front, back]
  | case4 current b rest short ih => simp [ih]

section

variable {α : Type} [DecidableEq α]

/-- The changes of all hunks are those of the script. -/
theorem changedLength_hunks (as bs : List α) (side : Side) :
    changedLength side (hunks as bs).flatten + commonLength as bs = (side.items as bs).length := by
  have whole := amount_compact as bs
  have same : changedLength side (hunks as bs).flatten =
      changedLength side (scriptBlocks as bs) := by
    rw [changedLength, hunks, filter_hunksFrom, List.reverse_nil, List.nil_append, filter_trimBack,
      filter_trimFront]
    rfl
  rw [same, scriptBlocks, changedLength_blocks]
  cases side
  · exact whole.2.1
  · exact whole.2.2

end

/-! Marked lines. -/

variable {as bs : List String} {p q : Cut} {b : Block}

theorem Block.Leads.countP_lines (here : b.Leads as bs p q) (side : Side) :
    (b.lines as bs).countP (·.1 = side.changed) =
      if b.changed then (b.span side).length else 0 := by
  have length := here.length_of side
  unfold Block.lines
  cases side <;> cases b.changed <;>
    simp_all [Side.changed, Side.items, Block.span, List.countP_map, Function.comp_def]

theorem marks_readings (as bs : List String) (side : Side) :
    marks side.changed (readings as bs) = changedLength side (hunks as bs).flatten := by
  have each : ∀ bl ⊆ (hunks as bs).flatten,
      (bl.flatMap (Block.lines as bs)).countP (·.1 = side.changed) = changedLength side bl := by
    intro bl all
    induction bl with
    | nil => rfl
    | cons b bl ih =>
      obtain ⟨mem, later⟩ := List.cons_subset.1 all
      obtain ⟨h, hunk, inside⟩ := List.mem_flatten.1 mem
      obtain ⟨_, _, _, _, framed⟩ := exists_framed_hunk hunk
      obtain ⟨_, _, here⟩ := framed.route.exists_step inside
      rw [List.flatMap_cons, List.countP_append, ih later, here.countP_lines, changedLength_cons]
  have lines : (readings as bs).flatMap (·.lines) =
      (hunks as bs).flatten.flatMap (Block.lines as bs) := by
    rw [readings, List.flatMap_map, List.flatten_eq_flatMap, List.flatMap_assoc]
    rfl
  rw [marks, lines, each _ (List.Subset.refl _)]

/-- Whether a line of a patch begins with the mark of the lines that a side alone shows. -/
def Side.marks (side : Side) (text : String) : Bool :=
  text.toList.head? = side.changed.mark.toList.head?

theorem countP_printedLine (side : Side) (line : Edit.Kind × String) :
    (printedLine line).countP side.marks = if line.1 = side.changed then 1 else 0 := by
  obtain ⟨kind, text⟩ := line
  unfold printedLine
  cases kind <;> cases side <;> split <;>
    simp [Side.marks, Side.changed, Edit.Kind.mark, Reading.remark]

theorem countP_lines (side : Side) (lines : List (Edit.Kind × String)) :
    (lines.flatMap printedLine).countP side.marks = lines.countP (·.1 = side.changed) := by
  induction lines with
  | nil => rfl
  | cons line lines ih =>
    rw [List.flatMap_cons, List.countP_append, ih, countP_printedLine, List.countP_cons,
      Nat.add_comm]
    simp

theorem countP_printed (side : Side) (sections : List Section) :
    (sections.flatMap Section.printed).countP side.marks = marks side.changed sections := by
  induction sections with
  | nil => rfl
  | cons s sections ih =>
    have header : side.marks s.header = false := by
      cases side <;> simp [Side.marks, Side.changed, Edit.Kind.mark, Section.header]
    rw [List.flatMap_cons, List.countP_append, ih, marks_append, Section.printed,
      List.countP_cons_of_neg (by simp [header]), countP_lines]

/-- The lines of printed hunks that begin with a mark are the lines of that kind. -/
theorem countP_hunkText (content formatted : String) (side : Side) :
    (Text.lines (hunkText (Text.lines content) (Text.lines formatted))).countP side.marks =
      marks side.changed (readings (Text.lines content) (Text.lines formatted)) := by
  have separate : ∀ text ∈ (readings (Text.lines content) (Text.lines formatted)).flatMap
      Section.printed, Text.Separate text := by
    intro text mem
    obtain ⟨s, inside, mem⟩ := List.mem_flatMap.1 mem
    exact separate_printed (isLine_of_reading inside) text mem
  rw [hunkText_eq, Text.lines_join separate, countP_printed]

end FormatPreview.Diff

namespace FormatPreview.Comparison

open Diff

/-- A patch marks as deleted, and as inserted, exactly the lines that are left over beside a longest
common list of the lines of both texts. -/
theorem patch_shortest (name content formatted : String) (differ : content ≠ formatted) :
    let c : Comparison := ⟨name, content, formatted⟩
    let old := Text.lines content
    let new := Text.lines formatted
    ∃ (hunkText : String) (common : List String),
      c.patch = "--- a/" ++ name ++ "\n+++ b/" ++ name ++ "\n" ++ hunkText ∧
      (common.Sublist old ∧ common.Sublist new ∧
        ∀ other : List String, other.Sublist old → other.Sublist new →
          other.length ≤ common.length) ∧
      (Text.lines hunkText).countP (·.toList.head? = some '-') = old.length - common.length ∧
      (Text.lines hunkText).countP (·.toList.head? = some '+') = new.length - common.length := by
  intro c old new
  obtain ⟨common, stands, length⟩ := exists_common old new
  have differs : c.differs = true := by simpa [c, Comparison.differs] using differ
  have counted (side : Side) :
      (Text.lines (hunkText old new)).countP side.marks + common.length =
        (side.items old new).length := by
    rw [countP_hunkText, marks_readings, length, changedLength_hunks]
  refine ⟨hunkText old new, common, ?_, ⟨stands.old, stands.new, fun other first second => ?_⟩,
    Nat.eq_sub_of_add_eq (counted .old), Nat.eq_sub_of_add_eq (counted .new)⟩
  · rw [Comparison.patch, if_pos differs]
    exact patch_eq name differ
  · rw [length]
    exact Common.length_le ⟨first, second⟩

theorem patch_shortest_swapped :
    let c : Comparison := ⟨"x", "a\nb\nc\na\nb\nb\na\n", "c\nb\na\nb\na\nc\n"⟩
    c.content ≠ c.formatted ∧ ∃ (hunkText : String) (common : List String),
      c.patch = "--- a/x\n+++ b/x\n" ++ hunkText ∧
      (common.Sublist (Text.lines c.content) ∧ common.Sublist (Text.lines c.formatted) ∧
        common.length = 4) ∧
      (Text.lines hunkText).countP (·.toList.head? = some '-') = 3 ∧
      (Text.lines hunkText).countP (·.toList.head? = some '+') = 2 := by
  intro c
  have differ : c.content ≠ c.formatted := by decide
  obtain ⟨hunkText, common, text, ⟨old, new, _⟩, deleted, inserted⟩ :=
    patch_shortest "x" c.content c.formatted differ
  have oldLength : (Text.lines c.content).length = 7 := by cbv
  have newLength : (Text.lines c.formatted).length = 6 := by cbv
  have whole : c.patch = "--- a/x\n+++ b/x\n" ++
      "@@ -1,7 +1,6 @@\n-a\n-b\n c\n-a\n b\n+a\n b\n a\n+c\n" := by cbv
  have read : "@@ -1,7 +1,6 @@\n-a\n-b\n c\n-a\n b\n+a\n b\n a\n+c\n" = hunkText :=
    String.append_right_inj _ |>.1 (whole.symm.trans text)
  have marks : (Text.lines "@@ -1,7 +1,6 @@\n-a\n-b\n c\n-a\n b\n+a\n b\n a\n+c\n").countP
      (·.toList.head? = some '-') = 3 := by cbv
  rw [read] at marks
  have length : common.length = 4 := by omega
  exact ⟨differ, hunkText, common, text, ⟨old, new, length⟩, marks, by omega⟩

end FormatPreview.Comparison
