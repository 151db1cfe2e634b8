import FormatPreview.Proofs.Limit

/-!
The summary of a report. A file is shown in a block of its own, is counted as one that needs
formatting and decides the outcome on the same condition: its two texts differ. The counts of a batch
are sums over its parts, so of all that is reported only the blocks depend on the order of the files.
-/
namespace FormatPreview

namespace Stats

theorem ext_counts {s t : Stats} (total : s.total = t.total) (differing : s.differing = t.differing) :
    s = t := by
  cases s
  cases t
  simp_all

/-- The counts make up the whole: nothing is cut off where one is taken from another. -/
theorem formatted_add_differing (s : Stats) : s.formatted + s.differing = s.total :=
  Nat.sub_add_cancel s.differing_le_total

theorem differing_of (results : List Comparison) :
    (of results).differing = (results.filter fun c => c.content ≠ c.formatted).length :=
  List.countP_eq_length_filter

theorem formatted_of (results : List Comparison) :
    (of results).formatted = (results.filter fun c => c.content = c.formatted).length := by
  have whole := (of results).formatted_add_differing
  have parts := results.length_eq_countP_add_countP fun c => decide (c.content = c.formatted)
  have total : (of results).total = results.length := rfl
  simp only [decide_eq_true_eq, List.countP_eq_length_filter] at parts
  simp only [differing_of, total, ne_eq] at whole
  omega

/-- The counts of two batches one after the other. -/
theorem of_append (first second : List Comparison) :
    (of (first ++ second)).total = (of first).total + (of second).total ∧
      (of (first ++ second)).differing = (of first).differing + (of second).differing ∧
      (of (first ++ second)).formatted = (of first).formatted + (of second).formatted := by
  have total : (of (first ++ second)).total = (of first).total + (of second).total :=
    List.length_append
  have differing :
      (of (first ++ second)).differing = (of first).differing + (of second).differing :=
    List.countP_append
  have whole := (of (first ++ second)).formatted_add_differing
  have left := (of first).formatted_add_differing
  have right := (of second).formatted_add_differing
  exact ⟨total, differing, by omega⟩

theorem of_perm {results others : List Comparison} (perm : results.Perm others) :
    of results = of others :=
  ext_counts perm.length_eq (perm.countP_eq _)

end Stats

theorem Outcome.of_perm {results others : List Comparison} (perm : results.Perm others) :
    Outcome.of results = Outcome.of others := by
  have empty : results.isEmpty = others.isEmpty := by
    rw [Bool.eq_iff_iff, List.isEmpty_iff, List.isEmpty_iff, ← List.perm_nil, ← List.perm_nil]
    exact perm.congr_left []
  rw [Outcome.of, Outcome.of, perm.any_eq, empty]

/-- What a report shows of a file. -/
def Form.block (form : Form) (c : Comparison) : String := form.comparison c ++ "\n"

/-- The blocks of a report: one for each file whose texts differ, in their order. -/
def blocks (form : Form) (results : List Comparison) : List String :=
  (results.filter fun c => c.content ≠ c.formatted).map form.block

theorem length_blocks (form : Form) (results : List Comparison) :
    (blocks form results).length = (Stats.of results).differing := by
  rw [blocks, List.length_map, Stats.differing_of]

theorem join_reportTexts (form : Form) {results : List Comparison} (some : results ≠ []) :
    String.join (reportTexts form results) =
      String.join (blocks form results) ++ ("\n" ++ form.stats (Stats.of results) ++ "\n") := by
  have pieces : String.join ((results.filter (·.differs)).flatMap fun c =>
      [form.comparison c, "\n"]) = String.join (blocks form results) := by
    rw [blocks]
    change _ = String.join ((results.filter (·.differs)).map form.block)
    induction results.filter (·.differs) with
    | nil => rfl
    | cons c rest ih => simp [Form.block, ih, String.append_assoc]
  rw [reportTexts, if_neg (by simpa using some), String.join_append, pieces]
  simp [String.append_assoc]

/-- A report on a batch, with its counts: what is shown, what is counted and how it ends agree. -/
structure Agrees (form : Form) (results : List Comparison) (stats : Stats)
    (report : Sink × Except SinkError Outcome) : Prop where
  written : report.1.bytes = Text.encode (if results = [] then "No files to check.\n"
    else String.join (blocks form results) ++ ("\n" ++ form.stats stats ++ "\n"))
  shown : (blocks form results).length = stats.differing
  ordered : (blocks form results).Sublist (results.map form.block)
  differing : stats.differing = (results.filter fun c => c.content ≠ c.formatted).length
  formatted : stats.formatted = (results.filter fun c => c.content = c.formatted).length
  whole : stats.formatted + stats.differing = stats.total
  total : stats.total = results.length
  outcome : ∃ o, report.2 = .ok o ∧ (o = .noFiles ↔ results = []) ∧
    (o = .formattingNeeded ↔ 0 < (blocks form results).length)

theorem agrees_report (form : Form) (results : List Comparison) :
    Agrees form results (Stats.of results) (writeReport (.empty none) form results) where
  written := by
    rw [(written_whole form results).1]
    split
    · next none => rw [none]; rfl
    · next some => rw [join_reportTexts form some]
  shown := length_blocks form results
  ordered := List.filter_sublist.map form.block
  differing := Stats.differing_of results
  formatted := Stats.formatted_of results
  whole := (Stats.of results).formatted_add_differing
  total := rfl
  outcome := by
    refine ⟨_, (written_whole form results).2, Outcome.of_noFiles_iff results, ?_⟩
    rw [Outcome.of_needsFormatting_iff, blocks, List.length_map, List.length_filter_pos_iff]
    simp [Comparison.differs]

/-- The readings of a report agree. Batches put together add up in each count, and the order of a
batch shows in the order of the blocks alone. -/
theorem readings_agree (form : Form) :
    (∀ results,
      Agrees form results (Stats.of results) (writeReport (.empty none) form results)) ∧
    (∀ first second, let both := Stats.of (first ++ second)
      both.total = (Stats.of first).total + (Stats.of second).total ∧
        both.differing = (Stats.of first).differing + (Stats.of second).differing ∧
        both.formatted = (Stats.of first).formatted + (Stats.of second).formatted) ∧
    ∀ results others : List Comparison, results.Perm others →
      form.stats (Stats.of results) = form.stats (Stats.of others) ∧
        (writeReport (.empty none) form results).2 = (writeReport (.empty none) form others).2 ∧
        (blocks form results).Perm (blocks form others) := by
  refine ⟨agrees_report form, Stats.of_append, fun results others perm => ⟨?_, ?_, ?_⟩⟩
  · rw [Stats.of_perm perm]
  · rw [(written_whole form results).2, (written_whole form others).2, Outcome.of_perm perm]
  · exact (perm.filter _).map _

theorem readings_agree_swapped :
    let dirty : Comparison := ⟨"x", "a\n", "b\n"⟩
    let clean : Comparison := .unchanged "y" "c"
    (blocks .plain [dirty, clean]).length = 1 ∧
      (Stats.of [clean, dirty]).plain = (Stats.of [dirty, clean]).plain ∧
      (writeReport (.empty none) .plain [clean, dirty]).2 = .ok .formattingNeeded := by
  intro dirty clean
  obtain ⟨agree, -, reordered⟩ := readings_agree .plain
  obtain ⟨summary, outcome, -⟩ := reordered [clean, dirty] [dirty, clean] (.swap ..)
  refine ⟨(agree [dirty, clean]).shown.trans (by decide), summary, ?_⟩
  rw [outcome, (written_whole .plain [dirty, clean]).2]
  rfl

end FormatPreview
