import FormatPreview.Report
import FormatPreview.Proofs.Text.Utf8

/-!
Writing reports. A report is cut short when its sink fails at one of the pieces, given the pieces
before it. Otherwise the outcome tells whether any file differs.
-/
namespace FormatPreview

namespace Sink

/-- The sink fails at one of the texts once those before it have been written. -/
def FailsAmong (s : Sink) (texts : List String) : Prop :=
  ∃ before text after, texts = before ++ text :: after ∧
    (s.failure? (s.pieces ++ before.map Text.encode) (Text.encode text)).isSome

@[simp] theorem not_failsAmong_nil (s : Sink) : ¬ s.FailsAmong [] := by
  simp [FailsAmong]

def took (s : Sink) (text : String) : Sink :=
  { s with pieces := s.pieces ++ [Text.encode text] }

theorem failsAmong_cons (s : Sink) (text : String) (rest : List String) :
    s.FailsAmong (text :: rest) ↔
      (s.failure? s.pieces (Text.encode text)).isSome ∨ (s.took text).FailsAmong rest := by
  constructor
  · rintro ⟨before, piece, after, cut, fails⟩
    cases before with
    | nil =>
      obtain ⟨rfl, rfl⟩ := List.cons.inj cut
      exact .inl (by simpa using fails)
    | cons first before =>
      obtain ⟨rfl, rfl⟩ := List.cons.inj cut
      exact .inr ⟨before, piece, after, rfl, by simpa [took] using fails⟩
  · rintro (fails | ⟨before, piece, after, rfl, fails⟩)
    · exact ⟨[], text, rest, rfl, by simpa using fails⟩
    · exact ⟨text :: before, piece, after, rfl, by simpa [took] using fails⟩

theorem writeAll_error_iff (s : Sink) (texts : List String) :
    (∃ e, (s.writeAll texts).2 = .error e) ↔ s.FailsAmong texts := by
  induction texts generalizing s with
  | nil => simp [writeAll]
  | cons text rest ih =>
    rw [failsAmong_cons, ← ih]
    cases fails : s.failure? s.pieces (Text.encode text) with
    | none => simp [writeAll, write, fails, took]
    | some failure => simp [writeAll, write, fails]

/-- A sink that does not fail takes all the texts. -/
theorem writeAll_of_not_fails {s : Sink} {texts : List String} (takes : ¬ s.FailsAmong texts) :
    s.writeAll texts = ({ s with pieces := s.pieces ++ texts.map Text.encode }, .ok ()) := by
  induction texts generalizing s with
  | nil => simp [writeAll]
  | cons text rest ih =>
    rw [failsAmong_cons, not_or, Option.not_isSome_iff_eq_none] at takes
    have further := ih takes.2
    simp only [took, List.append_assoc, List.singleton_append] at further
    simp [writeAll, write, takes.1, further]

theorem empty_takes (texts : List String) : ¬ (empty none).FailsAmong texts := by
  simp [FailsAmong, empty]

end Sink

theorem Outcome.of_noFiles_iff (results : List Comparison) :
    Outcome.of results = .noFiles ↔ results = [] := by
  unfold Outcome.of
  cases results with
  | nil => simp
  | cons c rest =>
    simp only [List.isEmpty_cons, Bool.false_eq_true, if_false]
    split <;> simp

theorem Outcome.of_needsFormatting_iff (results : List Comparison) :
    Outcome.of results = .formattingNeeded ↔ ∃ c ∈ results, c.differs = true := by
  unfold Outcome.of
  cases results with
  | nil => simp
  | cons c rest => cases differs : c.differs <;> simp [differs]

/-- A report fails with its sink, or tells the outcome. -/
theorem writeReport_cases (sink : Sink) (form : Form) (results : List Comparison) :
    (sink.FailsAmong (reportTexts form results) ∧
      ∃ e, (writeReport sink form results).2 = .error e) ∨
    ¬ sink.FailsAmong (reportTexts form results) ∧
      (writeReport sink form results).2 = .ok (Outcome.of results) := by
  have fails := sink.writeAll_error_iff (reportTexts form results)
  cases written : (sink.writeAll (reportTexts form results)).2 with
  | error e => exact .inl ⟨fails.1 ⟨e, written⟩, e, by simp [writeReport, written, Except.map]⟩
  | ok =>
    refine .inr ⟨fun among => ?_, by simp [writeReport, written, Except.map]⟩
    obtain ⟨e, failed⟩ := fails.2 among
    simp [written] at failed

end FormatPreview
