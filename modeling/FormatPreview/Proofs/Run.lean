import FormatPreview.Proofs.Batch
import FormatPreview.Proofs.Report
import FormatPreview.Proofs.Targets
import FormatPreview.Run

/-!
The exit code of a run is one exactly when loading fails, the report is cut short, or a file that was
checked differs. A file that could not be checked counts for nothing in this.
-/
namespace FormatPreview

variable {source : FileSource} {engine : Engine} {limit : Option Nat} {arguments : Arguments}
  {on : Bool} {sink : Sink}

/-- The file is checked, and the formatted text is another. -/
def Differs (engine : Engine) (options : Options) (limit : Option Nat) (file : SourceFile) : Prop :=
  ∃ c, (checkFile engine options limit file).result = .ok c ∧ c.formatted ≠ file.content

theorem content_of_ok (h : (checkFile engine options limit file).result = .ok c) :
    c.content = file.content := by
  rcases checkFile_result engine options limit file with ⟨most, _, _, result⟩ | ⟨_, result⟩
  · simp [result] at h
  · rw [result] at h
    cases ending : (formatFile engine options file).work.ending <;>
      simp [ending, endingResult] at h
    simp [← h]

theorem shown_differs_iff (engine : Engine) (options : Options) (limit : Option Nat)
    (file : SourceFile) :
    (Batch.shown (checkFile engine options limit) file).differs = true ↔
      Differs engine options limit file := by
  cases result : (checkFile engine options limit file).result with
  | ok c =>
    have content := content_of_ok result
    simp only [Batch.shown, Differs, result, Except.toOption, Option.getD_some, Comparison.differs,
      content, Except.ok.injEq, exists_eq_left', decide_eq_true_eq]
    exact ne_comm
  | error e =>
    simp [Batch.shown, Differs, result, Except.toOption, Comparison.differs, Comparison.unchanged]

def reported (engine : Engine) (arguments : Arguments) (limit : Option Nat)
    (files : List SourceFile) : List Comparison :=
  files.map (Batch.shown (checkFile engine arguments.options limit))

theorem results_checkFiles (engine : Engine) (arguments : Arguments) (limit : Option Nat)
    (files : List SourceFile) :
    (checkFiles engine arguments.options limit files).results =
      reported engine arguments limit files :=
  Batch.results_run (.refl _)

theorem run_of_error (h : (load source arguments.targets).2 = .error e) :
    run source engine limit arguments on sink =
      ⟨.error (.load e), sink, (load source arguments.targets).1, []⟩ := by
  simp [run, h]

/-- The report of a run on the files that it has loaded. -/
def reportOf (engine : Engine) (arguments : Arguments) (limit : Option Nat) (on : Bool)
    (files : List SourceFile) : List String :=
  reportTexts (arguments.form on) (reported engine arguments limit files)

theorem outcome_of_ok (h : (load source arguments.targets).2 = .ok files) (engine : Engine)
    (limit : Option Nat) (on : Bool) (sink : Sink) :
    (sink.FailsAmong (reportOf engine arguments limit on files) ∧
      ∃ e, (run source engine limit arguments on sink).outcome = .error (.output e)) ∨
    ¬ sink.FailsAmong (reportOf engine arguments limit on files) ∧
      (run source engine limit arguments on sink).outcome =
        .ok (Outcome.of (reported engine arguments limit files)) := by
  have outcome : (run source engine limit arguments on sink).outcome =
      (writeReport sink (arguments.form on) (reported engine arguments limit files)).2.mapError
        .output := by
    simp [run, h, results_checkFiles]
  rw [outcome]
  rcases writeReport_cases sink (arguments.form on) (reported engine arguments limit files) with
    ⟨fails, e, written⟩ | ⟨whole, written⟩
  · exact .inl ⟨fails, e, by simp [written, Except.mapError]⟩
  · exact .inr ⟨whole, by simp [written, Except.mapError]⟩

theorem needsFormatting_reported_iff (engine : Engine) (arguments : Arguments) (limit : Option Nat)
    (files : List SourceFile) :
    Outcome.of (reported engine arguments limit files) = .formattingNeeded ↔
      ∃ file ∈ files, Differs engine arguments.options limit file := by
  simp [Outcome.of_needsFormatting_iff, reported, shown_differs_iff]

theorem Outcome.exitCode_eq_one_iff (o : Outcome) : o.exitCode = 1 ↔ o = .formattingNeeded := by
  cases o <;> decide

theorem exitCode_le_one (r : RunResult) : r.exitCode = 0 ∨ r.exitCode = 1 := by
  unfold RunResult.exitCode
  cases r.outcome with
  | ok o => cases o <;> decide
  | error e => exact .inr rfl

theorem exitCode_of_ok (h : (load source arguments.targets).2 = .ok files) :
    (run source engine limit arguments on sink).exitCode = 1 ↔
      sink.FailsAmong (reportOf engine arguments limit on files) ∨
        ∃ file ∈ files, Differs engine arguments.options limit file := by
  rcases outcome_of_ok h engine limit on sink with ⟨fails, e, outcome⟩ | ⟨whole, outcome⟩
  · simp [RunResult.exitCode, outcome, fails]
  · simp [RunResult.exitCode, outcome, whole, Outcome.exitCode_eq_one_iff,
      needsFormatting_reported_iff]

/-- What the exit code of a run tells. Loading that fails leaves the sink and the engine alone. -/
theorem exitCode_tells (source : FileSource) (engine : Engine) (limit : Option Nat)
    (arguments : Arguments) (on : Bool) (sink : Sink) :
    let r := run source engine limit arguments on sink
    let loaded := (load source arguments.targets).2
    (r.exitCode = 0 ∨ r.exitCode = 1) ∧
      (r.exitCode = 1 ↔ (∃ e, loaded = .error e) ∨ ∃ files, loaded = .ok files ∧
        (sink.FailsAmong (reportOf engine arguments limit on files) ∨
          ∃ file ∈ files, Differs engine arguments.options limit file)) ∧
      (∀ file, Fails engine arguments.options limit file →
        ¬ Differs engine arguments.options limit file) ∧
      (∀ o, r.outcome = .ok o → (o = .noFiles ↔ loaded = .ok [])) ∧
      (loaded = .ok [] ↔ Resolves source arguments.targets ∧
        ∀ f ∈ source.found arguments.targets, f.fromPattern = true ∧ source.Unreadable f.path) ∧
      ∀ e, loaded = .error e → r.outcome = .error (.load e) ∧ r.sink = sink ∧ r.calls = [] ∧
        ∀ other : Engine, run source other limit arguments on sink = r := by
  intro r loaded
  refine ⟨exitCode_le_one r, ?_, ?_, ?_, load_nil_iff .., ?_⟩
  · cases h : loaded with
    | error e => simp [r, run_of_error h, RunResult.exitCode]
    | ok files => simp [r, exitCode_of_ok h]
  · rintro file fails ⟨c, checked, _⟩
    obtain ⟨e, failed⟩ := (error_iff_fails ..).2 fails
    simp [checked] at failed
  · intro o outcome
    cases h : loaded with
    | error e => simp [r, run_of_error h] at outcome
    | ok files =>
      rcases outcome_of_ok h engine limit on sink with ⟨_, e, failed⟩ | ⟨_, told⟩
      · simp [r, failed] at outcome
      · obtain rfl : Outcome.of (reported engine arguments limit files) = o := by
          simpa [r, told] using outcome
        simp [Outcome.of_noFiles_iff, reported]
  · intro e h
    exact ⟨by simp [r, run_of_error h], by simp [r, run_of_error h], by simp [r, run_of_error h],
      fun other => by simp only [r, run_of_error h]⟩

end FormatPreview
