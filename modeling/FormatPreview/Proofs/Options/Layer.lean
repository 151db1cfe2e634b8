import FormatPreview.Proofs.Options
import FormatPreview.Proofs.Task

/-!
Layers of options. What options set is laid over what the base sets, key by key, and the options for
a file name its path besides. So the object that the engine is handed says under each key what the
given options say, or else what those of the project say, and the engine is called with it once.
-/
namespace FormatPreview

namespace Options

variable {layer base o : Options}

theorem member?_written (separate : Separate o) (key : String) :
    o.written.member? key = o.setting? key :=
  lookup_members separate key

theorem member?_toJson (separate : Separate o) (key : String) :
    o.toJson.member? key = o.setting? key := by
  have found : (Dictionary.ofList o.members).get? key = o.members.lookup key :=
    Dictionary.get?_ofList (nodup_members separate) key
  rw [← lookup_members separate, ← found]
  rfl

theorem separate_overlay (top : Separate layer) (under : Separate base) :
    Separate (layer.overlay base) := by
  intro key field
  simp [overlay, Dictionary.get?_overlay, top key field, under key field]

/-- A layer sets what it sets, and leaves the rest to the base. -/
theorem setting?_overlay (layer base : Options) (key : String) :
    (layer.overlay base).setting? key = (layer.setting? key).or (base.setting? key) := by
  rcases key_cases key with rfl | rfl | rfl | own
  · rfl
  · cases parser : layer.parser <;> simp [setting?, overlay, parser]
  · cases filepath : layer.filepath <;> simp [setting?, overlay, filepath]
  · simp [setting?_own _ own, overlay, Dictionary.get?_overlay]

/-- Options under a path of their own set nothing else anew. -/
theorem setting?_under (o : Options) (path key : String) :
    { o with filepath := some path }.setting? key =
      if key = "filepath" then some (.text path) else o.setting? key := by
  by_cases same : key = "filepath"
  · simp [setting?, same]
  · simp [setting?, same]

/-- What two layers of options come to for a file: an object with each key once, that names the path
and says under any other key what the upper layer says, or else the lower one. -/
structure Layered (upper lower : Options) (path : String) (handed : Options) : Prop where
  distinct : (handed.members.map Prod.fst).Nodup
  /-- The text that is written says what the value says. -/
  written : ∀ key, handed.written.member? key = handed.toJson.member? key
  filepath : handed.toJson.member? "filepath" = some (.text path)
  silent : handed.toJson.member? "diffCheck" = none
  other : ∀ key, key ≠ "filepath" →
    handed.toJson.member? key = (upper.toJson.member? key).or (lower.toJson.member? key)

theorem layered_mergedOptions {options : Options} {project : Option Options}
    (upper : Separate options) (lower : ∀ o ∈ project, Separate o) (path : String) :
    Layered options (project.getD .unset) path (mergedOptions options project path) := by
  have under : Separate (project.getD .unset) := by
    cases project with
    | none => exact separate_unset
    | some o => exact lower o rfl
  have handed : Separate (mergedOptions options project path) := separate_overlay upper under
  have set (key : String) : (mergedOptions options project path).toJson.member? key =
      if key = "filepath" then some (.text path)
      else (options.setting? key).or ((project.getD .unset).setting? key) := by
    rw [member?_toJson handed, mergedOptions, setting?_under, setting?_overlay]
  constructor
  · exact nodup_members handed
  · intro key
    rw [member?_written handed, member?_toJson handed]
  · rw [set, if_pos rfl]
  · rw [set]
    rfl
  · intro key apart
    rw [set, if_neg apart, member?_toJson upper, member?_toJson under]

end Options

section

variable {engine : Engine} {options : Options} {file : SourceFile}

theorem formatFile_stopped
    (stopped : ∀ project, (engine.configuration file.path).ending ≠ .done project) :
    (formatFile engine options file).calls = [] := by
  cases resolved : (engine.configuration file.path).ending with
  | done project => exact absurd resolved (stopped project)
  | failed failure => simp [formatFile, resolved]
  | panicked payload => simp [formatFile, resolved]

/-- What fails is the engine, while it resolves the configuration or when it is called. -/
theorem formatFile_failed_iff (failure : Failure) :
    (formatFile engine options file).work.ending = .failed failure ↔
      (engine.configuration file.path).ending = .failed failure ∨
        ∃ call ∈ (checkFile engine options none file).calls,
          (engine.format call.content call.options).ending = .failed failure := by
  cases resolved : (engine.configuration file.path).ending <;>
    simp [checkFile, formatFile, resolved]

/-- A failure of the engine is told with the path of the file. -/
theorem result_engine_iff (path : String) (failure : Failure) :
    (checkFile engine options none file).result = .error (.engine path failure) ↔
      path = file.path ∧ (formatFile engine options file).work.ending = .failed failure := by
  cases ending : (formatFile engine options file).work.ending <;>
    simp [checkFile, endingResult, ending, eq_comm]

end

open Options

/-- The engine is called once, with the content of the file and the options laid over those of its
project, unless the project's cannot be resolved. Options that are not there are as good as options
that set nothing, and what fails in the engine is told with the path of the file. -/
theorem formatted_under_layers (engine : Engine) (options : Options) (file : SourceFile)
    (upper : Separate options) :
    let checked := checkFile engine options none file
    (∀ project, (engine.configuration file.path).ending = .done project →
      (∀ o ∈ project, Separate o) → ∃ handed, checked.calls = [⟨file.content, handed⟩] ∧
        Layered options (project.getD .unset) file.path handed) ∧
    ((∀ project, (engine.configuration file.path).ending ≠ .done project) → checked.calls = []) ∧
    (∀ delay,
      checkFile { engine with configuration := fun _ => ⟨delay, .done none⟩ } options none file =
        checkFile { engine with configuration := fun _ => ⟨delay, .done (some .unset)⟩ } options none
          file) ∧
    ∀ path failure, checked.result = .error (.engine path failure) ↔ path = file.path ∧
      ((engine.configuration file.path).ending = .failed failure ∨ ∃ call ∈ checked.calls,
        (engine.format call.content call.options).ending = .failed failure) := by
  intro checked
  refine ⟨?_, ?_, fun _ => rfl, ?_⟩
  · intro project resolved lower
    refine ⟨_, ?_, layered_mergedOptions upper lower file.path⟩
    simp [checked, checkFile, formatFile_done resolved]
  · intro stopped
    simp [checked, checkFile, formatFile_stopped stopped]
  · intro path failure
    rw [result_engine_iff, formatFile_failed_iff]

/-- Options of a project: a parser, a path and two of the engine's own. -/
def Options.flowing : Options :=
  ⟨true, some "flow", some "b.js", ⟨[("semi", .bool false), ("tabWidth", .ofNat 4)], by decide⟩⟩

/-- An engine that finds these options for every path, and can format nothing. -/
def Engine.refusing (failure : Failure) : Engine where
  configuration _ := ⟨0, .done (some .flowing)⟩
  format _ _ := ⟨0, .failed failure⟩

theorem formatted_under_layers_overlapping :
    let options : Options := comparing.withExtra "semi" (.bool true)
    let checked := checkFile (.refusing (.of "SyntaxError")) options none ⟨"a.js", "a"⟩
    Separate options ∧ Separate .flowing ∧ (∃ handed, checked.calls = [⟨"a", handed⟩] ∧
      handed.toJson.member? "filepath" = some (.text "a.js") ∧
      handed.toJson.member? "semi" = some (.bool true) ∧
      handed.toJson.member? "tabWidth" = some (.ofNat 4) ∧
      handed.toJson.member? "parser" = some (.text "flow")) ∧
    checked.result = .error (.engine "a.js" (.of "SyntaxError")) := by
  intro options checked
  have given : ofJson (.record [("diffCheck", .bool true), ("semi", .bool true)]) = .ok options :=
    rfl
  have found : ofJson (.record [("diffCheck", .bool true), ("filepath", .text "b.js"),
      ("parser", .text "flow"), ("semi", .bool false), ("tabWidth", .ofNat 4)]) = .ok .flowing :=
    rfl
  have upper : Separate options := separate_of_ofJson given
  have lower : Separate .flowing := separate_of_ofJson found
  obtain ⟨called, _, _, failed⟩ :=
    formatted_under_layers (.refusing (.of "SyntaxError")) options ⟨"a.js", "a"⟩ upper
  obtain ⟨handed, once, layered⟩ := called _ rfl (by rintro o ⟨⟩; exact lower)
  have told : checked.result = .error (.engine "a.js" (.of "SyntaxError")) := by
    apply (failed "a.js" _).2
    exact ⟨rfl, .inr ⟨_, by rw [once]; exact List.mem_singleton_self _, rfl⟩⟩
  refine ⟨upper, lower, ⟨handed, once, layered.filepath, ?_, ?_, ?_⟩, told⟩
  · rw [layered.other "semi" (by decide)]
    rfl
  · rw [layered.other "tabWidth" (by decide)]
    rfl
  · rw [layered.other "parser" (by decide)]
    rfl

end FormatPreview
