import FormatPreview.Proofs.Loading
import FormatPreview.Proofs.Run

/-!
Paths with their contents. They are paired by position and checked as one batch, and a run on
targets that name such files reports on the same batch: loading plain paths, none of them twice,
pairs each with what is read from it.
-/
namespace FormatPreview

variable {source : FileSource} {engine : Engine} {options : Options} {limit : Option Nat}

theorem getElem?_sourceFiles (paths contents : List String) (i : Nat) :
    (sourceFiles paths contents)[i]? =
      paths[i]?.map fun path => ⟨path, contents[i]?.getD ""⟩ := by
  fun_induction sourceFiles paths contents generalizing i with
  | case1 => simp
  | case2 path paths ih => cases i <;> simp [ih]
  | case3 path paths content contents ih => cases i <;> simp [ih]

theorem length_sourceFiles (paths contents : List String) :
    (sourceFiles paths contents).length = paths.length := by
  fun_induction sourceFiles paths contents with simp_all

/-- Contents past the last path are left aside. -/
theorem sourceFiles_take (paths contents : List String) :
    sourceFiles paths (contents.take paths.length) = sourceFiles paths contents := by
  fun_induction sourceFiles paths contents with simp_all [sourceFiles]

namespace Batch

variable {check : SourceFile → Checked} {files : List SourceFile}

/-- Whatever the order in which the checks finish, each leaves its events and its calls. -/
theorem run_perm {order other : List Nat} (perm : order.Perm other) :
    (run check files order).events.Perm (run check files other).events ∧
      (run check files order).calls.Perm (run check files other).calls := by
  have same : (finished check files order).Perm (finished check files other) := perm.filterMap _
  exact ⟨same.filterMap _, same.flatMap_right _⟩

theorem level_of_mem_events {order : List Nat} {e : Event}
    (mem : e ∈ (run check files order).events) : e.level = .error := by
  obtain ⟨⟨i, checked⟩, _, failed⟩ := List.mem_filterMap.1 mem
  unfold failureEvent? at failed
  split at failed
  · simp at failed
  · rw [← Option.some.inj failed]
    rfl

end Batch

theorem path_of_ok {file : SourceFile} {c : Comparison}
    (h : (checkFile engine options limit file).result = .ok c) : c.path = file.path := by
  rcases checkFile_result engine options limit file with ⟨most, _, _, result⟩ | ⟨_, result⟩
  · simp [result] at h
  · rw [result] at h
    cases ending : (formatFile engine options file).work.ending <;>
      simp [ending, endingResult] at h
    simp [← h]

/-- A slot shows its file as it was, with the result of its check or as if nothing differed. -/
theorem shown_cases (engine : Engine) (options : Options) (limit : Option Nat) (file : SourceFile) :
    let c := Batch.shown (checkFile engine options limit) file
    c.path = file.path ∧ c.content = file.content ∧
      ((checkFile engine options limit file).result = .ok c ∨
        (∃ e, (checkFile engine options limit file).result = .error e) ∧
          c = .unchanged file.path file.content) := by
  cases result : (checkFile engine options limit file).result with
  | ok c =>
    simp [Batch.shown, result, Except.toOption, path_of_ok result, content_of_ok result]
  | error e => simp [Batch.shown, result, Except.toOption, Comparison.unchanged]

/-- The targets are paths of their own that can be read, and these are their contents. -/
structure FileSource.Holds (source : FileSource) (targets contents : List String) : Prop where
  some : targets ≠ []
  literal : ∀ t ∈ targets, Pattern.isPattern t = false
  apart : targets.Pairwise fun a b => Path.same a b = false
  read : List.Forall₂ (fun t content => source.read t = .ok content) targets contents

/-- Paths that have not come up are all added. -/
theorem foldl_keepFirst_of_apart {found named : List Found}
    (apart : (found ++ named).Pairwise fun f g => Path.same f.path g.path = false) :
    named.foldl keepFirst found = found ++ named := by
  induction named generalizing found with
  | nil => simp
  | cons f rest ih =>
    have new : ¬ found.any (fun g => Path.same g.path f.path) = true := by
      have before := (List.pairwise_append.1 apart).2.2
      simpa using fun g mem => before g mem f (by simp)
    have step : keepFirst found f = found ++ [f] := by
      rw [keepFirst, addFound, if_neg new]
    rw [List.foldl_cons, step, ih (by simpa using apart)]
    simp

theorem found_of_literal {targets : List String}
    (literal : ∀ t ∈ targets, Pattern.isPattern t = false)
    (apart : targets.Pairwise fun a b => Path.same a b = false) :
    source.found targets = targets.map fun t => ⟨t, false⟩ := by
  have named : targets.flatMap source.names = targets.map fun t => ⟨t, false⟩ := by
    induction targets with
    | nil => rfl
    | cons t rest ih =>
      have further := ih (fun u mem => literal u (by simp [mem])) (List.pairwise_cons.1 apart).2
      rw [List.flatMap_cons, names_of_literal (literal t (by simp)), further]
      rfl
  rw [FileSource.found, named, foldl_keepFirst_of_apart (by simpa [List.pairwise_map] using apart)]
  rfl

theorem readFound_of_read {targets contents : List String}
    (read : List.Forall₂ (fun t content => source.read t = .ok content) targets contents) :
    readFound source (targets.map fun t => ⟨t, false⟩) =
      ([], .ok (sourceFiles targets contents)) := by
  induction read with
  | nil => rfl
  | cons here _ ih => simp [readFound, here, ih, sourceFiles, Except.map]

theorem load_of_holds {targets contents : List String} (holds : source.Holds targets contents) :
    load source targets = ([], .ok (sourceFiles targets contents)) := by
  have expands : source.Expands targets := by
    intro t mem pattern
    simp [holds.literal t mem] at pattern
  have found : source.found targets = targets.map fun t => ⟨t, false⟩ :=
    found_of_literal holds.literal holds.apart
  have resolves : Resolves source targets :=
    ⟨resolved_of_expands expands _, by simp [found, holds.some]⟩
  have files : (load source targets).2 = .ok (sourceFiles targets contents) := by
    rw [load_of_resolves resolves, found, readFound_of_read holds.read]
  have quiet : targets.filter source.unmatched = [] := by
    simpa [FileSource.unmatched] using fun t mem pattern => by simp [holds.literal t mem] at pattern
  refine Prod.ext ?_ files
  rw [(load_of_ok files).2.2, found, readFound_of_read holds.read, quiet]
  rfl

/-- What a batch has to say of paths with their contents. -/
structure Paired (engine : Engine) (options : Options) (limit : Option Nat)
    (paths contents : List String) (batch : BatchResult) : Prop where
  length : batch.results.length = paths.length
  slot : ∀ (i : Nat) (path : String), paths[i]? = some path →
    let file : SourceFile := ⟨path, contents[i]?.getD ""⟩
    ∃ c, batch.results[i]? = some c ∧ c.path = path ∧ c.content = file.content ∧
      ((checkFile engine options limit file).result = .ok c ∨
        (∃ e, (checkFile engine options limit file).result = .error e) ∧
          c = .unchanged path file.content)
  /-- Contents past the last path make no difference. -/
  surplus : checkContents engine options limit paths (contents.take paths.length) = some batch
  /-- Nor does the order in which the checks finish, save to the order of events and calls. -/
  unordered : ∀ order : List Nat, order.Perm (List.range paths.length) →
    let other := Batch.run (checkFile engine options limit) (sourceFiles paths contents) order
    other.results = batch.results ∧ other.events.Perm batch.events ∧ other.calls.Perm batch.calls

theorem paired_checkFiles (engine : Engine) (options : Options) (limit : Option Nat)
    (paths contents : List String) (compares : options.compares = true) :
    Paired engine options limit paths contents
      (checkFiles engine options limit (sourceFiles paths contents)) := by
  have results : (checkFiles engine options limit (sourceFiles paths contents)).results =
      (sourceFiles paths contents).map (Batch.shown (checkFile engine options limit)) :=
    Batch.results_run (.refl _)
  have length := length_sourceFiles paths contents
  constructor
  · rw [results, List.length_map, length]
  · intro i path here file
    have paired : (sourceFiles paths contents)[i]? = some file := by
      simp [getElem?_sourceFiles, here, file]
    refine ⟨_, by rw [results, List.getElem?_map, paired, Option.map_some], ?_⟩
    exact shown_cases engine options limit file
  · rw [checkContents, if_pos compares, sourceFiles_take]
  · intro order complete other
    rw [← length] at complete
    exact ⟨(Batch.results_run complete).trans results.symm, Batch.run_perm complete⟩

/-- Whether an event is more than a trace. -/
def Event.warns (e : Event) : Bool := e.level ≠ .debug

/-- What a run logs of a batch: a trace of its calls and of its end, and its failures. -/
def BatchResult.log (batch : BatchResult) : List Event :=
  (batch.calls.map fun call =>
      Event.formatStart (call.options.filepath.getD "") call.options.parser) ++
    batch.events ++ [.complete batch.results.length]

theorem filter_log (engine : Engine) (options : Options) (limit : Option Nat)
    (files : List SourceFile) :
    (checkFiles engine options limit files).log.filter Event.warns =
      (checkFiles engine options limit files).events := by
  have failures : ∀ e ∈ (checkFiles engine options limit files).events, e.warns = true := by
    intro e mem
    simp [Event.warns, Batch.level_of_mem_events mem]
  simp [BatchResult.log, List.filter_append, List.filter_eq_self.2 failures, List.filter_map,
    Function.comp_def, Event.warns, Event.level]

theorem run_of_holds {arguments : Arguments} {contents : List String}
    (holds : source.Holds arguments.targets contents) (engine : Engine) (limit : Option Nat)
    (on : Bool) (sink : Sink) :
    let batch := checkFiles engine arguments.options limit
      (sourceFiles arguments.targets contents)
    let report := writeReport sink (arguments.form on) batch.results
    run source engine limit arguments on sink =
      ⟨report.2.mapError .output, report.1, batch.log, batch.calls⟩ := by
  simp [run, load_of_holds holds, BatchResult.log]

/-- Paths with contents are checked only on demand, and then each by its position. A run on targets
that hold contents reports on the batch of these paths and contents. -/
theorem contents_checked_as_run (engine : Engine) (limit : Option Nat) :
    (∀ options paths contents, options.compares = false →
      checkContents engine options limit paths contents = none) ∧
    (∀ options paths contents, options.compares = true → ∃ batch,
      checkContents engine options limit paths contents = some batch ∧
        Paired engine options limit paths contents batch) ∧
    ∀ (source : FileSource) (arguments : Arguments) (on : Bool) (sink : Sink)
      (contents : List String), source.Holds arguments.targets contents → ∃ batch,
      checkContents engine { Options.comparing with parser := arguments.parser } limit
          arguments.targets contents = some batch ∧
        let r := run source engine limit arguments on sink
        let report := writeReport sink (arguments.form on) batch.results
        r.sink = report.1 ∧ r.outcome = report.2.mapError .output ∧ r.calls = batch.calls ∧
          r.events = batch.log ∧ r.events.filter Event.warns = batch.events := by
  refine ⟨?_, ?_, ?_⟩
  · intro options paths contents off
    simp [checkContents, off]
  · intro options paths contents compares
    exact ⟨_, if_pos compares, paired_checkFiles engine options limit paths contents compares⟩
  · intro source arguments on sink contents holds
    refine ⟨_, if_pos rfl, ?_⟩
    rw [run_of_holds holds]
    exact ⟨rfl, rfl, rfl, rfl, filter_log ..⟩

/-- Every path is a file that holds its own name. -/
def FileSource.echoing : FileSource where
  read path := .ok path
  expand _ := .ok []

theorem contents_checked_as_run_echoing :
    let engine := Batch.feedingSave "b.js" (.failed (.of "denied"))
    let arguments : Arguments := { targets := ["a.js", "b.js"], noColor := true, parser := none }
    checkContents engine .unset none ["a.js"] [] = none ∧
      Options.comparing.compares = true ∧
      (∃ batch, checkContents engine .comparing none ["a.js", "b.js"] ["", "x", "y"] = some batch ∧
        Paired engine .comparing none ["a.js", "b.js"] ["", "x", "y"] batch) ∧
      FileSource.echoing.Holds arguments.targets ["a.js", "b.js"] ∧
      ∃ batch, checkContents engine .comparing none ["a.js", "b.js"] ["a.js", "b.js"] = some batch ∧
        (run .echoing engine none arguments true (.empty none)).events = batch.log := by
  intro engine arguments
  obtain ⟨off, on, same⟩ := contents_checked_as_run engine none
  have literal : ∀ t ∈ arguments.targets, Pattern.isPattern t = false := by
    simp only [arguments, List.mem_cons, List.not_mem_nil, or_false]
    rintro t (rfl | rfl)
    · cbv
    · cbv
  have holds : FileSource.echoing.Holds arguments.targets ["a.js", "b.js"] :=
    ⟨by simp [arguments], literal, by decide, .cons rfl (.cons rfl .nil)⟩
  obtain ⟨batch, checked, _, _, _, events, _⟩ :=
    same .echoing arguments true (.empty none) ["a.js", "b.js"] holds
  exact ⟨off _ _ _ rfl, rfl, on _ _ _ rfl, holds, batch, checked, events⟩

end FormatPreview
