import FormatPreview.Batch
import Mathlib.Data.List.Induction
import Mathlib.Data.List.Perm.Basic

/-!
Batches come out as if each file were checked alone. While checks finish, a slot holds the result
of its own file or nothing; once all have finished, an empty slot means that the check of its file
failed. So neither the order nor a failure elsewhere shows in a slot.
-/
namespace FormatPreview

/-- How a check can fail. A check that is late has failed however it would have ended. -/
inductive Fails (engine : Engine) (options : Options) (limit : Option Nat) (file : SourceFile) :
    Prop where
  | configurationFailed {failure : Failure}
      (h : (engine.configuration file.path).ending = .failed failure)
  | configurationPanicked {payload : Option String}
      (h : (engine.configuration file.path).ending = .panicked payload)
  | formatFailed {project : Option Options} {failure : Failure}
      (resolved : (engine.configuration file.path).ending = .done project)
      (h : (engine.format file.content (mergedOptions options project file.path)).ending =
        .failed failure)
  | formatPanicked {project : Option Options} {payload : Option String}
      (resolved : (engine.configuration file.path).ending = .done project)
      (h : (engine.format file.content (mergedOptions options project file.path)).ending =
        .panicked payload)
  | late {most : Nat} (limited : limit = some most)
      (h : most < (formatFile engine options file).work.delay)

theorem checkFile_result (engine : Engine) (options : Options) (limit : Option Nat)
    (file : SourceFile) :
    (∃ most, limit = some most ∧ most < (formatFile engine options file).work.delay ∧
      (checkFile engine options limit file).result = .error (.timedOut file.path most)) ∨
    (∀ most, limit = some most → (formatFile engine options file).work.delay ≤ most) ∧
      (checkFile engine options limit file).result =
        endingResult file (formatFile engine options file).work.ending := by
  cases limit with
  | none => exact .inr ⟨by simp, rfl⟩
  | some most =>
    by_cases late : (formatFile engine options file).work.delay ≤ most
    · exact .inr ⟨by simpa using late, by simp [checkFile, late]⟩
    · exact .inl ⟨most, rfl, by omega, by simp [checkFile, late]⟩

theorem endingResult_error : endingResult file ending = .error e →
    (∃ failure, ending = .failed failure) ∨ ∃ payload, ending = .panicked payload := by
  cases ending <;> simp [endingResult]

theorem formatFile_failed {engine : Engine} {options : Options} {file : SourceFile}
    (h : (∃ failure, (formatFile engine options file).work.ending = .failed failure) ∨
      ∃ payload, (formatFile engine options file).work.ending = .panicked payload)
    (limit : Option Nat) : Fails engine options limit file := by
  unfold formatFile at h
  cases resolved : (engine.configuration file.path).ending with
  | done project =>
    simp only [resolved] at h
    rcases h with ⟨failure, h⟩ | ⟨payload, h⟩
    · exact .formatFailed resolved h
    · exact .formatPanicked resolved h
  | failed failure => exact .configurationFailed resolved
  | panicked payload => exact .configurationPanicked resolved

/-- A check gives no comparison exactly when it fails in one of these ways. -/
theorem error_iff_fails (engine : Engine) (options : Options) (limit : Option Nat)
    (file : SourceFile) :
    (∃ e, (checkFile engine options limit file).result = .error e) ↔
      Fails engine options limit file := by
  rcases checkFile_result engine options limit file with
    ⟨most, limited, late, result⟩ | ⟨early, result⟩
  · exact ⟨fun _ => .late limited late, fun _ => ⟨_, result⟩⟩
  · rw [result]
    constructor
    · rintro ⟨e, h⟩
      exact formatFile_failed (endingResult_error h) limit
    · rintro (h | h | ⟨resolved, h⟩ | ⟨resolved, h⟩ | ⟨limited, h⟩)
      · simp [formatFile, h, endingResult]
      · simp [formatFile, h, endingResult]
      · simp [formatFile, resolved, h, endingResult]
      · simp [formatFile, resolved, h, endingResult]
      · have := early _ limited
        omega

namespace Batch

variable {check : SourceFile → Checked} {files : List SourceFile}

/-- What the slot of a file shows in the end. -/
def shown (check : SourceFile → Checked) (file : SourceFile) : Comparison :=
  (check file).result.toOption.getD (.unchanged file.path file.content)

/-- A slot holds the result of its own file once the check of that file has finished. -/
structure Filled (check : SourceFile → Checked) (files : List SourceFile) (done : List Nat)
    (slots : List (Option Comparison)) : Prop where
  length : slots.length = files.length
  slot : ∀ i file, files[i]? = some file →
    slots[i]? = some (if i ∈ done then (check file).result.toOption else none)

@[simp] theorem filled_none : Filled check files [] (List.replicate files.length none) := by
  constructor
  · simp
  · intro i file h
    have bound : i < files.length := (List.getElem?_eq_some_iff.1 h).1
    simp [bound]

theorem filled_place (filled : Filled check files done slots) (h : files[i]? = some file) :
    Filled check files (done ++ [i]) (place slots (i, check file)) := by
  have bound : i < slots.length := by
    rw [filled.length]
    exact (List.getElem?_eq_some_iff.1 h).1
  constructor
  · unfold place
    split <;> simp [filled.length]
  · intro j other there
    by_cases same : j = i
    · subst same
      obtain rfl : file = other := by simpa [h] using there
      unfold place
      cases result : (check file).result with
      | ok c => simp [bound, Except.toOption]
      | error e => simp [filled.slot j file h, result, Except.toOption]
    · unfold place
      split
      · simp [List.getElem?_set_ne (Ne.symm same), filled.slot j other there, same]
      · simp [filled.slot j other there, same]

theorem filled_collect (order : List Nat) (inside : ∀ i ∈ order, i < files.length) :
    Filled check files order (collect files.length (finished check files order)) := by
  induction order using List.reverseRecOn with
  | nil => exact filled_none
  | append_singleton order i ih =>
    have bound : i < files.length := inside i (by simp)
    have here : files[i]? = some files[i] := List.getElem?_eq_getElem bound
    have before := ih fun j mem => inside j (by simp [mem])
    have last : collect files.length (finished check files (order ++ [i])) =
        place (collect files.length (finished check files order)) (i, check files[i]) := by
      simp [collect, finished, here]
    rw [last]
    exact filled_place before here

/-- The results of a batch do not depend on the order in which the checks finish. -/
theorem results_run (complete : order.Perm (List.range files.length)) :
    (run check files order).results = files.map (shown check) := by
  have filled : Filled check files order (collect files.length (finished check files order)) :=
    filled_collect order fun i mem => by simpa using complete.subset mem
  apply List.ext_getElem?
  intro i
  simp only [run, List.getElem?_zipWith, List.getElem?_map]
  cases h : files[i]? with
  | none => cases (collect files.length (finished check files order))[i]? <;> rfl
  | some file =>
    have bound : i < files.length := (List.getElem?_eq_some_iff.1 h).1
    have done : i ∈ order := complete.symm.subset (by simpa using bound)
    simp [filled.slot i file h, done, shown]

end Batch

/-- Two engines that can be told apart on one path only. -/
structure Engine.AgreeExceptOn (path : String) (first second : Engine) : Prop where
  configuration : ∀ other, other ≠ path → first.configuration other = second.configuration other
  format : ∀ content options, options.filepath ≠ some path →
    first.format content options = second.format content options

theorem checkFile_agree {first second : Engine} (agree : first.AgreeExceptOn path second)
    (options : Options) (limit : Option Nat) (apart : file.path ≠ path) :
    checkFile first options limit file = checkFile second options limit file := by
  have same : formatFile first options file = formatFile second options file := by
    simp only [formatFile, agree.configuration file.path apart]
    cases (second.configuration file.path).ending with
    | done project =>
      have here : (mergedOptions options project file.path).filepath ≠ some path := by
        simpa [mergedOptions] using apart
      simp [agree.format _ _ here]
    | failed failure => rfl
    | panicked payload => rfl
  simp only [checkFile, same]

namespace Batch

/-- Each slot shows the single check of its file, whatever the order and the other files. -/
theorem slots_of_single_checks (engine : Engine) (options : Options) (limit : Option Nat)
    (files : List SourceFile) (order : List Nat)
    (complete : order.Perm (List.range files.length)) :
    let results : List Comparison := (run (checkFile engine options limit) files order).results
    results.length = files.length ∧
      (∀ (i : Nat) (file : SourceFile), files[i]? = some file →
        (∀ c, (checkFile engine options limit file).result = .ok c → results[i]? = some c) ∧
        (Fails engine options limit file ↔
          ∃ e, (checkFile engine options limit file).result = .error e) ∧
        (Fails engine options limit file →
          results[i]? = some (.unchanged file.path file.content))) ∧
      ∀ path other order', engine.AgreeExceptOn path other →
        order'.Perm (List.range files.length) →
        ∀ (i : Nat) (file : SourceFile), files[i]? = some file → file.path ≠ path →
        (run (checkFile other options limit) files order').results[i]? = results[i]? := by
  intro results
  have all : results = files.map (shown (checkFile engine options limit)) := results_run complete
  refine ⟨by simp [all], ?_, ?_⟩
  · intro i file here
    have slot : results[i]? = some (shown (checkFile engine options limit) file) := by
      simp [all, here]
    refine ⟨?_, (error_iff_fails ..).symm, ?_⟩
    · intro c result
      simp [slot, shown, result, Except.toOption]
    · intro fails
      obtain ⟨e, result⟩ := (error_iff_fails ..).2 fails
      simp [slot, shown, result, Except.toOption]
  · intro path other order' agree complete' i file here apart
    rw [all, results_run complete']
    simp [here, shown, checkFile_agree agree options limit apart]

/-- An engine that ends every text with a line feed, save on one path. -/
def feedingSave (path : String) (ending : Ending String) : Engine where
  configuration _ := ⟨1, .done none⟩
  format content options :=
    ⟨1, if options.filepath = some path then ending else .done (content ++ "\n")⟩

theorem slots_beside_panic :
    let files := [⟨"a", "x"⟩, ⟨"b", "y"⟩, ⟨"a", "z"⟩]
    let check := checkFile (feedingSave "b" (.panicked none)) .unset (some 2)
    let check' := checkFile (feedingSave "b" (.done "")) .unset (some 2)
    [2, 0, 1].Perm (List.range files.length) ∧
      (run check files [2, 0, 1]).results.length = 3 ∧
      (run check files [2, 0, 1]).results[1]? = some (.unchanged "b" "y") ∧
      (run check files [2, 0, 1]).results[2]? = some ⟨"a", "z", "z\n"⟩ ∧
      (run check' files [0, 1, 2]).results[2]? = (run check files [2, 0, 1]).results[2]? := by
  intro files check check'
  have complete : [2, 0, 1].Perm (List.range files.length) := by decide
  obtain ⟨length, slots, apart⟩ := slots_of_single_checks (feedingSave "b" (.panicked none)) .unset
    (some 2) files [2, 0, 1] complete
  have agree : (feedingSave "b" (.panicked none)).AgreeExceptOn "b" (feedingSave "b" (.done "")) := by
    constructor
    · intro other _
      rfl
    · intro content options other
      simp [feedingSave, other]
  refine ⟨complete, length, (slots 1 _ rfl).2.2 (.formatPanicked rfl rfl), (slots 2 _ rfl).1 _ rfl, ?_⟩
  exact apart "b" _ [0, 1, 2] agree (by decide) 2 _ rfl (by decide)

end Batch

end FormatPreview
