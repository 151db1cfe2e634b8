import FormatPreview.Targets

/-!
Loading targets. The paths to load are those that the targets name in turn, each where it comes up
first. Loading them fails at the first that was named as such and cannot be read.
-/
namespace FormatPreview

variable {source : FileSource}

def FileSource.Unreadable (source : FileSource) (path : String) : Prop :=
  ∃ failure, source.read path = .error failure

/-- The paths that a target names, a pattern by what it expands to. -/
def FileSource.names (source : FileSource) (target : String) : List Found :=
  if Pattern.isPattern target then
    match source.expand target with
    | .ok paths => paths.map (⟨·, true⟩)
    | .error _ => []
  else [⟨target, false⟩]

def keepFirst (found : List Found) (f : Found) : List Found := addFound found f.path f.fromPattern

/-- The target is a pattern that matches nothing. -/
def FileSource.unmatched (source : FileSource) (target : String) : Bool :=
  Pattern.isPattern target &&
    match source.expand target with
    | .ok paths => paths.isEmpty
    | .error _ => false

theorem add_ok {r r' : Resolution} {target : String} (h : r.add source target = .ok r') :
    r' = ⟨(source.names target).foldl keepFirst r.found,
      r.unmatched ++ [target].filter source.unmatched⟩ := by
  unfold Resolution.add at h
  unfold FileSource.names FileSource.unmatched
  cases pattern : Pattern.isPattern target with
  | false =>
    simp only [pattern, Bool.false_eq_true, if_false, Except.ok.injEq] at h ⊢
    rw [← h]
    simp [keepFirst, pattern]
  | true =>
    simp only [pattern, if_true] at h ⊢
    cases expanded : source.expand target with
    | error failure => simp [expanded] at h
    | ok paths =>
      simp only [expanded, Except.ok.injEq] at h
      rw [← h]
      cases none : paths.isEmpty <;> simp [List.foldl_map, keepFirst, pattern, expanded, none]

theorem resolveFrom_ok (targets : List String) (r r' : Resolution)
    (h : resolveFrom source r targets = (r', .ok ())) :
    r' = ⟨(targets.flatMap source.names).foldl keepFirst r.found,
      r.unmatched ++ targets.filter source.unmatched⟩ := by
  induction targets generalizing r with
  | nil =>
    obtain rfl : r = r' := by simpa [resolveFrom] using h
    simp
  | cons target rest ih =>
    cases added : r.add source target with
    | error e => simp [resolveFrom, added] at h
    | ok next =>
      simp only [resolveFrom, added] at h
      rw [ih next h, add_ok added, List.flatMap_cons, List.foldl_append, List.append_assoc,
        ← List.filter_append, List.singleton_append]

theorem resolveFrom_error (targets : List String) (r : Resolution)
    (h : (resolveFrom source r targets).2 = .error e) :
    ∃ target failure, e = .badPattern target failure := by
  induction targets generalizing r with
  | nil => simp [resolveFrom] at h
  | cons target rest ih =>
    cases added : r.add source target with
    | error e' =>
      obtain rfl : e' = e := by simpa [resolveFrom, added] using h
      unfold Resolution.add at added
      split at added
      · cases expanded : source.expand target with
        | error failure => exact ⟨target, failure, by simpa [expanded] using added.symm⟩
        | ok paths => simp [expanded] at added
      · simp at added
    | ok next => exact ih next (by simpa [resolveFrom, added] using h)

/-- The paths to load, once all targets are resolved. -/
def FileSource.found (source : FileSource) (targets : List String) : List Found :=
  (targets.flatMap source.names).foldl keepFirst []

/-- The targets can all be resolved, and they name some path. -/
structure Resolves (source : FileSource) (targets : List String) : Prop where
  resolved : (resolveFrom source ⟨[], []⟩ targets).2 = .ok ()
  some : source.found targets ≠ []

theorem found_of_ok {targets : List String}
    (h : (resolveFrom source ⟨[], []⟩ targets).2 = .ok ()) :
    (resolveFrom source ⟨[], []⟩ targets).1.found = source.found targets :=
  congrArg Resolution.found (resolveFrom_ok targets _ _ (Prod.ext rfl h))

theorem load_of_resolves {targets : List String} (h : Resolves source targets) :
    (load source targets).2 = (readFound source (source.found targets)).2 := by
  have some : targets ≠ [] := by
    rintro rfl
    exact h.some rfl
  have resolved := h.resolved
  have found := found_of_ok h.resolved
  cases cut : resolveFrom source ⟨[], []⟩ targets with
  | mk r outcome =>
    simp only [cut] at resolved found
    simp [load, cut, resolved, found, some, h.some]

/-- Loading goes wrong before any file is read, or it comes down to reading. -/
theorem load_cases (source : FileSource) (targets : List String) :
    Resolves source targets ∨ ∃ e, (load source targets).2 = .error e ∧
      ∀ path failure, e ≠ .unreadable path failure := by
  by_cases some : targets = []
  · exact .inr ⟨.noTargets, by simp [load, some]⟩
  · cases cut : resolveFrom source ⟨[], []⟩ targets with
    | mk r outcome =>
      cases outcome with
      | error e =>
        refine .inr ⟨e, by simp [load, cut, some], ?_⟩
        intro path failure same
        obtain ⟨target, reason, bad⟩ := resolveFrom_error targets _ (by rw [cut])
        simp [bad] at same
      | ok =>
        have resolved : (resolveFrom source ⟨[], []⟩ targets).2 = .ok () := by rw [cut]
        have found := found_of_ok resolved
        simp only [cut] at found
        by_cases none : source.found targets = []
        · refine .inr ⟨.noMatches r.unmatched, ?_⟩
          rw [none] at found
          simp [load, cut, some, found]
        · exact .inl ⟨resolved, none⟩

theorem readable_or (source : FileSource) (path : String) :
    (∃ content, source.read path = .ok content) ∨ source.Unreadable path := by
  cases read : source.read path with
  | ok content => exact .inl ⟨content, rfl⟩
  | error failure => exact .inr ⟨failure, read⟩

theorem not_unreadable {content : String} {path : String} (h : source.read path = .ok content) :
    ¬ source.Unreadable path := by
  rintro ⟨failure, failed⟩
  simp [h] at failed

theorem readFound_nil_iff (found : List Found) :
    (readFound source found).2 = .ok [] ↔
      ∀ f ∈ found, f.fromPattern = true ∧ source.Unreadable f.path := by
  induction found with
  | nil => simp [readFound]
  | cons f rest ih =>
    rcases readable_or source f.path with ⟨content, read⟩ | ⟨failure, read⟩
    · have readable := not_unreadable read
      cases files : (readFound source rest).2 <;> simp [readFound, read, files, readable, Except.map]
    · have unreadable : source.Unreadable f.path := ⟨failure, read⟩
      cases named : f.fromPattern <;> simp [readFound, read, named, ih, unreadable]

/-- Reading fails only at a path that was named as such and cannot be read. -/
theorem readFound_error_iff (found : List Found) :
    (∃ path failure, (readFound source found).2 = .error (.unreadable path failure)) ↔
      ∃ f ∈ found, f.fromPattern = false ∧ source.Unreadable f.path := by
  induction found with
  | nil => simp [readFound]
  | cons f rest ih =>
    rcases readable_or source f.path with ⟨content, read⟩ | ⟨failure, read⟩
    · have readable := not_unreadable read
      cases files : (readFound source rest).2 <;> simp_all [readFound, Except.map]
    · have unreadable : source.Unreadable f.path := ⟨failure, read⟩
      cases named : f.fromPattern <;> simp_all [readFound]

theorem readFound_error (found : List Found) (h : (readFound source found).2 = .error e) :
    ∃ path failure, e = .unreadable path failure := by
  induction found with
  | nil => simp [readFound] at h
  | cons f rest ih =>
    rcases readable_or source f.path with ⟨content, read⟩ | ⟨failure, read⟩
    · cases files : (readFound source rest).2 <;> simp_all [readFound, Except.map]
    · cases named : f.fromPattern <;> simp_all [readFound]
      exact ⟨_, _, h.symm⟩

theorem load_nil_iff (source : FileSource) (targets : List String) :
    (load source targets).2 = .ok [] ↔ Resolves source targets ∧
      ∀ f ∈ source.found targets, f.fromPattern = true ∧ source.Unreadable f.path := by
  rcases load_cases source targets with resolves | ⟨e, failed, _⟩
  · rw [load_of_resolves resolves, readFound_nil_iff]
    simp [resolves]
  · constructor
    · simp [failed]
    · rintro ⟨resolves, unread⟩
      rw [load_of_resolves resolves, (readFound_nil_iff _).2 unread] at failed
      cases failed

end FormatPreview
