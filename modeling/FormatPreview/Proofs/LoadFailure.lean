import FormatPreview.Proofs.Loading

/-!
How a load fails, by what comes first. Without targets there is nothing to load. The first pattern that
cannot be expanded ends the load before any file is read. When every target is a pattern without a
match, none of them is left out of the message. Otherwise the files are read in the order in which
their paths come up, up to one that was named as such and cannot be read.
-/
namespace FormatPreview

variable {source : FileSource} {targets : List String}

/-- The target is a pattern that cannot be expanded. -/
def FileSource.Refuses (source : FileSource) (target : String) (failure : Failure) : Prop :=
  Pattern.isPattern target = true ∧ source.expand target = .error failure

/-- The warnings for targets that match nothing. -/
def FileSource.warnings (source : FileSource) (targets : List String) : List Event :=
  (targets.filter source.unmatched).map .noFilesMatched

theorem expands_or_refuses (source : FileSource) (targets : List String) :
    source.Expands targets ∨ ∃ before target after failure,
      targets = before ++ target :: after ∧ source.Expands before ∧ source.Refuses target failure := by
  by_cases some : ∃ t ∈ targets, ∃ failure, source.Refuses t failure
  · obtain ⟨before, target, after, cut, ⟨failure, refused⟩, others⟩ := exists_first some
    refine .inr ⟨before, target, after, failure, cut, fun t mem pattern => ?_, refused⟩
    cases expanded : source.expand t with
    | ok paths => exact ⟨paths, rfl⟩
    | error failure => exact absurd ⟨failure, pattern, expanded⟩ (others t mem)
  · refine .inl fun t mem pattern => ?_
    cases expanded : source.expand t with
    | ok paths => exact ⟨paths, rfl⟩
    | error failure => exact absurd ⟨t, mem, failure, pattern, expanded⟩ some

theorem resolveFrom_of_expands (expands : source.Expands targets) (r : Resolution) :
    resolveFrom source r targets = (⟨(source.named targets).foldl keepFirst r.found,
      r.unmatched ++ targets.filter source.unmatched⟩, .ok ()) := by
  cases reached : resolveFrom source r targets with
  | mk r' outcome =>
    have resolved := resolved_of_expands expands r
    rw [reached] at resolved
    obtain rfl : outcome = .ok () := resolved
    rw [resolveFrom_ok targets r r' reached, FileSource.named]

theorem resolveFrom_append {before : List String} {r r' : Resolution}
    (reached : resolveFrom source r before = (r', .ok ())) (rest : List String) :
    resolveFrom source r (before ++ rest) = resolveFrom source r' rest := by
  induction before generalizing r with
  | nil =>
    obtain rfl : r = r' := by simpa [resolveFrom] using reached
    rfl
  | cons target before ih =>
    cases added : r.add source target with
    | error e => simp [resolveFrom, added] at reached
    | ok next =>
      simp only [List.cons_append, resolveFrom, added] at reached ⊢
      exact ih reached

/-- A pattern that cannot be expanded ends the load, whatever comes after it. -/
theorem load_of_refuses {before : List String} {target : String} {failure : Failure}
    (expands : source.Expands before) (refused : source.Refuses target failure)
    (after : List String) :
    load source (before ++ target :: after) =
      (source.warnings before, .error (.badPattern target failure)) := by
  obtain ⟨pattern, failed⟩ := refused
  have reached := resolveFrom_append (resolveFrom_of_expands expands ⟨[], []⟩) (target :: after)
  simp [load, reached, resolveFrom, Resolution.add, pattern, failed, FileSource.warnings]

/-- With all patterns expanded, it is the paths found that count. -/
theorem load_of_expands (expands : source.Expands targets) (some : targets ≠ []) :
    load source targets =
      if source.found targets = [] then
        (source.warnings targets, .error (.noMatches (targets.filter source.unmatched)))
      else (source.warnings targets ++ (readFound source (source.found targets)).1,
        (readFound source (source.found targets)).2) := by
  have reached := resolveFrom_of_expands expands ⟨[], []⟩
  by_cases none : source.found targets = [] <;>
    simp_all [load, FileSource.warnings, FileSource.found, FileSource.named]

theorem unmatched_iff (target : String) :
    source.unmatched target = true ↔
      Pattern.isPattern target = true ∧ source.expand target = .ok [] := by
  unfold FileSource.unmatched
  cases source.expand target <;> simp

theorem not_names_iff {target : String} (expands : source.Expands [target]) :
    (∀ path, ¬ source.Names target path) ↔ source.unmatched target = true := by
  rw [unmatched_iff]
  cases pattern : Pattern.isPattern target with
  | false => simpa using ⟨target, names_self pattern⟩
  | true =>
    obtain ⟨paths, expanded⟩ := expands target (by simp) pattern
    simp only [FileSource.Names, FileSource.names, pattern, expanded, if_true, true_and,
      Except.ok.injEq, List.mem_map, not_exists, not_and]
    constructor
    · intro none
      refine List.eq_nil_iff_forall_not_mem.2 fun path mem => ?_
      exact none path ⟨path, true⟩ ⟨path, mem, rfl⟩ (Path.same_self path)
    · rintro rfl path f ⟨other, mem, _⟩
      simp at mem

theorem found_nil_iff_unmatched (expands : source.Expands targets) :
    source.found targets = [] ↔ ∀ t ∈ targets, source.unmatched t = true := by
  rw [found_nil_iff]
  refine forall₂_congr fun t mem => not_names_iff fun u same pattern => ?_
  obtain rfl := List.mem_singleton.1 same
  exact expands u mem pattern

/-- Files that are loaded or left out do not stop the reading. -/
theorem readFound_append {before : List Found}
    (passed : ∀ f ∈ before, source.Unreadable f.path → f.fromPattern = true) (rest : List Found) :
    readFound source (before ++ rest) =
      (before.filterMap source.skipped? ++ (readFound source rest).1,
        (readFound source rest).2.map (before.filterMap source.loaded? ++ ·)) := by
  induction before with
  | nil => cases outcome : (readFound source rest).2 <;> simp [← outcome, Except.map]
  | cons f before ih =>
    have further := ih fun g mem => passed g (by simp [mem])
    cases read : source.read f.path with
    | ok content =>
      cases outcome : (readFound source rest).2 <;>
        simp [readFound, read, further, outcome, FileSource.skipped?, FileSource.loaded?, Except.map]
    | error failure =>
      have pattern := passed f (by simp) ⟨failure, read⟩
      simp [readFound, read, pattern, further, FileSource.skipped?, FileSource.loaded?]

/-- Reading ends at the first file that was named as such and cannot be read. -/
theorem readFound_unreadable_iff (found : List Found) (events : List Event) (path : String)
    (failure : Failure) :
    readFound source found = (events, .error (.unreadable path failure)) ↔
      ∃ before after, found = before ++ ⟨path, false⟩ :: after ∧
        source.read path = .error failure ∧
        (∀ f ∈ before, source.Unreadable f.path → f.fromPattern = true) ∧
        events = before.filterMap source.skipped? := by
  have stop : ∀ {before after : List Found} {path : String} {failure : Failure},
      source.read path = .error failure →
      (∀ f ∈ before, source.Unreadable f.path → f.fromPattern = true) →
      readFound source (before ++ ⟨path, false⟩ :: after) =
        (before.filterMap source.skipped?, .error (.unreadable path failure)) := by
    intro before after path failure read passed
    rw [readFound_append passed]
    simp [readFound, read, Except.map]
  constructor
  · intro failed
    obtain ⟨before, ⟨path', named⟩, after, rfl, ⟨literal, reason, read⟩, others⟩ :=
      exists_first ((readFound_error_iff found).1 ⟨path, failure, by rw [failed]⟩)
    obtain rfl : named = false := literal
    have passed : ∀ f ∈ before, source.Unreadable f.path → f.fromPattern = true := by
      intro f mem unread
      by_contra literal
      exact others f mem ⟨by simpa using literal, unread⟩
    rw [stop read passed] at failed
    obtain ⟨rfl, same⟩ := Prod.mk.inj failed
    obtain ⟨rfl, rfl⟩ := LoadError.unreadable.inj (Except.error.inj same)
    exact ⟨before, after, rfl, read, passed, rfl⟩
  · rintro ⟨before, after, rfl, read, passed, rfl⟩
    exact stop read passed

/-- What comes up first settles the order of the paths found. -/
theorem FirstOnly.unique {named found found' : List Found} (first : FirstOnly named found)
    (second : FirstOnly named found') : found = found' := by
  let less (f g : Found) : Prop := place named f.path < place named g.path
  have : Std.Irrefl less := ⟨fun f => Nat.lt_irrefl _⟩
  have : Std.Antisymm less := ⟨fun f g sooner later => absurd later (Nat.lt_asymm sooner)⟩
  have included : ∀ {found found' : List Found}, FirstOnly named found → FirstOnly named found' →
      ∀ f ∈ found, f ∈ found' := by
    intro found found' first second f mem
    have here := first.first f mem
    obtain ⟨g, mem', same⟩ := second.all f (List.mem_of_getElem? here)
    have there := second.first g mem'
    rw [place_congr same, here] at there
    obtain rfl := Option.some.inj there
    exact mem'
  exact first.ordered.eq_of_mem_iff second.ordered fun f =>
    ⟨included first second f, included second first f⟩

theorem expands_of_unmatched (all : ∀ t ∈ targets, source.unmatched t = true) :
    source.Expands targets :=
  fun t mem _ => ⟨[], ((unmatched_iff t).1 (all t mem)).2⟩

theorem load_of_unmatched (some : targets ≠ []) (all : ∀ t ∈ targets, source.unmatched t = true) :
    load source targets = (targets.map .noFilesMatched, .error (.noMatches targets)) := by
  have expands := expands_of_unmatched all
  rw [load_of_expands expands some, if_pos ((found_nil_iff_unmatched expands).2 all),
    FileSource.warnings, List.filter_eq_self.2 all]

theorem load_of_found (expands : source.Expands targets) (some : source.found targets ≠ []) :
    load source targets = (source.warnings targets ++ (readFound source (source.found targets)).1,
      (readFound source (source.found targets)).2) := by
  have given : targets ≠ [] := by
    rintro rfl
    exact some rfl
  rw [load_of_expands expands given, if_neg some]

/-- All the ways that a load can go. -/
theorem load_ways (source : FileSource) (targets : List String) :
    (targets = [] ∧ load source targets = ([], .error .noTargets)) ∨
    (∃ before target after failure, targets = before ++ target :: after ∧ source.Expands before ∧
      source.Refuses target failure ∧
      load source targets = (source.warnings before, .error (.badPattern target failure))) ∨
    (targets ≠ [] ∧ (∀ t ∈ targets, source.unmatched t = true) ∧
      load source targets = (targets.map .noFilesMatched, .error (.noMatches targets))) ∨
    (source.Expands targets ∧ source.found targets ≠ [] ∧
      load source targets = (source.warnings targets ++ (readFound source (source.found targets)).1,
        (readFound source (source.found targets)).2)) := by
  by_cases given : targets = []
  · exact .inl ⟨given, by simp [load, given]⟩
  · rcases expands_or_refuses source targets with
      expands | ⟨before, target, after, failure, rfl, expands, refused⟩
    · by_cases none : source.found targets = []
      · have all := (found_nil_iff_unmatched expands).1 none
        exact .inr (.inr (.inl ⟨given, all, load_of_unmatched given all⟩))
      · exact .inr (.inr (.inr ⟨expands, none, load_of_found expands none⟩))
    · exact .inr (.inl ⟨before, target, after, failure, rfl, expands, refused,
        load_of_refuses expands refused after⟩)

theorem load_noTargets_iff (events : List Event) :
    load source targets = (events, .error .noTargets) ↔ targets = [] ∧ events = [] := by
  constructor
  · intro failed
    rcases load_ways source targets with ⟨rfl, way⟩ | ⟨_, _, _, _, _, _, _, way⟩ | ⟨_, _, way⟩ |
      ⟨_, _, way⟩
    · simp_all
    · simp [way] at failed
    · simp [way] at failed
    · rw [way] at failed
      obtain ⟨path, failure, other⟩ := readFound_error _ (Prod.mk.inj failed).2
      simp at other
  · rintro ⟨rfl, rfl⟩
    rfl

theorem load_badPattern_iff (events : List Event) (target : String) (failure : Failure) :
    load source targets = (events, .error (.badPattern target failure)) ↔
      ∃ before after, targets = before ++ target :: after ∧ source.Expands before ∧
        source.Refuses target failure ∧ events = source.warnings before := by
  constructor
  · intro failed
    rcases load_ways source targets with ⟨_, way⟩ |
      ⟨before, target', after, failure', cut, expands, refused, way⟩ | ⟨_, _, way⟩ | ⟨_, _, way⟩
    · simp [way] at failed
    · rw [way, Prod.mk.injEq, Except.error.injEq, LoadError.badPattern.injEq] at failed
      obtain ⟨rfl, rfl, rfl⟩ := failed
      exact ⟨before, after, cut, expands, refused, rfl⟩
    · simp [way] at failed
    · rw [way] at failed
      obtain ⟨path, failure, other⟩ := readFound_error _ (Prod.mk.inj failed).2
      simp at other
  · rintro ⟨before, after, rfl, expands, refused, rfl⟩
    exact load_of_refuses expands refused after

theorem load_noMatches_iff (events : List Event) (named : List String) :
    load source targets = (events, .error (.noMatches named)) ↔
      targets ≠ [] ∧ (∀ t ∈ targets, source.unmatched t = true) ∧ named = targets ∧
        events = targets.map .noFilesMatched := by
  constructor
  · intro failed
    rcases load_ways source targets with ⟨_, way⟩ | ⟨_, _, _, _, _, _, _, way⟩ |
      ⟨some, all, way⟩ | ⟨_, _, way⟩
    · simp [way] at failed
    · simp [way] at failed
    · rw [way, Prod.mk.injEq, Except.error.injEq, LoadError.noMatches.injEq] at failed
      exact ⟨some, all, failed.2.symm, failed.1.symm⟩
    · rw [way] at failed
      obtain ⟨path, failure, other⟩ := readFound_error _ (Prod.mk.inj failed).2
      simp at other
  · rintro ⟨some, all, rfl, rfl⟩
    exact load_of_unmatched some all

theorem load_unreadable_iff (events : List Event) (path : String) (failure : Failure) :
    load source targets = (events, .error (.unreadable path failure)) ↔
      source.Expands targets ∧ ∃ before after,
        source.found targets = before ++ ⟨path, false⟩ :: after ∧
        source.read path = .error failure ∧
        (∀ f ∈ before, source.Unreadable f.path → f.fromPattern = true) ∧
        events = source.warnings targets ++ before.filterMap source.skipped? := by
  constructor
  · intro failed
    rcases load_ways source targets with ⟨_, way⟩ | ⟨_, _, _, _, _, _, _, way⟩ | ⟨_, _, way⟩ |
      ⟨expands, _, way⟩
    · simp [way] at failed
    · simp [way] at failed
    · simp [way] at failed
    · rw [way] at failed
      obtain ⟨rfl, stopped⟩ := Prod.mk.inj failed
      obtain ⟨before, after, cut, read, passed, skips⟩ :=
        (readFound_unreadable_iff _ _ path failure).1 (Prod.ext rfl stopped)
      exact ⟨expands, before, after, cut, read, passed, congrArg _ skips⟩
  · rintro ⟨expands, before, after, cut, read, passed, rfl⟩
    have stopped := (readFound_unreadable_iff _ _ path failure).2
      ⟨before, after, cut, read, passed, rfl⟩
    rw [load_of_found expands (by simp [cut]), stopped]

theorem mem_named_literal {path : String} (mem : (⟨path, false⟩ : Found) ∈ source.named targets) :
    path ∈ targets ∧ Pattern.isPattern path = false := by
  obtain ⟨target, mem, names⟩ := List.mem_flatMap.1 mem
  cases pattern : Pattern.isPattern target with
  | true => simpa using fromPattern_of_pattern source pattern _ names
  | false =>
    obtain rfl : path = target := by simpa [names_of_literal pattern] using names
    exact ⟨mem, pattern⟩

theorem warn_of_readFound (found : List Found) :
    ∀ e ∈ (readFound source found).1, e.level = .warn := by
  induction found with
  | nil => simp [readFound]
  | cons f rest ih =>
    cases read : source.read f.path with
    | ok content => simpa [readFound, read] using ih
    | error failure =>
      cases pattern : f.fromPattern with
      | false => simp [readFound, read, pattern]
      | true => simpa [readFound, read, pattern, Event.level] using ih

theorem warn_of_load (source : FileSource) (targets : List String) :
    ∀ e ∈ (load source targets).1, e.level = .warn := by
  have unmatched : ∀ targets : List String, ∀ e ∈ targets.map Event.noFilesMatched,
      e.level = .warn := by
    intro targets e mem
    obtain ⟨t, _, rfl⟩ := List.mem_map.1 mem
    rfl
  rcases load_ways source targets with ⟨_, way⟩ | ⟨before, _, _, _, _, _, _, way⟩ | ⟨_, _, way⟩ |
    ⟨_, _, way⟩ <;> rw [way]
  · simp
  · exact unmatched _
  · exact unmatched targets
  · intro e mem
    rcases List.mem_append.1 mem with mem | mem
    · exact unmatched _ e mem
    · exact warn_of_readFound _ e mem

/-- What the patterns expand to settles a load that ends with one of them. -/
theorem load_unread (source : FileSource) (bad : ¬ source.Expands targets)
    (read : String → Except Failure String) :
    load { source with read } targets = load source targets := by
  rcases expands_or_refuses source targets with
    expands | ⟨before, target, after, failure, rfl, expands, refused⟩
  · exact absurd expands bad
  · rw [load_of_refuses expands refused after]
    exact @load_of_refuses { source with read } _ _ _ expands refused after

theorem literal_of_unreadable {path : String} {failure : Failure}
    (failed : (load source targets).2 = .error (.unreadable path failure)) :
    path ∈ targets ∧ Pattern.isPattern path = false := by
  obtain ⟨_, before, after, cut, _⟩ := (load_unreadable_iff _ path failure).1 (Prod.ext rfl failed)
  have first := firstOnly_found source targets
  have mem : ⟨path, false⟩ ∈ source.found targets := by simp [cut]
  exact mem_named_literal (List.mem_of_getElem? (first.first _ mem))

/-- How a load fails, each way with all that is told and exactly when it does. -/
structure FailsInOrder (source : FileSource) (targets : List String) : Prop where
  noTargets : ∀ events, load source targets = (events, .error .noTargets) ↔
    targets = [] ∧ events = []
  /-- The first pattern that cannot be expanded is told, after the warnings for those before it. -/
  badPattern : ∀ events target failure,
    load source targets = (events, .error (.badPattern target failure)) ↔
      ∃ before after, targets = before ++ target :: after ∧ source.Expands before ∧
        Pattern.isPattern target = true ∧ source.expand target = .error failure ∧
        events = source.warnings before
  /-- No file is read while a pattern cannot be expanded. -/
  unread : ¬ source.Expands targets → ∀ read, load { source with read } targets = load source targets
  /-- Targets that are all patterns without a match are told as they were given. -/
  noMatches : ∀ events named, load source targets = (events, .error (.noMatches named)) ↔
    targets ≠ [] ∧ (∀ t ∈ targets, Pattern.isPattern t = true ∧ source.expand t = .ok []) ∧
      named = targets ∧ events = targets.map .noFilesMatched
  /-- Of the paths in the order in which they come up, the first that a target is and that cannot be
  read is told, after the warnings for those that were left out before it. -/
  unreadable : ∀ events path failure,
    load source targets = (events, .error (.unreadable path failure)) ↔
      source.Expands targets ∧ ∃ before after,
        FirstOnly (source.named targets) (before ++ ⟨path, false⟩ :: after) ∧
        source.read path = .error failure ∧
        (∀ f ∈ before, source.Unreadable f.path → f.fromPattern = true) ∧
        events = source.warnings targets ++ before.filterMap source.skipped?
  literal : ∀ path failure, (load source targets).2 = .error (.unreadable path failure) →
    path ∈ targets ∧ Pattern.isPattern path = false
  /-- A path that only patterns name, in whatever spelling, is never what a load fails on. -/
  harmless : ∀ path, (∀ t ∈ targets, source.Names t path → Pattern.isPattern t = true) →
    ∀ other failure, Path.same other path = true →
      (load source targets).2 ≠ .error (.unreadable other failure)
  warn : ∀ e ∈ (load source targets).1, e.level = .warn

/-- The order in which a load fails: no targets, a pattern that cannot be expanded, no matches at all,
and then a named file that cannot be read. -/
theorem load_fails_in_order (source : FileSource) (targets : List String) :
    FailsInOrder source targets where
  noTargets := load_noTargets_iff
  badPattern events target failure := by
    rw [load_badPattern_iff]
    simp only [FileSource.Refuses, and_assoc]
  unread := load_unread source
  noMatches events named := by
    rw [load_noMatches_iff]
    simp only [unmatched_iff]
  unreadable events path failure := by
    rw [load_unreadable_iff]
    refine and_congr_right fun expands => exists₂_congr fun before after => and_congr_left fun _ => ?_
    constructor
    · intro cut
      exact cut ▸ firstOnly_found source targets
    · exact (firstOnly_found source targets).unique
  literal path failure := literal_of_unreadable
  harmless path patterns other failure same failed := by
    obtain ⟨mem, literal⟩ := literal_of_unreadable failed
    have names : source.Names other path := by
      simpa [FileSource.Names, names_of_literal literal] using same
    simp [patterns other mem names] at literal
  warn := warn_of_load source targets

end FormatPreview
