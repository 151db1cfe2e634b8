import FormatPreview.Proofs.Path
import FormatPreview.Proofs.Targets
import Mathlib.Data.List.Induction
import Mathlib.Data.List.Perm.Basic

/-!
The order of targets. A path that several targets name is read as the first of them names it. So a
file named as such that cannot be read stops a run only if no target before it names its path, and
the order matters to loading unless some such path is named by nothing else.
-/
namespace FormatPreview

variable {source : FileSource}

/-- The target is the path of a file that cannot be read. -/
def FileSource.Fatal (source : FileSource) (target : String) : Prop :=
  Pattern.isPattern target = false ∧ source.Unreadable target

def FileSource.Names (source : FileSource) (target path : String) : Prop :=
  ∃ f ∈ source.names target, Path.same f.path path = true

def FileSource.FailsOn (source : FileSource) (targets : List String) : Prop :=
  ∃ e, (load source targets).2 = .error e

def FileSource.Expands (source : FileSource) (targets : List String) : Prop :=
  ∀ t ∈ targets, Pattern.isPattern t = true → ∃ paths, source.expand t = .ok paths

theorem names_of_literal {target : String} (literal : Pattern.isPattern target = false) :
    source.names target = [⟨target, false⟩] := by
  simp [FileSource.names, literal]

theorem fromPattern_of_pattern (source : FileSource) {target : String}
    (pattern : Pattern.isPattern target = true) :
    ∀ f ∈ source.names target, f.fromPattern = true := by
  intro f mem
  unfold FileSource.names at mem
  rw [if_pos pattern] at mem
  cases expanded : source.expand target with
  | error failure => simp [expanded] at mem
  | ok paths =>
    simp only [expanded, List.mem_map] at mem
    obtain ⟨path, _, rfl⟩ := mem
    rfl

theorem names_self {target : String} (literal : Pattern.isPattern target = false) :
    source.Names target target := by
  simp [FileSource.Names, names_of_literal literal, Path.same_self]

/-- Leaving out what came up before leaves out no path. -/
theorem any_keepFirst (named : List Found) (path : String) :
    (∃ f ∈ named.foldl keepFirst [], Path.same f.path path = true) ↔
      ∃ f ∈ named, Path.same f.path path = true := by
  induction named using List.reverseRecOn generalizing path with
  | nil => simp
  | append_singleton named f ih =>
    simp only [List.foldl_append, List.foldl_cons, List.foldl_nil, List.mem_append,
      List.mem_singleton, keepFirst, addFound]
    by_cases among : (named.foldl keepFirst []).any (fun g => Path.same g.path f.path) = true
    · rw [if_pos among, ih]
      constructor
      · rintro ⟨g, mem, same⟩
        exact ⟨g, .inl mem, same⟩
      · rintro ⟨g, mem | rfl, same⟩
        · exact ⟨g, mem, same⟩
        · obtain ⟨h, mem, same'⟩ := (ih g.path).1 (by simpa using among)
          exact ⟨h, mem, Path.same_trans same' same⟩
    · rw [if_neg among]
      simp only [List.mem_append, List.mem_singleton, or_and_right, exists_or, ih, exists_eq_left]

theorem mem_keepFirst {found : List Found} {f g : Found} :
    g ∈ keepFirst found f ↔
      g ∈ found ∨ g = f ∧ ∀ h ∈ found, Path.same h.path f.path = false := by
  unfold keepFirst addFound
  by_cases among : found.any (fun g => Path.same g.path f.path) = true
  · rw [if_pos among]
    simp only [List.any_eq_true] at among
    obtain ⟨h, mem, same⟩ := among
    constructor
    · exact .inl
    · rintro (mem | ⟨_, apart⟩)
      · exact mem
      · simp [apart h mem] at same
  · rw [if_neg among]
    have apart : ∀ h ∈ found, Path.same h.path f.path = false := by simpa using among
    rw [List.mem_append, List.mem_singleton]
    exact or_congr_right ⟨fun same => ⟨same, apart⟩, fun both => both.1⟩

theorem found_concat (source : FileSource) (targets : List String) (target : String) :
    source.found (targets ++ [target]) =
      (source.names target).foldl keepFirst (source.found targets) := by
  simp [FileSource.found]

theorem mem_foldl_keepFirst_of_pattern (named found : List Found)
    (pattern : ∀ f ∈ named, f.fromPattern = true) {g : Found} (literal : g.fromPattern = false) :
    g ∈ named.foldl keepFirst found ↔ g ∈ found := by
  induction named generalizing found with
  | nil => simp
  | cons f rest ih =>
    have other : g ≠ f := by
      rintro rfl
      simp [pattern g] at literal
    rw [List.foldl_cons, ih _ fun f mem => pattern f (by simp [mem]), mem_keepFirst]
    simp [other]

theorem names_found (source : FileSource) (targets : List String) (path : String) :
    (∃ f ∈ source.found targets, Path.same f.path path = true) ↔
      ∃ u ∈ targets, source.Names u path := by
  rw [FileSource.found, any_keepFirst]
  simp only [List.mem_flatMap, FileSource.Names]
  constructor
  · rintro ⟨f, ⟨u, target, mem⟩, same⟩
    exact ⟨u, target, f, mem, same⟩
  · rintro ⟨u, target, f, mem, same⟩
    exact ⟨f, ⟨u, target, mem⟩, same⟩

/-- Some target is fatal, and no target before it names its path. -/
def FileSource.Stops (source : FileSource) (targets : List String) : Prop :=
  ∃ before target after, targets = before ++ target :: after ∧ source.Fatal target ∧
    ∀ u ∈ before, ¬ source.Names u target

@[simp] theorem not_stops_nil : ¬ source.Stops [] := by
  simp [FileSource.Stops]

theorem stops_concat (targets : List String) (target : String) :
    source.Stops (targets ++ [target]) ↔ source.Stops targets ∨
      source.Fatal target ∧ ∀ u ∈ targets, ¬ source.Names u target := by
  constructor
  · rintro ⟨before, t, after, cut, fatal, first⟩
    cases after using List.reverseRecOn with
    | nil =>
      obtain ⟨rfl, same⟩ := List.append_inj' cut rfl
      obtain rfl : target = t := by simpa using same
      exact .inr ⟨fatal, first⟩
    | append_singleton after last =>
      rw [← List.cons_append, ← List.append_assoc] at cut
      obtain ⟨rfl, _⟩ := List.append_inj' cut rfl
      exact .inl ⟨before, t, after, rfl, fatal, first⟩
  · rintro (⟨before, t, after, rfl, fatal, first⟩ | ⟨fatal, first⟩)
    · exact ⟨before, t, after ++ [target], by simp, fatal, first⟩
    · exact ⟨targets, target, [], rfl, fatal, first⟩

/-- The paths to load keep a fatal target exactly when it stands before the others of its path. -/
theorem stops_iff_found (source : FileSource) (targets : List String) :
    source.Stops targets ↔
      ∃ f ∈ source.found targets, f.fromPattern = false ∧ source.Unreadable f.path := by
  induction targets using List.reverseRecOn with
  | nil => simp [FileSource.found]
  | append_singleton targets target ih =>
    rw [stops_concat, ih, found_concat]
    cases pattern : Pattern.isPattern target with
    | true =>
      have all := fromPattern_of_pattern source pattern
      have kept : ∀ f, f.fromPattern = false →
          (f ∈ (source.names target).foldl keepFirst (source.found targets) ↔
            f ∈ source.found targets) :=
        fun f literal => mem_foldl_keepFirst_of_pattern _ _ all literal
      have harmless : ¬ source.Fatal target := by simp [FileSource.Fatal, pattern]
      constructor
      · rintro (⟨f, mem, literal, unread⟩ | ⟨fatal, _⟩)
        · exact ⟨f, (kept f literal).2 mem, literal, unread⟩
        · exact absurd fatal harmless
      · rintro ⟨f, mem, literal, unread⟩
        exact .inl ⟨f, (kept f literal).1 mem, literal, unread⟩
    | false =>
      have first : (∀ h ∈ source.found targets, Path.same h.path target = false) ↔
          ∀ u ∈ targets, ¬ source.Names u target := by
        simpa using not_congr (names_found source targets target)
      rw [names_of_literal pattern, List.foldl_cons, List.foldl_nil, ← first]
      constructor
      · rintro (⟨f, mem, literal, unread⟩ | ⟨⟨_, unread⟩, apart⟩)
        · exact ⟨f, mem_keepFirst.2 (.inl mem), literal, unread⟩
        · exact ⟨⟨target, false⟩, mem_keepFirst.2 (.inr ⟨rfl, apart⟩), rfl, unread⟩
      · rintro ⟨f, mem, literal, unread⟩
        rcases mem_keepFirst.1 mem with mem | ⟨rfl, apart⟩
        · exact .inl ⟨f, mem, literal, unread⟩
        · exact .inr ⟨⟨pattern, unread⟩, apart⟩

theorem resolved_of_expands {targets : List String} (expands : source.Expands targets) (r : Resolution) :
    (resolveFrom source r targets).2 = .ok () := by
  induction targets generalizing r with
  | nil => rfl
  | cons target rest ih =>
    have further : source.Expands rest := fun t mem => expands t (by simp [mem])
    cases pattern : Pattern.isPattern target with
    | false => simp [resolveFrom, Resolution.add, pattern, ih further]
    | true =>
      obtain ⟨paths, expanded⟩ := expands target (by simp) pattern
      simp [resolveFrom, Resolution.add, pattern, expanded, ih further]

theorem found_ne_nil {targets : List String} {target : String} (mem : target ∈ targets)
    (literal : Pattern.isPattern target = false) : source.found targets ≠ [] := by
  obtain ⟨f, found, _⟩ := (names_found _ targets target).2 ⟨target, mem, names_self literal⟩
  exact List.ne_nil_of_mem found

theorem unreadable_iff_stops {targets : List String} (expands : source.Expands targets) :
    (∃ path failure, (load source targets).2 = .error (.unreadable path failure)) ↔
      source.Stops targets := by
  by_cases resolves : Resolves source targets
  · rw [load_of_resolves resolves, readFound_error_iff, stops_iff_found]
  · constructor
    · rintro ⟨path, failure, unread⟩
      rcases load_cases source targets with done | ⟨e, failed, other⟩
      · exact absurd done resolves
      · rw [failed] at unread
        exact absurd (Except.error.inj unread) (other path failure)
    · rintro ⟨before, target, after, rfl, fatal, _⟩
      exact absurd ⟨resolved_of_expands expands _, found_ne_nil (by simp) fatal.1⟩ resolves

theorem failsOn_iff {targets : List String} (expands : source.Expands targets) :
    source.FailsOn targets ↔ source.found targets = [] ∨ source.Stops targets := by
  constructor
  · rintro ⟨e, failed⟩
    by_cases none : source.found targets = []
    · exact .inl none
    · have same := load_of_resolves ⟨resolved_of_expands expands _, none⟩
      obtain ⟨path, failure, rfl⟩ := readFound_error _ (same.symm.trans failed)
      exact .inr ((unreadable_iff_stops expands).1 ⟨path, failure, failed⟩)
  · rintro (none | stops)
    · rcases load_cases source targets with resolves | ⟨e, failed, _⟩
      · exact absurd none resolves.some
      · exact ⟨e, failed⟩
    · obtain ⟨path, failure, failed⟩ := (unreadable_iff_stops expands).2 stops
      exact ⟨_, failed⟩

theorem found_nil_iff (targets : List String) :
    source.found targets = [] ↔ ∀ u ∈ targets, ∀ path, ¬ source.Names u path := by
  constructor
  · intro none u mem path names
    obtain ⟨f, found, _⟩ := (names_found _ targets path).2 ⟨u, mem, names⟩
    simp [none] at found
  · intro none
    by_contra some
    obtain ⟨f, found⟩ := List.exists_mem_of_ne_nil _ some
    obtain ⟨u, mem, names⟩ := (names_found _ targets f.path).1 ⟨f, found, Path.same_self _⟩
    exact none u mem _ names

open Classical in
theorem exists_first {α : Type} {p : α → Prop} {items : List α} (h : ∃ t ∈ items, p t) :
    ∃ before t after, items = before ++ t :: after ∧ p t ∧ ∀ u ∈ before, ¬ p u := by
  cases first : items.find? (fun t => decide (p t)) with
  | none =>
    obtain ⟨t, mem, holds⟩ := h
    have not := List.find?_eq_none.1 first t mem
    simp [holds] at not
  | some t =>
    obtain ⟨holds, before, after, cut, others⟩ := List.find?_eq_some_iff_append.1 first
    exact ⟨before, t, after, cut, by simpa using holds, by simpa using others⟩

/-- A path that only fatal targets name stops a run in any order. -/
theorem stops_of_only {targets : List String} {t : String} (mem : t ∈ targets)
    (fatal : source.Fatal t) (only : ∀ u ∈ targets, source.Names u t → source.Fatal u) :
    source.Stops targets := by
  obtain ⟨before, u, after, cut, names, first⟩ :=
    exists_first (p := fun u => source.Names u t) ⟨t, mem, names_self fatal.1⟩
  have fatal' : source.Fatal u := only u (by simp [cut]) names
  have same : Path.same u t = true := by
    simpa [FileSource.Names, names_of_literal fatal'.1] using names
  refine ⟨before, u, after, cut, fatal', ?_⟩
  rintro v before' ⟨f, named, same'⟩
  exact first v before' ⟨f, named, Path.same_trans same' same⟩

theorem stops_of_head {t : String} (rest : List String) (fatal : source.Fatal t) :
    source.Stops (t :: rest) :=
  ⟨[], t, rest, rfl, fatal, by simp⟩

/-- Fatal targets stop no run when they all stand last and each shares its path with another. -/
theorem not_stops_of_last {others fatals : List String} (harmless : ∀ u ∈ others, ¬ source.Fatal u)
    (shared : ∀ t ∈ fatals, source.Fatal t → ∃ u ∈ others, source.Names u t) :
    ¬ source.Stops (others ++ fatals) := by
  rintro ⟨before, t, after, cut, fatal, first⟩
  have last : t ∉ others := fun mem => harmless t mem fatal
  have mem : t ∈ fatals := by
    have : t ∈ others ++ fatals := by simp [cut]
    simpa [last] using this
  obtain ⟨u, other, names⟩ := shared t mem fatal
  have sooner : u ∈ before := by
    rcases List.append_eq_append_iff.1 cut with ⟨rest, rfl, _⟩ | ⟨rest, rfl, more⟩
    · simp [other]
    · cases rest with
      | nil => simpa using other
      | cons v rest =>
        obtain rfl : t = v := (List.cons.inj more).1
        simp at last
  exact first u sooner names

theorem failsOn_perm {targets targets' : List String} (perm : targets'.Perm targets)
    (expands : source.Expands targets) :
    source.FailsOn targets' ↔ source.found targets = [] ∨ source.Stops targets' := by
  have expands' : source.Expands targets' := fun t mem => expands t (perm.mem_iff.1 mem)
  rw [failsOn_iff expands', found_nil_iff, found_nil_iff]
  simp only [perm.mem_iff]

/-- When a target that cannot be read stops loading, and when this depends on the order. -/
theorem load_fails_at_first (source : FileSource) (targets : List String)
    (expands : source.Expands targets) :
    ((∃ path failure, (load source targets).2 = .error (.unreadable path failure)) ↔
      ∃ before target after, targets = before ++ target :: after ∧ source.Fatal target ∧
        ∀ u ∈ before, ¬ source.Names u target) ∧
    ((∀ targets', targets'.Perm targets → (source.FailsOn targets' ↔ source.FailsOn targets)) ↔
      (∀ t ∈ targets, ¬ source.Fatal t) ∨
        ∃ t ∈ targets, source.Fatal t ∧ ∀ u ∈ targets, source.Names u t → source.Fatal u) := by
  refine ⟨unreadable_iff_stops expands, ?_, ?_⟩
  · intro same
    by_contra mixed
    simp only [not_or, not_forall, not_exists, not_and, not_not] at mixed
    obtain ⟨⟨t, mem, fatal⟩, shared⟩ := mixed
    have some : source.found targets ≠ [] := found_ne_nil mem fatal.1
    -- A fatal target in front stops the run, while all of them at the end stop none.
    have soon : source.FailsOn (t :: targets.erase t) :=
      (failsOn_perm (List.perm_cons_erase mem).symm expands).2 (.inr (stops_of_head _ fatal))
    have fails := (same _ (List.perm_cons_erase mem).symm).1 soon
    classical
    have late := List.filter_append_perm (fun u => decide (¬ source.Fatal u)) targets
    rcases (failsOn_perm late expands).1 ((same _ late).2 fails) with none | stops
    · exact some none
    · refine not_stops_of_last ?_ ?_ stops
      · simp
      · intro t' mem' fatal'
        obtain ⟨u, other, names, harmless⟩ := shared t' (List.mem_of_mem_filter mem') fatal'
        exact ⟨u, by simp [other, harmless], names⟩
  · rintro (harmless | ⟨t, mem, fatal, only⟩) targets' perm
    · have never : ∀ order, order.Perm targets → ¬ source.Stops order := by
        rintro order perm ⟨before, t, after, rfl, fatal, _⟩
        exact harmless t (perm.mem_iff.1 (by simp)) fatal
      rw [failsOn_perm perm expands, failsOn_perm (.refl _) expands]
      simp [never _ perm, never _ (.refl _)]
    · have always : ∀ order, order.Perm targets → source.FailsOn order := by
        intro order perm
        rw [failsOn_perm perm expands]
        exact .inr (stops_of_only (perm.mem_iff.2 mem) fatal fun u mem => only u (perm.mem_iff.1 mem))
      exact iff_of_true (always _ perm) (always _ (.refl _))

/-- Files that cannot be read, one of which every pattern matches. -/
def FileSource.denied : FileSource where
  read _ := .error (.of "denied")
  expand _ := .ok ["a.js"]

theorem expands_denied (targets : List String) : FileSource.denied.Expands targets :=
  fun _ _ _ => ⟨["a.js"], rfl⟩

theorem isPattern_star : Pattern.isPattern "*.js" = true := by cbv

theorem fatal_denied : FileSource.denied.Fatal "a.js" := ⟨by cbv, .of "denied", rfl⟩

theorem load_fails_at_first_denied :
    FileSource.denied.Expands ["a.js", "*.js"] ∧
      (∃ path failure, (load .denied ["a.js", "*.js"]).2 = .error (.unreadable path failure)) ∧
      ¬ ∀ targets', targets'.Perm ["a.js", "*.js"] →
        (FileSource.denied.FailsOn targets' ↔ FileSource.denied.FailsOn ["a.js", "*.js"]) := by
  obtain ⟨stops, order⟩ := load_fails_at_first .denied ["a.js", "*.js"] (expands_denied _)
  refine ⟨expands_denied _, stops.2 ⟨[], "a.js", ["*.js"], rfl, fatal_denied, by simp⟩, ?_⟩
  rw [order]
  rintro (harmless | ⟨t, mem, fatal, only⟩)
  · exact harmless "a.js" (by simp) fatal_denied
  · have named : FileSource.denied.Names "*.js" "a.js" :=
      ⟨⟨"a.js", true⟩, by simp [FileSource.names, isPattern_star, FileSource.denied],
        Path.same_self _⟩
    rcases (show t = "a.js" ∨ t = "*.js" by simpa using mem) with rfl | rfl
    · obtain ⟨literal, _⟩ := only "*.js" (by simp) named
      simp [isPattern_star] at literal
    · simp [FileSource.Fatal, isPattern_star] at fatal

/-- A pattern that matches a fatal target before it takes the failure away. -/
theorem pattern_hides_fatal :
    FileSource.denied.Expands ["*.js", "a.js"] ∧ FileSource.denied.Fatal "a.js" ∧
      (load .denied ["*.js", "a.js"]).2 = .ok [] ∧
      (load .denied ["a.js", "*.js"]).2 = .error (.unreadable "a.js" (.of "denied")) := by
  have literal := fatal_denied.1
  refine ⟨expands_denied _, fatal_denied, ?_, ?_⟩ <;>
    simp [load, resolveFrom, Resolution.add, isPattern_star, literal, FileSource.denied, addFound,
      Path.same_self, readFound]

end FormatPreview
