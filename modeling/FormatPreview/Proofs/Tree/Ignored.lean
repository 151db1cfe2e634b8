import FormatPreview.Proofs.Tree.Expansion

/-!
What an expansion leaves out. A matched file is left out when a directory on its path has an ignored
name, and also when the file itself is called like that. So it is the directories alone that decide
unless a file bears an ignored name and no directory above it does.
-/
namespace FormatPreview.Tree

open Pattern (Glob expandBraces)

/-- A component before the last one has an ignored name. -/
def UnderIgnored (path : String) : Prop :=
  ∃ name ∈ ignoredNames, .name name ∈ (Path.components path).dropLast

/-- The last component has an ignored name. -/
def NamedIgnored (path : String) : Prop :=
  ∃ name ∈ ignoredNames, (Path.components path).getLast? = some (.name name)

/-- A path is among paths in no spelling. -/
def LeftOut (paths : List String) (path : String) : Prop := ∀ p ∈ paths, Path.same p path = false

instance (path : String) : Decidable (UnderIgnored path) :=
  inferInstanceAs (Decidable (∃ name ∈ ignoredNames, _))

instance (path : String) : Decidable (NamedIgnored path) :=
  inferInstanceAs (Decidable (∃ name ∈ ignoredNames, _))

instance (paths : List String) (path : String) : Decidable (LeftOut paths path) :=
  inferInstanceAs (Decidable (∀ p ∈ paths, _))

variable {t : Tree} {start : Place} {pattern path other : String} {paths : List String} {m : Match}

theorem ignored_iff_component (path : String) :
    ignored path = true ↔ ∃ name ∈ ignoredNames, .name name ∈ Path.components path := by
  simp only [ignored, List.any_eq_true]
  constructor
  · rintro ⟨c, mem, named⟩
    cases c with
    | name value => exact ⟨value, by simpa using named, mem⟩
    | root | current | parent => simp at named
  · rintro ⟨name, listed, mem⟩
    exact ⟨.name name, mem, by simpa using listed⟩

/-- The component with an ignored name is the last one or stands before it. -/
theorem ignored_iff (path : String) : ignored path = true ↔ UnderIgnored path ∨ NamedIgnored path := by
  have mem_iff (c : Component) : c ∈ Path.components path ↔
      c ∈ (Path.components path).dropLast ∨ (Path.components path).getLast? = some c := by
    rcases List.eq_nil_or_concat (Path.components path) with none | ⟨before, last, cut⟩
    · simp [none]
    · simp [cut, eq_comm]
  rw [ignored_iff_component]
  simp only [UnderIgnored, NamedIgnored, mem_iff, and_or_left, exists_or]

theorem ignored_congr (same : Path.same path other = true) : ignored path = ignored other := by
  have components : Path.components path = Path.components other := by simpa [Path.same] using same
  rw [ignored, ignored, components]

theorem leftOut_iff_ignored (expanded : t.expand start pattern = .ok paths)
    (matched : Matched t start pattern m) : LeftOut paths m.path ↔ ignored m.path = true := by
  have found : (∃ p ∈ paths, Path.same p m.path = true) ↔ ignored m.path = false := by
    rw [same_expand_iff expanded]
    constructor
    · rintro ⟨_, _, other, same⟩
      rwa [← ignored_congr same]
    · exact fun other => ⟨m, matched, other, Path.same_self _⟩
  simpa [LeftOut] using not_congr found

theorem exists_expand (t : Tree) (start : Place)
    (valid : ∀ word ∈ expandBraces pattern, ∃ glob, Glob.ofText word = .ok glob) :
    ∃ paths, t.expand start pattern = .ok paths := by
  cases expanded : t.expand start pattern with
  | ok paths => exact ⟨paths, rfl⟩
  | error failure =>
    obtain ⟨word, given, e, wrong⟩ := expand_error_iff.1 ⟨failure, expanded⟩
    obtain ⟨glob, read⟩ := valid word given
    simp [wrong] at read

/-- The last component of the path of a matched file is the name of the file, and what stands before
it leads to the directory that the file is in. -/
theorem Matched.namedIgnored_iff (proper : t.Proper) (matched : Matched t start pattern m) :
    ∃ name above, t.resolve? start m.path = some (name :: above) ∧ t.isFile (name :: above) = true ∧
      t.isDirectory above = true ∧ (NamedIgnored m.path ↔ name ∈ ignoredNames) := by
  obtain ⟨place, resolved, file⟩ := matched.isFile
  obtain ⟨name, above, before, rfl, directory, components⟩ :=
    components_of_isFile proper resolved file
  refine ⟨name, above, resolved, file, directory, ?_⟩
  simp [NamedIgnored, components]

/-- What is returned of the matched files, and what is left out. -/
structure Exclusion (t : Tree) (start : Place) (pattern : String) (paths : List String) : Prop where
  kept : ∀ path ∈ paths, ∃ m, Matched t start pattern m ∧ m.path = path ∧
    ¬ UnderIgnored path ∧ ¬ NamedIgnored path
  leftOut_iff : ∀ m, Matched t start pattern m →
    (LeftOut paths m.path ↔ UnderIgnored m.path ∨ NamedIgnored m.path)
  /-- The directories alone decide about a file unless it is the only one to bear an ignored name. -/
  directories_iff : ∀ m, Matched t start pattern m →
    ((LeftOut paths m.path ↔ UnderIgnored m.path) ↔ (NamedIgnored m.path → UnderIgnored m.path))
  own_name : t.Proper → ∀ m, Matched t start pattern m →
    ∃ name above, t.resolve? start m.path = some (name :: above) ∧ t.isFile (name :: above) = true ∧
      t.isDirectory above = true ∧ (NamedIgnored m.path ↔ name ∈ ignoredNames)

/-- Of the files that the words of a pattern match, those are left out that an ignored name stands
above or that have one. -/
theorem expand_excludes_ignored (t : Tree) (start : Place) (pattern : String)
    (valid : ∀ word ∈ expandBraces pattern, ∃ glob, Glob.ofText word = .ok glob) :
    ∃ paths, t.expand start pattern = .ok paths ∧ Exclusion t start pattern paths := by
  obtain ⟨paths, expanded⟩ := exists_expand t start valid
  have leftOut_iff : ∀ m, Matched t start pattern m →
      (LeftOut paths m.path ↔ UnderIgnored m.path ∨ NamedIgnored m.path) := fun m matched =>
    (leftOut_iff_ignored expanded matched).trans (ignored_iff m.path)
  refine ⟨paths, expanded, ?_, leftOut_iff, ?_,
    fun proper m matched => matched.namedIgnored_iff proper⟩
  · intro path mem
    obtain ⟨m, matched, other, rfl⟩ := matched_of_expand expanded mem
    have neither := (ignored_iff m.path).not.1 (by simp [other])
    exact ⟨m, matched, rfl, not_or.1 neither⟩
  · intro m matched
    rw [leftOut_iff m matched, or_iff_left_iff_imp]

/-- Sources, one of them named like a directory of builds, and such a directory. -/
def workshop : Tree :=
  ⟨[(["a", "dist"], .file (some [97])), (["dist"], .directory .all),
    (["a", "src"], .file (some [97])), (["dist", "src"], .file (some [])),
    (["src"], .directory .all)]⟩

theorem proper_workshop : workshop.Proper := by decide

theorem expandBraces_twoNames : expandBraces "*/*" = ["*/*"] := by cbv

theorem ofText_twoNames :
    Glob.ofText "*/*" = .ok ⟨false, [.wild [.anyText], .wild [.anyText]], false⟩ := by cbv

theorem find_workshop : workshop.find [] ⟨false, [.wild [.anyText], .wild [.anyText]], false⟩ =
    [.ok ⟨"dist/a", some ["a", "dist"], false⟩, .ok ⟨"src/a", some ["a", "src"], false⟩,
      .ok ⟨"src/dist", some ["dist", "src"], false⟩] := by
  have top : workshop.children [] = ["dist", "src"] :=
    children_of_ascending (by decide) (by decide)
  have builds : workshop.children ["dist"] = ["a"] :=
    children_of_ascending (by decide) (by decide)
  have sources : workshop.children ["src"] = ["a", "dist"] :=
    children_of_ascending (by decide) (by decide)
  have dist : workshop.search [.wild [.anyText]] (workshop.child "." [] "dist") =
      [.ok ⟨"dist/a", some ["a", "dist"], false⟩] := by
    rw [search_star (workshop.child "." [] "dist") ["dist"] [] rfl rfl, builds]
    simp only [search]
    decide
  have src : workshop.search [.wild [.anyText]] (workshop.child "." [] "src") =
      [.ok ⟨"src/a", some ["a", "src"], false⟩, .ok ⟨"src/dist", some ["dist", "src"], false⟩] := by
    rw [search_star (workshop.child "." [] "src") ["src"] [] rfl rfl, sources]
    simp only [search]
    decide
  rw [find, search_star (workshop.origin [] false) [] _ rfl rfl, top]
  simp only [List.flatMap_cons, List.flatMap_nil]
  rw [show (workshop.origin [] false).path = "." from rfl, dist, src]
  rfl

theorem expand_workshop : workshop.expand [] "*/*" = .ok ["src/a"] := by
  have word : "*/*" ∈ expandBraces "*/*" := by simp [expandBraces_twoNames]
  have matched : workshop.matchedFiles [] "*/*" = .ok ["src/a"] := by
    refine matchedFiles_ok_iff.2 ⟨_, ofText_twoNames, ?_⟩
    rw [find_workshop]
    decide
  exact expand_word word matched

theorem matched_workshop
    (mem : .ok m ∈ workshop.find [] ⟨false, [.wild [.anyText], .wild [.anyText]], false⟩)
    (file : workshop.leadsToFile [] m.path = true) : Matched workshop [] "*/*" m :=
  ⟨⟨"*/*", by simp [expandBraces_twoNames], _, ofText_twoNames, mem⟩, file⟩

/-- The file in the directory of builds is left out, the source is not. -/
theorem expand_excludes_ignored_workshop :
    (∀ word ∈ expandBraces "*/*", ∃ glob, Glob.ofText word = .ok glob) ∧
      workshop.expand [] "*/*" = .ok ["src/a"] ∧ Exclusion workshop [] "*/*" ["src/a"] ∧
      Matched workshop [] "*/*" ⟨"dist/a", some ["a", "dist"], false⟩ ∧ UnderIgnored "dist/a" ∧
      LeftOut ["src/a"] "dist/a" := by
  have valid : ∀ word ∈ expandBraces "*/*", ∃ glob, Glob.ofText word = .ok glob := by
    simp [expandBraces_twoNames, ofText_twoNames]
  obtain ⟨paths, expanded, exclusion⟩ := expand_excludes_ignored workshop [] "*/*" valid
  obtain rfl : paths = ["src/a"] := Except.ok.inj (expanded.symm.trans expand_workshop)
  exact ⟨valid, expanded, exclusion, matched_workshop (by simp [find_workshop]) (by decide),
    by decide, by decide⟩

/-- A source called `dist` is left out, though no directory above it has an ignored name. -/
theorem source_named_dist_left_out :
    workshop.Proper ∧ workshop.expand [] "*/*" = .ok ["src/a"] ∧
      Matched workshop [] "*/*" ⟨"src/dist", some ["dist", "src"], false⟩ ∧
      LeftOut ["src/a"] "src/dist" ∧ ¬ UnderIgnored "src/dist" :=
  ⟨proper_workshop, expand_workshop, matched_workshop (by simp [find_workshop]) (by decide),
    by decide, by decide⟩

end FormatPreview.Tree
