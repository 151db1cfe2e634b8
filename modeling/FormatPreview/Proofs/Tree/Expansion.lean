import FormatPreview.Proofs.Pattern.Brace
import FormatPreview.Proofs.Tree.Walk
import Mathlib

/-!
What a pattern stands for in a tree: the files that its words find, each path once and in the order of
paths. A word has no group of its own left, so it stands for what it finds, and the pattern for all
that its words stand for. Only which words there are makes a difference, not their order.
-/
namespace FormatPreview.Tree

open Pattern (Glob Segment expandBraces)

/-! Paths put into place one after the other. -/

section

variable {paths : List String} {path p : String}

theorem mem_insertPath (mem : p ∈ insertPath path paths) : p = path ∨ p ∈ paths := by
  fun_induction insertPath path paths with
  | case1 => exact .inl (List.mem_singleton.1 mem)
  | case2 => exact List.mem_cons.1 mem
  | case3 => exact .inr mem
  | case4 q rest _ _ ih =>
    rcases List.mem_cons.1 mem with rfl | mem
    · exact .inr (List.mem_cons_self ..)
    · exact (ih mem).imp_right (List.mem_cons_of_mem _)

theorem ascending_insertPath (ascending : Path.Ascending paths) (path : String) :
    Path.Ascending (insertPath path paths) := by
  fun_induction insertPath path paths with
  | case1 => exact List.pairwise_singleton _ _
  | case2 p rest less =>
    obtain ⟨above, _⟩ := List.pairwise_cons.1 ascending
    refine List.pairwise_cons.2 ⟨fun q mem => ?_, ascending⟩
    rcases List.mem_cons.1 mem with rfl | mem
    · exact less
    · exact Path.before_trans less (above q mem)
  | case3 => exact ascending
  | case4 p rest less other ih =>
    obtain ⟨above, rest⟩ := List.pairwise_cons.1 ascending
    refine List.pairwise_cons.2 ⟨fun q mem => ?_, ih rest⟩
    rcases mem_insertPath mem with rfl | mem
    · by_contra later
      exact other (Path.same_of_not_before (by simpa using less) (by simpa using later))
    · exact above q mem

/-- A path that is put in is there in some spelling, and nothing goes away. -/
theorem same_insertPath (path : String) (paths : List String) (other : String) :
    (∃ q ∈ insertPath path paths, Path.same q other = true) ↔
      Path.same path other = true ∨ ∃ q ∈ paths, Path.same q other = true := by
  fun_induction insertPath path paths with
  | case1 => simp
  | case2 p rest less => simp
  | case3 p rest less same =>
    have either : Path.same path other = true → Path.same p other = true := fun here =>
      Path.same_trans (by rwa [Path.same_comm]) here
    constructor
    · exact .inr
    · rintro (here | there)
      · exact ⟨p, List.mem_cons_self .., either here⟩
      · exact there
  | case4 p rest less other ih => simp only [List.exists_mem_cons_iff, ih, or_left_comm]

theorem mem_insertPath_iff (ascending : Path.Ascending paths) :
    p ∈ insertPath path paths ↔ p ∈ paths ∨ p = path ∧ ∀ q ∈ paths, Path.same q path = false := by
  fun_induction insertPath path paths with
  | case1 => simp
  | case2 first rest less =>
    have fresh : ∀ q ∈ first :: rest, Path.same q path = false := by
      intro q mem
      rw [Path.same_comm]
      refine Path.not_same_of_before ?_
      rcases List.mem_cons.1 mem with rfl | mem
      · exact less
      · exact Path.before_trans less ((List.pairwise_cons.1 ascending).1 q mem)
    rw [List.mem_cons, or_comm]
    exact or_congr_right ⟨fun same => ⟨same, fresh⟩, And.left⟩
  | case3 first rest less same =>
    constructor
    · exact .inl
    · rintro (mem | ⟨_, fresh⟩)
      · exact mem
      · simp [Path.same_comm first, same] at fresh
  | case4 first rest less other ih =>
    have apart : Path.same first path = false := by simpa [Path.same_comm first] using other
    rw [List.mem_cons, List.mem_cons, ih (List.pairwise_cons.1 ascending).2]
    simp [apart, or_assoc]

/-- Paths in ascending order, each in the spelling in which it comes up first. -/
def collected (paths : List String) : List String :=
  paths.foldl (fun paths path => insertPath path paths) []

theorem collected_concat (paths : List String) (path : String) :
    collected (paths ++ [path]) = insertPath path (collected paths) := by
  simp [collected]

theorem ascending_collected (paths : List String) : Path.Ascending (collected paths) := by
  induction paths using List.reverseRecOn with
  | nil => exact .nil
  | append_singleton paths path ih =>
    rw [collected_concat]
    exact ascending_insertPath ih path

theorem same_collected (paths : List String) (path : String) :
    (∃ q ∈ collected paths, Path.same q path = true) ↔ ∃ q ∈ paths, Path.same q path = true := by
  induction paths using List.reverseRecOn with
  | nil => rfl
  | append_singleton paths last ih =>
    rw [collected_concat, same_insertPath, ih]
    simp only [List.mem_append, List.mem_singleton, or_and_right, exists_or, exists_eq_left, or_comm]

theorem fresh_collected_iff (paths : List String) (path : String) :
    (∀ q ∈ collected paths, Path.same q path = false) ↔ paths.find? (Path.same · path) = none := by
  have either := not_congr (same_collected paths path)
  simpa using either

theorem mem_collected_iff (paths : List String) (p : String) :
    p ∈ collected paths ↔ paths.find? (Path.same · p) = some p := by
  induction paths using List.reverseRecOn with
  | nil => simp [collected]
  | append_singleton paths path ih =>
    rw [collected_concat, mem_insertPath_iff (ascending_collected paths), ih, List.find?_append,
      fresh_collected_iff]
    cases first : paths.find? (Path.same · p) with
    | some q =>
      have late : ¬ (p = path ∧ paths.find? (Path.same · path) = none) := by
        rintro ⟨rfl, none⟩
        simp [first] at none
      rw [Option.some_or]
      exact or_iff_left late
    | none =>
      constructor
      · rintro (other | ⟨rfl, _⟩)
        · simp at other
        · simp [Path.same_self]
      · intro last
        obtain ⟨_, rfl⟩ : Path.same path p = true ∧ path = p := by
          simpa [List.find?_singleton] using last
        exact .inr ⟨rfl, first⟩

end

variable {t : Tree} {start : Place} {pattern other word : String} {paths found : List String}

theorem matchedFiles_ok_iff :
    t.matchedFiles start word = .ok found ↔ ∃ glob, Glob.ofText word = .ok glob ∧
      found = (t.find start glob).filterMap (t.kept? start) := by
  unfold matchedFiles
  cases Glob.ofText word <;> simp [bind, Except.bind, pure, Except.pure, eq_comm]

theorem matchedFiles_error_iff :
    (∃ e, t.matchedFiles start word = .error e) ↔ ∃ e, Glob.ofText word = .error e := by
  unfold matchedFiles
  cases Glob.ofText word <;> simp [bind, Except.bind, pure, Except.pure]

theorem expand_ok_iff :
    t.expand start pattern = .ok paths ↔ ∃ founds,
      (expandBraces pattern).mapM (t.matchedFiles start) = .ok founds ∧
        paths = collected founds.flatten := by
  unfold expand expandWords
  cases (expandBraces pattern).mapM (t.matchedFiles start) <;>
    simp [bind, Except.bind, pure, Except.pure, Except.mapError, collected, eq_comm]

theorem expand_error_iff :
    (∃ failure, t.expand start pattern = .error failure) ↔
      ∃ word ∈ expandBraces pattern, ∃ e, Glob.ofText word = .error e := by
  have words : (∃ e, (expandBraces pattern).mapM (t.matchedFiles start) = .error e) ↔
      ∃ word ∈ expandBraces pattern, ∃ e, t.matchedFiles start word = .error e :=
    Pattern.mapM_error_iff
  simp only [matchedFiles_error_iff] at words
  rw [← words]
  unfold expand expandWords
  cases (expandBraces pattern).mapM (t.matchedFiles start) <;>
    simp [bind, Except.bind, pure, Except.pure, Except.mapError]

/-- A word expands to what it finds. -/
theorem expand_word (mem : word ∈ expandBraces pattern)
    (read : t.matchedFiles start word = .ok found) : t.expand start word = .ok (collected found) := by
  refine expand_ok_iff.2 ⟨[found], ?_, by simp⟩
  rw [Pattern.expandBraces_of_mem mem]
  simp [read, bind, Except.bind, pure, Except.pure]

/-- A word of a pattern finds a file. -/
structure Matched (t : Tree) (start : Place) (pattern : String) (m : Match) : Prop where
  found : ∃ word ∈ expandBraces pattern, ∃ glob,
    Glob.ofText word = .ok glob ∧ .ok m ∈ t.find start glob
  file : t.leadsToFile start m.path = true

theorem kept?_eq_some_iff {hit : Hit} {path : String} :
    t.kept? start hit = some path ↔ ∃ m, hit = .ok m ∧ t.leadsToFile start m.path = true ∧
      ignored m.path = false ∧ m.path = path := by
  cases hit <;> simp [kept?, and_assoc]

theorem mem_flatten_iff {founds : List (List String)}
    (read : (expandBraces pattern).mapM (t.matchedFiles start) = .ok founds) (path : String) :
    path ∈ founds.flatten ↔
      ∃ m, Matched t start pattern m ∧ ignored m.path = false ∧ m.path = path := by
  obtain ⟨results, words⟩ := Pattern.mem_of_mapM read
  rw [List.mem_flatten]
  constructor
  · rintro ⟨found, inside, mem⟩
    obtain ⟨word, given, matched⟩ := words found inside
    obtain ⟨glob, written, rfl⟩ := matchedFiles_ok_iff.1 matched
    obtain ⟨hit, found, kept⟩ := List.mem_filterMap.1 mem
    obtain ⟨m, rfl, file, other, same⟩ := kept?_eq_some_iff.1 kept
    exact ⟨m, ⟨⟨word, given, glob, written, found⟩, file⟩, other, same⟩
  · rintro ⟨m, ⟨⟨word, given, glob, written, mem⟩, file⟩, other, same⟩
    obtain ⟨found, inside, matched⟩ := results word given
    obtain ⟨glob', written', rfl⟩ := matchedFiles_ok_iff.1 matched
    obtain rfl := Except.ok.inj (written.symm.trans written')
    exact ⟨_, inside, List.mem_filterMap.2 ⟨_, mem, kept?_eq_some_iff.2 ⟨m, rfl, file, other, same⟩⟩⟩

/-- The files among the paths of an expansion are the matched ones that are not ignored. -/
theorem same_expand_iff (expanded : t.expand start pattern = .ok paths) (path : String) :
    (∃ p ∈ paths, Path.same p path = true) ↔
      ∃ m, Matched t start pattern m ∧ ignored m.path = false ∧ Path.same m.path path = true := by
  obtain ⟨founds, read, rfl⟩ := expand_ok_iff.1 expanded
  rw [same_collected]
  simp only [mem_flatten_iff read]
  constructor
  · rintro ⟨p, ⟨m, matched, other, rfl⟩, same⟩
    exact ⟨m, matched, other, same⟩
  · rintro ⟨m, matched, other, same⟩
    exact ⟨m.path, ⟨m, matched, other, rfl⟩, same⟩

theorem matched_of_expand (expanded : t.expand start pattern = .ok paths) {path : String}
    (mem : path ∈ paths) :
    ∃ m, Matched t start pattern m ∧ ignored m.path = false ∧ m.path = path := by
  obtain ⟨founds, read, rfl⟩ := expand_ok_iff.1 expanded
  rw [← mem_flatten_iff read]
  exact List.mem_of_find?_eq_some ((mem_collected_iff _ _).1 mem)

theorem Matched.isFile {m : Match} (matched : Matched t start pattern m) :
    ∃ place, t.resolve? start m.path = some place ∧ t.isFile place = true := by
  simpa [leadsToFile, Option.any_eq_true] using matched.file

theorem Matched.leads {m : Match} (proper : t.Proper) (matched : Matched t start pattern m) :
    t.Leads start m := by
  obtain ⟨word, _, glob, read, mem⟩ := matched.found
  exact stands_of_mem_find proper read mem

/-- What is told as unreadable is told by a search for a word. -/
theorem stands_of_mem_unreadable (proper : t.Proper) {words : List String} {u : Unreadable}
    (mem : u ∈ t.unreadable start words) : t.Stands start (.error u) := by
  fun_induction unreadable t start words with
  | case1 | case2 => simp at mem
  | case3 word rest glob read ih =>
    rcases List.mem_append.1 mem with mem | mem
    · obtain ⟨hit, found, told⟩ := List.mem_filterMap.1 mem
      cases hit with
      | ok m => simp [unreadable?] at told
      | error u' =>
        obtain rfl := Option.some.inj told
        exact stands_of_mem_find proper read found
    · exact ih mem

theorem Matched.congr {m : Match}
    (same : ∀ word, word ∈ expandBraces other ↔ word ∈ expandBraces pattern) :
    Matched t start other m ↔ Matched t start pattern m := by
  constructor
  · rintro ⟨⟨word, given, found⟩, file⟩
    exact ⟨⟨word, (same word).1 given, found⟩, file⟩
  · rintro ⟨⟨word, given, found⟩, file⟩
    exact ⟨⟨word, (same word).2 given, found⟩, file⟩

/-- A pattern of the same words, in another order or more than once, expands to the same paths. -/
theorem expand_congr (expanded : t.expand start pattern = .ok paths)
    (same : ∀ word, word ∈ expandBraces other ↔ word ∈ expandBraces pattern) :
    ∃ paths', t.expand start other = .ok paths' ∧
      paths'.map Path.components = paths.map Path.components := by
  cases expanded' : t.expand start other with
  | error failure =>
    obtain ⟨word, given, wrong⟩ := expand_error_iff.1 ⟨failure, expanded'⟩
    have failed : ∃ failure, t.expand start pattern = .error failure :=
      expand_error_iff.2 ⟨word, (same word).1 given, wrong⟩
    simp [expanded] at failed
  | ok paths' =>
    refine ⟨paths', rfl, ?_⟩
    obtain ⟨founds, _, rfl⟩ := expand_ok_iff.1 expanded
    obtain ⟨founds', _, rfl⟩ := expand_ok_iff.1 expanded'
    refine (ascending_collected _).map_components_eq (ascending_collected _) fun path => ?_
    rw [same_expand_iff expanded, same_expand_iff expanded']
    simp only [Matched.congr same]

/-- What a pattern expands to, as what its words expand to. -/
structure Expansion (t : Tree) (start : Place) (pattern : String) (paths : List String) : Prop where
  ascending : paths.Pairwise fun a b => Path.before a b = true
  files : ∀ path ∈ paths, ∃ m, Matched t start pattern m ∧ m.path = path
  regular : ∀ path ∈ paths, ∃ place, t.resolve? start path = some place ∧ t.isFile place = true
  within : ∀ path ∈ paths, ∃ word ∈ expandBraces pattern, ∃ found,
    t.expand start word = .ok found ∧ path ∈ found
  whole : ∀ word ∈ expandBraces pattern, ∃ found, t.expand start word = .ok found ∧
    ∀ path ∈ found, ∃ p ∈ paths, Path.same p path = true
  /-- It is the words that count, not their order nor how often they come up. -/
  unordered : ∀ other, (∀ word, word ∈ expandBraces other ↔ word ∈ expandBraces pattern) →
    ∃ paths', t.expand start other = .ok paths' ∧
      paths'.map Path.components = paths.map Path.components
  /-- In a tree of proper names a match is found where its path leads. -/
  leads : t.Proper → ∀ m, Matched t start pattern m → t.resolve? start m.path = m.place
  /-- What is passed over as unreadable leads to no directory that could be listed. -/
  unlisted : t.Proper → ∀ u ∈ t.unreadable start (expandBraces pattern), ∀ place,
    t.resolve? start u.path = some place → t.isDirectory place = true ∧ t.listed place = false

/-- A pattern fails to expand when one of its words is no pattern, whatever can be read of the tree,
and otherwise expands to the files of all its words, each once and in the order of paths. -/
theorem expand_unites_words (t : Tree) (start : Place) (pattern : String) :
    ((∃ failure, t.expand start pattern = .error failure) ↔
      ∃ word ∈ expandBraces pattern, ∃ e, Glob.ofText word = .error e) ∧
    ∀ paths, t.expand start pattern = .ok paths → Expansion t start pattern paths := by
  refine ⟨expand_error_iff, fun paths expanded => ?_⟩
  obtain ⟨founds, read, rfl⟩ := expand_ok_iff.1 expanded
  obtain ⟨results, words⟩ := Pattern.mem_of_mapM read
  have files : ∀ path ∈ collected founds.flatten, ∃ m, Matched t start pattern m ∧ m.path = path := by
    intro path mem
    obtain ⟨m, matched, _, same⟩ := matched_of_expand expanded mem
    exact ⟨m, matched, same⟩
  refine ⟨ascending_collected _, files, ?_, ?_, ?_, fun other => expand_congr expanded,
    fun proper m matched => (matched.leads proper).place,
    fun proper u mem => stands_of_mem_unreadable proper mem⟩
  · intro path mem
    obtain ⟨m, matched, rfl⟩ := files path mem
    exact matched.isFile
  · intro path mem
    -- The first file of this path comes first among those of its own word too.
    rw [mem_collected_iff, List.find?_flatten] at mem
    obtain ⟨found, inside, first⟩ := List.exists_of_findSome?_eq_some mem
    obtain ⟨word, given, matched⟩ := words found inside
    exact ⟨word, given, _, expand_word given matched, (mem_collected_iff _ _).2 first⟩
  · intro word given
    obtain ⟨found, inside, matched⟩ := results word given
    refine ⟨_, expand_word given matched, fun path mem => ?_⟩
    obtain ⟨p, mem, same⟩ := (same_collected found path).1 ⟨path, mem, Path.same_self path⟩
    exact (same_collected _ path).2 ⟨p, List.mem_flatten.2 ⟨found, inside, mem⟩, same⟩

theorem children_of_ascending {place : Place} {names : List String}
    (below : t.namesBelow place = names)
    (ascending : names.Pairwise fun a b => decide (a ≤ b) = true) : t.children place = names := by
  rw [children, below, List.mergeSort_of_pairwise ascending]

/-- A star stands for every name in a directory. -/
theorem search_star (m : Match) (place : Place) (rest : List Segment)
    (directory : m.directory = true) (listing : t.listing? m = some place) :
    t.search (.wild [.anyText] :: rest) m =
      (t.children place).flatMap fun name => t.search rest (t.child m.path place name) := by
  have every : ∀ cs : List Char, Pattern.fits [.anyText] cs = true := by
    intro cs
    induction cs with
    | nil => simp [Pattern.fits]
    | cons c cs ih => rw [Pattern.fits, ih, Bool.or_true]
  simp [search, directory, listing, Segment.accepts, Segment.dots, every]

/-- A source and a pipe, and a directory that cannot be listed. -/
def yard : Tree :=
  ⟨[(["a", "src"], .file (some [97])), (["pipe", "src"], .other), (["src"], .directory .all),
    (["b", "vault"], .file none), (["vault"], .directory ⟨false, true⟩)]⟩

theorem proper_yard : yard.Proper := by decide

theorem find_yard :
    yard.find ["src"] ⟨true, [.wild [.anyText], .wild [.anyText]], false⟩ =
      [.ok ⟨"/src/a", some ["a", "src"], false⟩, .ok ⟨"/src/pipe", some ["pipe", "src"], false⟩,
        .error ⟨"/vault"⟩] := by
  have top : yard.children [] = ["src", "vault"] :=
    children_of_ascending (by decide) (by decide)
  have sources : yard.children ["src"] = ["a", "pipe"] :=
    children_of_ascending (by decide) (by decide)
  have src : yard.search [.wild [.anyText]] (yard.child "/" [] "src") =
      [.ok ⟨"/src/a", some ["a", "src"], false⟩,
        .ok ⟨"/src/pipe", some ["pipe", "src"], false⟩] := by
    rw [search_star (yard.child "/" [] "src") ["src"] [] rfl rfl, sources]
    simp only [search]
    decide
  have vault : yard.search [.wild [.anyText]] (yard.child "/" [] "vault") =
      [.error ⟨"/vault"⟩] := by
    have unlisted : yard.listing? (yard.child "/" [] "vault") = none := rfl
    have directory : (yard.child "/" [] "vault").directory = true := rfl
    simp only [search, directory, unlisted, if_true]
    decide
  rw [find, search_star (yard.origin ["src"] true) [] _ rfl rfl, top]
  simp only [List.flatMap_cons, List.flatMap_nil]
  rw [show (yard.origin ["src"] true).path = "/" from rfl, src, vault]
  rfl

theorem find_yard_source :
    yard.find ["src"] ⟨true, [.literal "src", .literal ".", .literal "a"], false⟩ =
      [.ok ⟨"/src/./a", some ["a", "src"], false⟩] := by
  have root : yard.origin ["src"] true = ⟨"/", some [], true⟩ := by decide
  have src : yard.step? ⟨"/", some [], true⟩ "src" = some ⟨"/src", some ["src"], true⟩ := by decide
  have dot : yard.step? ⟨"/src", some ["src"], true⟩ "." = some ⟨"/src/.", some ["src"], true⟩ := by
    decide
  have file : yard.step? ⟨"/src/.", some ["src"], true⟩ "a" =
      some ⟨"/src/./a", some ["a", "src"], false⟩ := by decide
  simp [find, search, root, src, dot, file]

/-- Two words find one path from the root in two spellings, of which the first stays. The pipe is no
file, and the directory that cannot be listed is passed over. -/
theorem expand_unites_words_overlapping :
    yard.Proper ∧ yard.expand ["src"] "{/src/./a,/*/*}" = .ok ["/src/./a"] ∧
      yard.unreadable ["src"] (expandBraces "{/src/./a,/*/*}") = [⟨"/vault"⟩] ∧
      Expansion yard ["src"] "{/src/./a,/*/*}" ["/src/./a"] := by
  have words : expandBraces "{/src/./a,/*/*}" = ["/src/./a", "/*/*"] := by
    have group : Pattern.group? "{/src/./a,/*/*}".toList =
        some ⟨[], ["/src/./a".toList, "/*/*".toList], []⟩ := rfl
    have path : Pattern.group? "/src/./a".toList = none := rfl
    have names : Pattern.group? "/*/*".toList = none := rfl
    rw [expandBraces, Pattern.words_of_some group]
    simp only [List.nil_append, List.append_nil, List.flatMap_cons, List.flatMap_nil,
      Pattern.words_of_none path, Pattern.words_of_none names, List.cons_append, List.map_cons,
      List.map_nil, String.ofList_toList]
  have source : Glob.ofText "/src/./a" =
      .ok ⟨true, [.literal "src", .literal ".", .literal "a"], false⟩ := by cbv
  have names : Glob.ofText "/*/*" =
      .ok ⟨true, [.wild [.anyText], .wild [.anyText]], false⟩ := by cbv
  have first : yard.matchedFiles ["src"] "/src/./a" = .ok ["/src/./a"] := by
    refine matchedFiles_ok_iff.2 ⟨_, source, ?_⟩
    rw [find_yard_source]
    decide
  have second : yard.matchedFiles ["src"] "/*/*" = .ok ["/src/a"] := by
    refine matchedFiles_ok_iff.2 ⟨_, names, ?_⟩
    rw [find_yard]
    decide
  have expanded : yard.expand ["src"] "{/src/./a,/*/*}" = .ok ["/src/./a"] := by
    refine expand_ok_iff.2 ⟨[["/src/./a"], ["/src/a"]], ?_, by decide⟩
    rw [words]
    simp [first, second, bind, Except.bind, pure, Except.pure]
  have unlisted : yard.unreadable ["src"] (expandBraces "{/src/./a,/*/*}") = [⟨"/vault"⟩] := by
    simp only [words, unreadable, source, names, find_yard, find_yard_source]
    rfl
  exact ⟨proper_yard, expanded, unlisted, (expand_unites_words yard ["src"] _).2 _ expanded⟩

end FormatPreview.Tree
