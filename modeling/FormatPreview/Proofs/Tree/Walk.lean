import FormatPreview.Proofs.Pattern.Glob
import FormatPreview.Tree.Source

/-!
Where paths lead. A search takes one component of a path after the other, as looking the path up does,
so each path that it finds leads to the place where it was found, and one that it could not list leads
to no directory that can be listed. The last component of the path of a file is the name of the file,
and what stands before it are directories.
-/
namespace FormatPreview.Tree

open Pattern (Glob Segment Wildcard)

/-- What an entry can be called. -/
structure IsName (name : String) : Prop where
  nonempty : name ≠ ""
  current : name ≠ "."
  parent : name ≠ ".."
  plain : '/' ∉ name.toList

theorem isName_iff (name : String) :
    IsName name ↔ name ≠ "" ∧ name ≠ "." ∧ name ≠ ".." ∧ '/' ∉ name.toList :=
  ⟨fun h => ⟨h.nonempty, h.current, h.parent, h.plain⟩, fun ⟨a, b, c, d⟩ => ⟨a, b, c, d⟩⟩

instance (name : String) : Decidable (IsName name) := decidable_of_iff _ (isName_iff name).symm

/-- Entries have names, and each stands in a directory. -/
structure Proper (t : Tree) : Prop where
  named : ∀ e ∈ t.entries, ∀ name ∈ e.1, IsName name
  inside : ∀ e ∈ t.entries, t.isDirectory e.1.tail = true

theorem proper_iff (t : Tree) : t.Proper ↔
    (∀ e ∈ t.entries, ∀ name ∈ e.1, IsName name) ∧ ∀ e ∈ t.entries, t.isDirectory e.1.tail = true :=
  ⟨fun h => ⟨h.named, h.inside⟩, fun ⟨a, b⟩ => ⟨a, b⟩⟩

instance (t : Tree) : Decidable t.Proper := decidable_of_iff _ t.proper_iff.symm

variable {t : Tree} {start place next : Place} {path name : String} {segment : List Char} {m : Match}

theorem isDirectory_of_entered (h : t.entered place = true) : t.isDirectory place = true := by
  rw [isDirectory, Option.isSome_iff_ne_none]
  intro none
  simp [entered, none] at h

theorem not_isDirectory_of_isFile (h : t.isFile place = true) : t.isDirectory place = false := by
  unfold isFile at h
  split at h
  · next content found => simp [isDirectory, rights?, found]
  · simp at h

/-- The directory above a directory is one. -/
theorem Proper.tail (proper : t.Proper) (h : t.isDirectory place = true) :
    t.isDirectory place.tail = true := by
  cases place with
  | nil => rfl
  | cons name above =>
    cases found : t.entries.lookup (name :: above) with
    | none => simp [isDirectory, rights?, get?, found] at h
    | some e =>
      obtain ⟨before, after, cut, _⟩ := List.lookup_eq_some_iff.1 found
      exact proper.inside (name :: above, e) (by simp [cut])

theorem isSome_of_mem_children (mem : name ∈ t.children place) :
    (t.get? (name :: place)).isSome = true := by
  obtain ⟨e, entry⟩ := mem_entries_of_mem_children mem
  change (t.entries.lookup (name :: place)).isSome = true
  rw [Option.isSome_iff_ne_none, ne_eq, List.lookup_eq_none_iff]
  exact fun none => by simpa using none _ entry

/-! Components looked up. -/

/-- A component is looked up in a directory: no name stays there, two dots lead up and a name leads to
what is called so. -/
theorem follow?_cases (h : t.follow? place segment = some next) :
    t.isDirectory place = true ∧
      (Path.component? segment = none ∧ next = place ∨
        Path.component? segment = some .parent ∧ next = place.tail ∨
        ∃ name, Path.component? segment = some (.name name) ∧ next = name :: place) := by
  unfold follow? at h
  split at h
  · next empty =>
    obtain ⟨directory, rfl⟩ : t.isDirectory place = true ∧ place = next := by simpa using h
    exact ⟨directory, .inl ⟨by simp [Path.component?, empty], rfl⟩⟩
  · next nonempty =>
    split at h
    · simp at h
    · next entered =>
      refine ⟨isDirectory_of_entered (by simpa using entered), ?_⟩
      split at h
      · next current =>
        exact .inl ⟨by simp [Path.component?, current], (Option.some.inj h).symm⟩
      · next other =>
        split at h
        · next parent =>
          exact .inr (.inl ⟨by simp [Path.component?, parent], (Option.some.inj h).symm⟩)
        · next named =>
          have component : Path.component? segment = some (.name (String.ofList segment)) := by
            simp [Path.component?, nonempty, other, named]
          split at h
          · exact .inr (.inr ⟨_, component, (Option.some.inj h).symm⟩)
          · simp at h

theorem follow?_empty :
    t.follow? place [] = if t.isDirectory place then some place else none := by
  simp [follow?]

theorem follow?_current :
    t.follow? place ['.'] = if t.entered place then some place else none := by
  cases entered : t.entered place <;> simp [follow?, entered]

theorem follow?_isName (isName : IsName name) : t.follow? place name.toList =
    if t.entered place ∧ (t.get? (name :: place)).isSome then some (name :: place) else none := by
  have some : name.toList ≠ [] := fun same => isName.nonempty (String.toList_inj.1 same)
  have here : name.toList ≠ ['.'] := fun same => isName.current (String.toList_inj.1 same)
  have above : name.toList ≠ ['.', '.'] := fun same => isName.parent (String.toList_inj.1 same)
  cases entered : t.entered place <;> simp [follow?, entered, some, here, above]

/-- Nothing between two separators leads nowhere else. -/
theorem bind_follow?_empty :
    (t.follow? place []).bind (t.follow? · segment) = t.follow? place segment := by
  rw [follow?_empty]
  cases directory : t.isDirectory place with
  | true => rfl
  | false =>
    symm
    by_contra some
    obtain ⟨next, found⟩ := Option.ne_none_iff_exists'.1 some
    simp [(follow?_cases found).1] at directory

/-- A dot leads nowhere else. -/
theorem bind_follow?_current (nonempty : segment ≠ []) :
    (t.follow? place ['.']).bind (t.follow? · segment) = t.follow? place segment := by
  rw [follow?_current]
  cases entered : t.entered place with
  | true => rfl
  | false => simp [follow?, nonempty, entered]

theorem walk?_append (place : Place) (first second : List (List Char)) :
    t.walk? place (first ++ second) = (t.walk? place first).bind (t.walk? · second) :=
  List.foldlM_append

theorem walk?_one (place : Place) (segment : List Char) :
    t.walk? place [segment] = t.follow? place segment := by
  simp [walk?]

theorem walk?_dots (entered : t.entered place = true) {dots : List (List Char)}
    (still : ∀ segment ∈ dots, segment = [] ∨ segment = ['.']) :
    t.walk? place dots = some place := by
  induction dots with
  | nil => rfl
  | cons segment rest ih =>
    obtain ⟨dot, further⟩ := List.forall_mem_cons.1 still
    have here : t.follow? place segment = some place := by
      rcases dot with rfl | rfl
      · rw [follow?_empty, if_pos (isDirectory_of_entered entered)]
      · rw [follow?_current, if_pos entered]
    rw [walk?, List.foldlM_cons, here]
    exact ih further

/-! Paths looked up. -/

theorem resolve?_of_plain (nonempty : name ≠ "") (plain : '/' ∉ name.toList) :
    t.resolve? start name = t.follow? start name.toList := by
  have relative : name.toList.head? ≠ some '/' := fun first => plain (List.mem_of_head? first)
  rw [resolve?, if_neg nonempty, if_neg relative, Path.segments_of_plain plain, walk?_one]

/-- A further component is looked up where the path leads. -/
theorem resolve?_joined (given : path ≠ "") (plain : '/' ∉ name.toList) :
    t.resolve? start (joined path name) = (t.resolve? start path).bind (t.follow? · name.toList) := by
  have nonempty : path.toList ≠ [] := fun none => given (String.toList_inj.1 none)
  by_cases closed : path.toList.getLast? = some '/'
  · obtain ⟨before, text⟩ := List.getLast?_eq_some_iff.1 closed
    have text' : (joined path name).toList = before ++ '/' :: name.toList := by
      simp [joined, text]
    have given' : joined path name ≠ "" := fun none => by simp [none] at text'
    have head : (joined path name).toList.head? = path.toList.head? := by
      rw [text', text]
      cases before <;> rfl
    rw [resolve?, resolve?, if_neg given, if_neg given', head, text', text, Path.segments_append,
      Path.segments_append, Path.segments_of_plain plain, walk?_append, walk?_append,
      Option.bind_assoc]
    simp only [Path.segments, walk?_one, bind_follow?_empty]
  · have text : (joined path name).toList = path.toList ++ '/' :: name.toList := by
      simp [joined, given, closed]
    have given' : joined path name ≠ "" := fun none => by simp [none] at text
    have head : (joined path name).toList.head? = path.toList.head? := by
      rw [text, List.head?_append, Option.or_of_isSome (by simpa using nonempty)]
    rw [resolve?, resolve?, if_neg given, if_neg given', head, text, Path.segments_append,
      Path.segments_of_plain plain, walk?_append]
    simp only [walk?_one]

/-- A path that is the dot leads to where it starts, if that can be entered. -/
theorem resolve?_of_same (same : Path.same path "." = true) :
    t.resolve? start path = t.follow? start ['.'] := by
  obtain ⟨relative, dots, cut, still⟩ := Path.segments_of_same same
  have given : path ≠ "" := by
    rintro rfl
    simp [Path.segments] at cut
  rw [resolve?, if_neg given, if_neg relative, cut, walk?, List.foldlM_cons, follow?_current]
  cases entered : t.entered start with
  | true => exact walk?_dots entered still
  | false => rfl

theorem resolve?_extended (given : path ≠ "") (plain : '/' ∉ name.toList)
    (further : name ≠ "" ∨ Path.same path "." = false) :
    t.resolve? start (extended path name) =
      (t.resolve? start path).bind (t.follow? · name.toList) := by
  unfold extended
  split
  · next same =>
    have nonempty : name ≠ "" := further.resolve_right (by simp [same])
    have some : name.toList ≠ [] := fun none => nonempty (String.toList_inj.1 none)
    rw [resolve?_of_plain nonempty plain, resolve?_of_same same, bind_follow?_current some]
  · exact resolve?_joined given plain

/-! Searches. -/

theorem joined_ne (given : path ≠ "") (name : String) : joined path name ≠ "" := by
  unfold joined
  split <;> simp [given]

theorem extended_ne (given : path ≠ "") (further : name ≠ "" ∨ Path.same path "." = false) :
    extended path name ≠ "" := by
  unfold extended
  split
  · next same => exact further.resolve_right (by simp [same])
  · exact joined_ne given name

/-- The path of a match leads to its place, and tells a directory from other entries there. -/
structure Leads (t : Tree) (start : Place) (m : Match) : Prop where
  given : m.path ≠ ""
  place : t.resolve? start m.path = m.place
  directory : ∀ place, m.place = some place → m.directory = t.isDirectory place

namespace Leads

theorem looked (given : path ≠ "") (resolved : t.resolve? start path = found) :
    t.Leads start (t.looked path found) where
  given := given
  place := resolved
  directory := fun place here => by
    obtain rfl : found = some place := here
    rfl

theorem origin (t : Tree) (start : Place) (absolute : Bool) :
    t.Leads start (t.origin start absolute) := by
  unfold Tree.origin
  split
  · exact looked (by decide) rfl
  · exact looked (by decide) (resolve?_of_plain (by decide) (by decide))

/-- A literal component leads on. -/
theorem step (leads : t.Leads start m) (plain : '/' ∉ name.toList) {next : Match}
    (h : t.step? m name = some next) : t.Leads start next := by
  have further : next = t.looked (extended m.path name) (m.place.bind (t.follow? · name.toList)) ∧
      (name ≠ "" ∨ Path.same m.path "." = false) := by
    dsimp only [step?] at h
    split at h
    · next dots =>
      split at h
      · refine ⟨(Option.some.inj h).symm, .inl ?_⟩
        rcases dots with rfl | rfl <;> decide
      · simp at h
    · split at h
      · simp at h
      · next empty =>
        split at h
        · refine ⟨(Option.some.inj h).symm, ?_⟩
          by_contra both
          simp_all
        · simp at h
  obtain ⟨rfl, further⟩ := further
  refine looked (extended_ne leads.given further) ?_
  rw [resolve?_extended leads.given plain further, leads.place]

theorem dots (leads : t.Leads start m) (here : m.place = some place) {ws : List Wildcard}
    (mem : name ∈ Segment.dots ws) :
    t.Leads start (t.looked (joined m.path name) (t.follow? place name.toList)) := by
  have dot : name = ".." ∨ name = "." := by
    unfold Segment.dots at mem
    split at mem
    · simpa using List.mem_of_mem_filter mem
    · simp at mem
  have plain : '/' ∉ name.toList := by rcases dot with rfl | rfl <;> decide
  refine looked (joined_ne leads.given name) ?_
  rw [resolve?_joined leads.given plain, leads.place, here]
  rfl

/-- A name that is listed leads on, if it can be looked up. -/
theorem child (leads : t.Leads start m) (proper : t.Proper) (here : m.place = some place)
    (mem : name ∈ t.children place) : t.Leads start (t.child m.path place name) := by
  obtain ⟨e, entry⟩ := mem_entries_of_mem_children mem
  have isName : IsName name := proper.named _ entry name (List.mem_cons_self ..)
  refine ⟨extended_ne leads.given (.inl isName.nonempty), ?_, fun next found => ?_⟩
  · change t.resolve? start (extended m.path name) =
      if t.entered place then some (name :: place) else none
    rw [resolve?_extended leads.given isName.plain (.inl isName.nonempty), leads.place, here,
      Option.bind_some, follow?_isName isName]
    simp [isSome_of_mem_children mem]
  · obtain ⟨_, rfl⟩ : t.entered place = true ∧ name :: place = next := by
      simpa [Tree.child] using found
    rfl

end Leads

/-- What a search tells is true: a match leads to its place, and nothing can be listed at a path that
is told as unreadable. -/
def Stands (t : Tree) (start : Place) : Hit → Prop
  | .ok m => t.Leads start m
  | .error u => ∀ place, t.resolve? start u.path = some place →
      t.isDirectory place = true ∧ t.listed place = false

theorem stands_unreadable (leads : t.Leads start m) (directory : m.directory = true)
    (unlisted : t.listing? m = none) : t.Stands start (.error ⟨m.path⟩) := by
  intro place resolved
  have here : m.place = some place := leads.place.symm.trans resolved
  refine ⟨leads.directory place here ▸ directory, ?_⟩
  simpa [listing?, here] using unlisted

theorem stands_of_mem_search (proper : t.Proper) {segments : List Segment}
    (plain : ∀ name, .literal name ∈ segments → '/' ∉ name.toList)
    (leads : t.Leads start m) {hit : Hit} (mem : hit ∈ t.search segments m) :
    t.Stands start hit := by
  fun_induction t.search segments m with
  | case1 m =>
    obtain rfl := List.mem_singleton.1 mem
    exact leads
  | case2 m name rest none => simp at mem
  | case3 m name rest next stepped ih =>
    have next := leads.step (plain name (List.mem_cons_self ..)) stepped
    exact ih (fun name mem => plain name (List.mem_cons_of_mem _ mem)) next mem
  | case4 m ws rest directory unlisted =>
    obtain rfl := List.mem_singleton.1 mem
    exact stands_unreadable leads directory unlisted
  | case5 m ws rest directory place listing ihDots ihNames =>
    have further := fun name mem => plain name (List.mem_cons_of_mem _ mem)
    have here := place_of_listing? listing
    rcases List.mem_append.1 mem with mem | mem
    · obtain ⟨name, dot, found⟩ := List.mem_flatMap.1 mem
      exact ihDots name further (leads.dots here dot) found
    · obtain ⟨name, child, found⟩ := List.mem_flatMap.1 mem
      split at found
      · exact ihNames name further (leads.child proper here child) found
      · simp at found
  | case6 m ws rest other => simp at mem
  | case7 m rest directory unlisted =>
    obtain rfl := List.mem_singleton.1 mem
    exact stands_unreadable leads directory unlisted
  | case8 m rest directory place listing ihHere ihBelow =>
    obtain ⟨⟨name, child⟩, _, found⟩ := List.mem_flatMap.1 mem
    have next := leads.child proper (place_of_listing? listing) child
    rcases List.mem_append.1 found with found | found
    · cases rest with
      | nil =>
        simp only at found
        split at found
        · obtain rfl := List.mem_singleton.1 found
          exact next
        · simp at found
      | cons first more =>
        have further := fun name mem =>
          plain name (List.mem_cons_of_mem _ (List.mem_cons_of_mem _ mem))
        simp only at found
        split at found
        · exact ihHere name further next found
        · simp at found
    · exact ihBelow name child plain next found
  | case9 m rest other => simp at mem

theorem stands_of_mem_find (proper : t.Proper) {text : String} {glob : Glob}
    (read : Glob.ofText text = .ok glob) {hit : Hit} (mem : hit ∈ t.find start glob) :
    t.Stands start hit :=
  stands_of_mem_search proper (fun _ => Pattern.plain_of_literal read)
    (.origin t start glob.absolute) (List.mem_of_mem_filter mem)

/-- The path of a file ends in the name of the file. -/
theorem components_of_isFile (proper : t.Proper) (resolved : t.resolve? start path = some place)
    (file : t.isFile place = true) :
    ∃ name above before, place = name :: above ∧ t.isDirectory above = true ∧
      Path.components path = before ++ [.name name] := by
  have other := not_isDirectory_of_isFile file
  obtain ⟨first, _, whole⟩ := Path.components_eq path
  have cut := List.dropLast_concat_getLast (Path.segments_ne_nil path.toList)
  generalize (Path.segments path.toList).dropLast = before at cut
  generalize (Path.segments path.toList).getLast _ = last at cut
  have given : path ≠ "" := by
    rintro rfl
    simp [resolve?] at resolved
  rw [resolve?, if_neg given, ← cut, walk?_append] at resolved
  obtain ⟨above, _, taken⟩ := Option.bind_eq_some_iff.1 resolved
  rw [walk?_one] at taken
  obtain ⟨directory, ⟨_, rfl⟩ | ⟨_, rfl⟩ | ⟨name, named, rfl⟩⟩ := follow?_cases taken
  · simp [other] at directory
  · simp [proper.tail directory] at other
  · refine ⟨name, above, first ++ before.filterMap Path.component?, rfl, directory, ?_⟩
    rw [whole, ← cut, List.filterMap_append, List.append_assoc]
    simp [named]

end FormatPreview.Tree
