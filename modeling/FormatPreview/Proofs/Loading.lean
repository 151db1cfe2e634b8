import FormatPreview.Proofs.TargetOrder

/-!
What a successful load brings. Each path that the targets name is loaded once or left out once, as
its first occurrence names it and in the order of the first occurrences. A path is left out with a
warning of its own, and only after a pattern has named it. The other warnings are one for each
pattern that matches nothing.
-/
namespace FormatPreview

variable {source : FileSource} {targets : List String}

/-- All that the targets name, in turn. -/
def FileSource.named (source : FileSource) (targets : List String) : List Found :=
  targets.flatMap source.names

/-- Where a path comes up first among those named. -/
def place (named : List Found) (path : String) : Nat :=
  named.findIdx fun f => Path.same f.path path

theorem place_congr {a b : String} (h : Path.same a b = true) (named : List Found) :
    place named a = place named b := by
  simp only [place, Path.same_congr h]

theorem place_append {named : List Found} {path : String} (h : place named path < named.length)
    (more : List Found) : place (named ++ more) path = place named path := by
  simp only [place] at *
  rw [List.findIdx_append, if_pos h]

/-- The paths found are the named ones where they come up first. -/
structure FirstOnly (named found : List Found) : Prop where
  first : ∀ f ∈ found, named[place named f.path]? = some f
  ordered : found.Pairwise fun f g => place named f.path < place named g.path
  all : ∀ f ∈ named, ∃ g ∈ found, Path.same g.path f.path = true

namespace FirstOnly

variable {named found : List Found}

theorem inside (h : FirstOnly named found) {f : Found} (mem : f ∈ found) :
    place named f.path < named.length :=
  (List.getElem?_eq_some_iff.1 (h.first f mem)).1

theorem step (h : FirstOnly named found) (f : Found) :
    FirstOnly (named ++ [f]) (keepFirst found f) := by
  have kept : ∀ g ∈ found, (named ++ [f])[place (named ++ [f]) g.path]? = some g := by
    intro g mem
    rw [place_append (h.inside mem), List.getElem?_append_left (h.inside mem), h.first g mem]
  have ordered : found.Pairwise fun g k =>
      place (named ++ [f]) g.path < place (named ++ [f]) k.path := by
    refine h.ordered.imp_of_mem fun mem mem' less => ?_
    rwa [place_append (h.inside mem), place_append (h.inside mem')]
  unfold keepFirst addFound
  -- A path that has come up before changes nothing, and a new one comes up last.
  by_cases among : found.any (fun g => Path.same g.path f.path) = true
  · rw [if_pos among]
    refine ⟨kept, ordered, fun g mem => ?_⟩
    rcases List.mem_append.1 mem with mem | mem
    · exact h.all g mem
    · obtain rfl := List.mem_singleton.1 mem
      simpa using among
  · rw [if_neg among]
    have apart : ∀ g ∈ found, Path.same g.path f.path = false := by simpa using among
    have unnamed : ∀ g ∈ named, Path.same g.path f.path = false := by
      intro g mem
      obtain ⟨k, mem, same⟩ := h.all g mem
      by_contra again
      have same' := Path.same_trans same (by simpa using again)
      simp [apart k mem] at same'
    have last : place (named ++ [f]) f.path = named.length := by
      simp only [place]
      rw [List.findIdx_append, if_neg]
      · simp [Path.same_self]
      · simp [List.findIdx_eq_length_of_false unnamed]
    refine ⟨?_, ?_, ?_⟩
    · intro g mem
      rcases List.mem_append.1 mem with mem | mem
      · exact kept g mem
      · obtain rfl := List.mem_singleton.1 mem
        rw [last]
        simp
    · refine List.pairwise_append.2 ⟨ordered, List.pairwise_singleton _ _, fun g mem k mem' => ?_⟩
      obtain rfl := List.mem_singleton.1 mem'
      rw [last, place_append (h.inside mem)]
      exact h.inside mem
    · intro g mem
      rcases List.mem_append.1 mem with mem | mem
      · obtain ⟨k, mem, same⟩ := h.all g mem
        exact ⟨k, List.mem_append_left _ mem, same⟩
      · obtain rfl := List.mem_singleton.1 mem
        exact ⟨g, by simp, Path.same_self _⟩

theorem run (h : FirstOnly named found) (more : List Found) :
    FirstOnly (named ++ more) (more.foldl keepFirst found) := by
  induction more generalizing named found with
  | nil => simpa using h
  | cons f more ih => simpa using ih (h.step f)

/-- Each named path is found once, as the first that names it. -/
theorem once (h : FirstOnly named found) {f : Found} (mem : f ∈ named) :
    ∃ g, named[place named f.path]? = some g ∧
      found.filter (fun k => Path.same k.path f.path) = [g] := by
  obtain ⟨g, found', same⟩ := h.all f mem
  obtain ⟨before, after, rfl⟩ := List.append_of_mem found'
  have apart : ∀ k, k ∈ before ∨ k ∈ after → Path.same k.path f.path = false := by
    intro k side
    by_contra same'
    have equal : place named k.path = place named g.path := by
      rw [place_congr (by simpa using same'), place_congr same]
    obtain ⟨_, upper, lower⟩ := List.pairwise_append.1 h.ordered
    rcases side with mem | mem
    · have := lower k mem g (by simp)
      omega
    · have := (List.pairwise_cons.1 upper).1 k mem
      omega
  refine ⟨g, ?_, ?_⟩
  · rw [← place_congr same]
    exact h.first g (by simp)
  · have none : ∀ part : List Found, (∀ k ∈ part, k ∈ before ∨ k ∈ after) →
        part.filter (fun k => Path.same k.path f.path) = [] := by
      intro part inside
      simpa using fun k mem => apart k (inside k mem)
    rw [List.filter_append, none before fun k => .inl, List.filter_cons, same,
      none after fun k => .inr]
    rfl

end FirstOnly

theorem firstOnly_found (source : FileSource) (targets : List String) :
    FirstOnly (source.named targets) (source.found targets) := by
  have start : FirstOnly [] [] := ⟨by simp, .nil, by simp⟩
  have whole := start.run (source.named targets)
  rwa [List.nil_append] at whole

theorem expands_of_resolved (targets : List String) (r : Resolution)
    (h : (resolveFrom source r targets).2 = .ok ()) : source.Expands targets := by
  induction targets generalizing r with
  | nil => simp [FileSource.Expands]
  | cons target rest ih =>
    cases added : r.add source target with
    | error e => simp [resolveFrom, added] at h
    | ok next =>
      have further := ih next (by simpa [resolveFrom, added] using h)
      intro t mem pattern
      rcases List.mem_cons.1 mem with rfl | mem
      · cases expanded : source.expand t with
        | error failure => simp [Resolution.add, pattern, expanded] at added
        | ok paths => exact ⟨paths, rfl⟩
      · exact further t mem pattern

/-- A successful load reads what was found, after a warning for each pattern without a match. -/
theorem load_of_ok {files : List SourceFile} (h : (load source targets).2 = .ok files) :
    source.Expands targets ∧ (readFound source (source.found targets)).2 = .ok files ∧
      (load source targets).1 = (targets.filter source.unmatched).map .noFilesMatched ++
        (readFound source (source.found targets)).1 := by
  rcases load_cases source targets with resolves | ⟨e, failed, _⟩
  · refine ⟨expands_of_resolved _ _ resolves.resolved, (load_of_resolves resolves).symm.trans h, ?_⟩
    have some : targets ≠ [] := by
      rintro rfl
      exact resolves.some rfl
    have resolved := resolves.resolved
    cases cut : resolveFrom source ⟨[], []⟩ targets with
    | mk r outcome =>
      simp only [cut] at resolved
      rw [resolved] at cut
      obtain rfl : r = ⟨source.found targets, [] ++ targets.filter source.unmatched⟩ :=
        resolveFrom_ok targets _ _ cut
      simp [load, cut, some, resolves.some]
  · simp [h] at failed

def FileSource.loaded? (source : FileSource) (f : Found) : Option SourceFile :=
  match source.read f.path with
  | .ok content => some ⟨f.path, content⟩
  | .error _ => none

def FileSource.skipped? (source : FileSource) (f : Found) : Option Event :=
  match source.read f.path with
  | .ok _ => none
  | .error failure => some (.readFailed f.path failure.summary)

theorem readFound_of_ok {found : List Found} {files : List SourceFile}
    (h : (readFound source found).2 = .ok files) :
    files = found.filterMap source.loaded? ∧
      (readFound source found).1 = found.filterMap source.skipped? ∧
      ∀ f ∈ found, source.Unreadable f.path → f.fromPattern = true := by
  induction found generalizing files with
  | nil => simp_all [readFound]
  | cons f rest ih =>
    cases read : source.read f.path with
    | ok content =>
      cases further : (readFound source rest).2 with
      | error e => simp [readFound, read, further, Except.map] at h
      | ok more =>
        obtain ⟨same, events, patterns⟩ := ih further
        obtain rfl : ⟨f.path, content⟩ :: more = files := by
          simpa [readFound, read, further, Except.map] using h
        refine ⟨by simp [FileSource.loaded?, read, same], ?_, ?_⟩
        · simp [readFound, read, FileSource.skipped?, events]
        · intro g mem unread
          rcases List.mem_cons.1 mem with rfl | mem
          · exact absurd unread (not_unreadable read)
          · exact patterns g mem unread
    | error failure =>
      cases pattern : f.fromPattern with
      | false => simp [readFound, read, pattern] at h
      | true =>
        obtain ⟨same, events, patterns⟩ := ih (by simpa [readFound, read, pattern] using h)
        refine ⟨by simp [FileSource.loaded?, read, same], ?_, ?_⟩
        · simp [readFound, read, pattern, FileSource.skipped?, events]
        · intro g mem unread
          rcases List.mem_cons.1 mem with rfl | mem
          · exact pattern
          · exact patterns g mem unread

/-- Whether an event tells that a path was left out. -/
def Event.skips (path : String) : Event → Bool
  | .readFailed other _ => Path.same other path
  | _ => false

theorem loaded?_path {f : Found} {file : SourceFile} (h : source.loaded? f = some file) :
    file.path = f.path := by
  unfold FileSource.loaded? at h
  split at h
  · exact congrArg SourceFile.path (Option.some.inj h).symm
  · simp at h

theorem eq_of_skipped {f : Found} {e : Event} (h : source.skipped? f = some e) :
    ∃ failure : Failure, e = .readFailed f.path failure.summary := by
  unfold FileSource.skipped? at h
  split at h
  · simp at h
  · next failure _ => exact ⟨failure, (Option.some.inj h).symm⟩

theorem skipped?_skips {f : Found} {e : Event} (h : source.skipped? f = some e) (path : String) :
    e.skips path = Path.same f.path path := by
  obtain ⟨failure, rfl⟩ := eq_of_skipped h
  rfl

theorem filter_filterMap_of_same {α β : Type} {read : α → Option β} {keep : β → Bool}
    (wanted : α → Bool) (same : ∀ a b, read a = some b → keep b = wanted a) (items : List α) :
    (items.filterMap read).filter keep = (items.filter wanted).filterMap read := by
  induction items with
  | nil => rfl
  | cons a rest ih =>
    cases found : read a with
    | none => cases kept : wanted a <;> simp [found, kept, ih]
    | some b => cases kept : wanted a <;> simp [found, kept, same a b found, ih]

theorem filter_loaded {found : List Found} {g : Found} {path : String}
    (only : found.filter (fun k => Path.same k.path path) = [g]) :
    (found.filterMap source.loaded?).filter (fun file => Path.same file.path path) =
      (source.loaded? g).toList := by
  rw [filter_filterMap_of_same (fun k => Path.same k.path path), only]
  · cases loaded : source.loaded? g <;> simp [loaded]
  · intro k file loaded
    rw [loaded?_path loaded]

theorem filter_skipped {found : List Found} {g : Found} {path : String}
    (only : found.filter (fun k => Path.same k.path path) = [g]) :
    (found.filterMap source.skipped?).filter (Event.skips path) = (source.skipped? g).toList := by
  rw [filter_filterMap_of_same (fun k => Path.same k.path path), only]
  · cases skipped : source.skipped? g <;> simp [skipped]
  · intro k e skipped
    exact skipped?_skips skipped path

theorem filter_skips_unmatched (path : String) (targets : List String) :
    (targets.map Event.noFilesMatched).filter (Event.skips path) = [] := by
  rw [List.filter_eq_nil_iff]
  intro e mem
  obtain ⟨t, _, rfl⟩ := List.mem_map.1 mem
  simp [Event.skips]

/-- What the files and the events of a load say of the paths that its targets name. -/
structure Accounted (source : FileSource) (targets : List String) (events : List Event)
    (files : List SourceFile) : Prop where
  expands : source.Expands targets
  apart : files.Pairwise fun a b => Path.same a.path b.path = false
  /-- Every named path is loaded once or left out once, as it is spelled first. -/
  once : ∀ f ∈ source.named targets, ∃ g,
    (source.named targets)[place (source.named targets) f.path]? = some g ∧
      ((∃ content, source.read g.path = .ok content ∧
          files.filter (fun file => Path.same file.path f.path) = [⟨g.path, content⟩] ∧
          events.filter (Event.skips f.path) = []) ∨
        ∃ failure, source.read g.path = .error failure ∧ g.fromPattern = true ∧
          files.filter (fun file => Path.same file.path f.path) = [] ∧
          events.filter (Event.skips f.path) = [.readFailed g.path failure.summary])
  named : ∀ file ∈ files, ∃ f ∈ source.named targets, f.path = file.path
  ordered : files.Pairwise fun a b =>
    place (source.named targets) a.path < place (source.named targets) b.path
  /-- The warnings for patterns without a match come first, then those for what was left out. -/
  warnings : ∃ skips, events = (targets.filter source.unmatched).map .noFilesMatched ++ skips ∧
    ∀ e ∈ skips, ∃ f ∈ source.named targets, e.skips f.path = true
  warn : ∀ e ∈ events, e.level = .warn

/-- A load that succeeds accounts for every path that its targets name, once and in order. -/
theorem load_accounts (source : FileSource) (targets : List String) (files : List SourceFile)
    (h : (load source targets).2 = .ok files) :
    Accounted source targets (load source targets).1 files := by
  obtain ⟨expands, read, events⟩ := load_of_ok h
  obtain ⟨rfl, skipped, patterns⟩ := readFound_of_ok read
  rw [skipped] at events
  have first := firstOnly_found source targets
  have within : ∀ f ∈ source.found targets, f ∈ source.named targets := fun f mem =>
    List.mem_of_getElem? (first.first f mem)
  have ordered : ((source.found targets).filterMap source.loaded?).Pairwise fun a b =>
      place (source.named targets) a.path < place (source.named targets) b.path := by
    refine first.ordered.filterMap _ fun f g less a loaded b loaded' => ?_
    rwa [loaded?_path loaded, loaded?_path loaded']
  refine ⟨expands, ?_, ?_, ?_, ordered, ⟨_, events, ?_⟩, ?_⟩
  · refine ordered.imp fun {a b} less => ?_
    by_contra same
    rw [place_congr (by simpa using same)] at less
    exact Nat.lt_irrefl _ less
  · intro f mem
    obtain ⟨g, here, only⟩ := first.once mem
    refine ⟨g, here, ?_⟩
    rw [events, List.filter_append, filter_skips_unmatched, filter_loaded only, filter_skipped only]
    cases read : source.read g.path with
    | ok content =>
      refine .inl ⟨content, rfl, ?_, ?_⟩
      · simp [FileSource.loaded?, read]
      · simp [FileSource.skipped?, read]
    | error failure =>
      have found : g ∈ source.found targets :=
        List.mem_of_mem_filter (only ▸ List.mem_singleton_self g)
      refine .inr ⟨failure, rfl, patterns g found ⟨failure, read⟩, ?_, ?_⟩
      · simp [FileSource.loaded?, read]
      · simp [FileSource.skipped?, read]
  · intro file mem
    obtain ⟨f, found, loaded⟩ := List.mem_filterMap.1 mem
    exact ⟨f, within f found, (loaded?_path loaded).symm⟩
  · intro e mem
    obtain ⟨f, found, skip⟩ := List.mem_filterMap.1 mem
    exact ⟨f, within f found, by rw [skipped?_skips skip, Path.same_self]⟩
  · intro e mem
    rw [events] at mem
    rcases List.mem_append.1 mem with mem | mem
    · obtain ⟨t, _, rfl⟩ := List.mem_map.1 mem
      rfl
    · obtain ⟨f, _, skip⟩ := List.mem_filterMap.1 mem
      obtain ⟨failure, rfl⟩ := eq_of_skipped skip
      rfl

/-- One file that can be read, which a pattern matches too, and one that cannot. -/
def FileSource.sparse : FileSource where
  read path := if path = "src//a.js" then .ok "a" else .error (.of "denied")
  expand pattern := .ok (if pattern = "*.js" then ["src/a.js", "b.js"] else [])

theorem load_accounts_sparse :
    (load .sparse ["src//a.js", "*.js", "*.css"]).2 = .ok [⟨"src//a.js", "a"⟩] ∧
      Accounted .sparse ["src//a.js", "*.js", "*.css"]
        (load .sparse ["src//a.js", "*.js", "*.css"]).1 [⟨"src//a.js", "a"⟩] := by
  have literal : Pattern.isPattern "src//a.js" = false := by cbv
  have styles : Pattern.isPattern "*.css" = true := by cbv
  have same : Path.same "src//a.js" "src/a.js" = true := by decide
  have other : Path.same "src//a.js" "b.js" = false := by decide
  have loaded : (load .sparse ["src//a.js", "*.js", "*.css"]).2 = .ok [⟨"src//a.js", "a"⟩] := by
    simp [load, resolveFrom, Resolution.add, literal, isPattern_star, styles, FileSource.sparse,
      addFound, same, other, readFound, Except.map]
  exact ⟨loaded, load_accounts _ _ _ loaded⟩

end FormatPreview
