import FormatPreview.Proofs.Options

/-!
Where options come from, and what their origin tells of the text they are written as. Reading keeps
the engine's own options clear of the fields' keys, and every way to build options keeps them so,
save that a key of a field can be given as one of the engine's own. It then stays among them until
the options are written and read again, and until then it shows in what is written.
-/
namespace FormatPreview.Options

/-- The fields show in what is written, to a reader that takes the last member of each key; no key
stands there twice, and whether to compare does not stand there. -/
structure Legible (o : Options) : Prop where
  distinct : (o.members.map Prod.fst).Nodup
  silent : "diffCheck" ∉ o.members.map Prod.fst
  parser : o.members.reverse.lookup "parser" = o.parser.map .text
  filepath : o.members.reverse.lookup "filepath" = o.filepath.map .text

theorem legible_of_separate {o : Options} (separate : Separate o) : Legible o := by
  have distinct := nodup_members separate
  have last (key : String) : o.members.reverse.lookup key = o.setting? key := by
    rw [← Dictionary.lookup_perm distinct o.members.reverse_perm.symm, lookup_members separate]
  constructor
  · exact distinct
  · rw [← Dictionary.lookup_eq_none_iff distinct, lookup_members separate]
    rfl
  · exact last "parser"
  · exact last "filepath"

/-- The last member of a key is the one among the engine's own options. -/
theorem lookup_reverse_members {o : Options} {key : String} {value : Json}
    (hidden : o.extra.get? key = some value) : o.members.reverse.lookup key = some value := by
  have distinct := Dictionary.nodup_keys o.extra.ordered
  have back : o.extra.entries.reverse.lookup key = some value := by
    rw [← Dictionary.lookup_perm distinct o.extra.entries.reverse_perm.symm]
    exact hidden
  simp [members, List.lookup_append, back]

theorem separate_of_legible {o : Options} (legible : Legible o) : Separate o := by
  intro key field
  by_contra set
  obtain ⟨value, hidden⟩ := Option.ne_none_iff_exists'.1 set
  have last := lookup_reverse_members hidden
  have own : key ∈ o.extra.entries.map Prod.fst := by
    by_contra absent
    exact set ((o.extra.get?_eq_none_iff key).2 absent)
  have distinct := legible.distinct
  simp only [members, List.map_append, List.append_assoc] at distinct
  rcases key_cases key with rfl | rfl | rfl | free
  · have silent := legible.silent
    simp [members, own] at silent
  · -- The field is set, so its key stands before the engine's own options already.
    obtain ⟨s, given, _⟩ := Option.map_eq_some_iff.1 (legible.parser.symm.trans last)
    simp [given, own] at distinct
  · obtain ⟨s, given, _⟩ := Option.map_eq_some_iff.1 (legible.filepath.symm.trans last)
    rw [given, List.nodup_append'] at distinct
    simp [own] at distinct
  · exact free field

theorem legible_iff_separate (o : Options) : Legible o ↔ Separate o :=
  ⟨separate_of_legible, legible_of_separate⟩

/-- How options come about: read from a value, or built, laid over others, or written and read. The
keys are those given as the engine's own options that have not been written and read since. -/
inductive Built : List String → Options → Prop where
  | read {value : Json} {o : Options} (h : ofJson value = .ok o) : Built [] o
  | comparing : Built [] comparing
  | withParser {given : List String} {o : Options} (base : Built given o) (parser : String) :
      Built given (o.withParser parser)
  | withExtra {given : List String} {o : Options} (base : Built given o) (key : String)
      (value : Json) : Built (key :: given) (o.withExtra key value)
  | overlay {given given' : List String} {layer base : Options} (top : Built given layer)
      (under : Built given' base) : Built (given ++ given') (layer.overlay base)
  | reread {given : List String} {o o' : Options} (base : Built given o)
      (h : ofJson o.toJson = .ok o') : Built [] o'

/-! What each way to build options does to the keys among the engine's own options. -/

theorem withExtra_set (o : Options) (given : String) (value : Json) (key : String) :
    (o.withExtra given value).extra.get? key ≠ none ↔ key = given ∨ o.extra.get? key ≠ none := by
  by_cases same : key = given <;> simp [withExtra, Dictionary.get?_insert, same]

theorem overlay_set (layer base : Options) (key : String) :
    (layer.overlay base).extra.get? key ≠ none ↔
      layer.extra.get? key ≠ none ∨ base.extra.get? key ≠ none := by
  cases set : layer.extra.get? key <;> simp [overlay, Dictionary.get?_overlay, set]

/-- The keys of fields that stand among the engine's own options are those that were given so. -/
theorem Built.set_iff {given : List String} {o : Options} (built : Built given o) {key : String}
    (field : key ∈ fieldKeys) : o.extra.get? key ≠ none ↔ key ∈ given := by
  induction built with
  | read h => simp [separate_of_ofJson h key field]
  | comparing => simp [Options.comparing, unset]
  | withParser base parser ih => exact ih
  | withExtra base other value ih => rw [withExtra_set, ih, List.mem_cons]
  | overlay top under ihTop ihUnder => rw [overlay_set, ihTop, ihUnder, List.mem_append]
  | reread base h _ => simp [separate_of_ofJson h key field]

/-- What is written shows the fields exactly when no field's key was given as one of the engine's own
options, or the options have been written and read since. -/
theorem legible_iff_not_given (given : List String) (o : Options) (built : Built given o) :
    Legible o ↔ ∀ key ∈ fieldKeys, key ∉ given := by
  rw [legible_iff_separate]
  constructor
  · intro separate key field mem
    exact (built.set_iff field).2 mem (separate key field)
  · intro none key field
    by_contra set
    exact none key field ((built.set_iff field).1 set)

theorem legible_iff_not_given_reread :
    let o : Options := comparing.withExtra "filepath" (.text "a.js")
    let o' : Options := { unset with filepath := some "a.js" }
    Built ["filepath"] o ∧ ¬ Legible o ∧ Built [] o' ∧ Legible o' := by
  intro o o'
  have built : Built ["filepath"] o := .withExtra .comparing _ _
  have again : Built [] o' := .reread built rfl
  refine ⟨built, ?_, again, (legible_iff_not_given _ _ again).2 (by simp)⟩
  intro legible
  exact (legible_iff_not_given _ _ built).1 legible "filepath" (by decide) (by simp)

/-- A parser given as one of the engine's own options is written beside the one that was read. -/
theorem parser_written_twice :
    let o : Options := { unset with parser := some "babel" }
    Built ["parser"] (o.withExtra "parser" (.text "flow")) ∧
      (o.withExtra "parser" (.text "flow")).members =
        [("parser", .text "babel"), ("parser", .text "flow")] ∧
      ¬ Legible (o.withExtra "parser" (.text "flow")) := by
  intro o
  have read : ofJson (.record [("parser", .text "babel")]) = .ok o := rfl
  have twice : (o.withExtra "parser" (.text "flow")).members =
      [("parser", .text "babel"), ("parser", .text "flow")] := rfl
  refine ⟨.withExtra (.read read) _ _, twice, fun legible => ?_⟩
  have distinct := legible.distinct
  simp [twice] at distinct

end FormatPreview.Options
