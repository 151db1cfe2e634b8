import FormatPreview.Path
import Mathlib.Data.List.Lex
import Mathlib.Data.List.Sort

/-!
The order of paths: component by component, those from the root first and names by their characters.
It is a strict total order on paths, so two spellings of which neither comes before the other are one
path. Segments joined by separators are read back as they were joined.
-/
namespace FormatPreview

namespace Component

variable {a b c : Component}

theorem before_iff : a.before b = true ↔
    a.rank < b.rank ∨ ∃ x y, a = .name x ∧ b = .name y ∧ x < y := by
  cases a <;> cases b <;> simp [before, rank]

theorem not_before_self (a : Component) : a.before a = false := by
  cases a <;> simp [before, rank]

theorem before_trans (first : a.before b = true) (second : b.before c = true) :
    a.before c = true := by
  rw [before_iff] at *
  rcases first with lower | ⟨x, y, rfl, rfl, less⟩
  · rcases second with higher | ⟨_, _, rfl, rfl, _⟩
    · exact .inl (lower.trans higher)
    · exact .inl lower
  · rcases second with higher | ⟨y, z, same, rfl, further⟩
    · exact .inl higher
    · obtain rfl := Component.name.inj same
      exact .inr ⟨x, z, rfl, rfl, String.lt_trans less further⟩

theorem eq_of_not_before (first : a.before b = false) (second : b.before a = false) : a = b := by
  simp only [← Bool.not_eq_true, before_iff, not_or, Nat.not_lt, not_exists, not_and] at first second
  have kind : a.rank = b.rank := Nat.le_antisymm second.1 first.1
  cases a <;> cases b <;> simp [rank] at kind ⊢
  case name.name x y => exact String.le_antisymm (second.2 y x rfl rfl) (first.2 x y rfl rfl)

instance : Std.Trichotomous fun a b : Component => a.before b = true where
  trichotomous _ _ first second := eq_of_not_before (by simpa using first) (by simpa using second)

end Component

namespace Path

theorem same_self (a : String) : same a a = true := by
  simp [same]

theorem same_comm (a b : String) : same a b = same b a := by
  simp only [same, eq_comm]

theorem same_trans {a b c : String} (first : same a b = true) (second : same b c = true) :
    same a c = true := by
  simp only [same, decide_eq_true_eq] at *
  exact first.trans second

theorem same_congr {a b : String} (h : same a b = true) (c : String) : same c a = same c b := by
  simp only [same, decide_eq_true_eq] at *
  rw [h]

theorem listBefore_iff (as bs : List Component) :
    listBefore as bs = true ↔ List.Lex (fun a b => a.before b = true) as bs := by
  induction as generalizing bs with
  | nil => cases bs <;> simp [listBefore]
  | cons a as ih => cases bs <;> simp [listBefore, ih, List.cons_lex_cons_iff]

theorem not_listBefore_self (as : List Component) : listBefore as as = false := by
  induction as with
  | nil => rfl
  | cons a as ih => simp [listBefore, Component.not_before_self, ih]

theorem listBefore_trans {as bs cs : List Component} (first : listBefore as bs = true)
    (second : listBefore bs cs = true) : listBefore as cs = true := by
  rw [listBefore_iff] at *
  exact List.lex_trans Component.before_trans first second

theorem eq_of_not_listBefore {as bs : List Component} (first : listBefore as bs = false)
    (second : listBefore bs as = false) : as = bs := by
  refine Std.Trichotomous.trichotomous (r := List.Lex fun a b => a.before b = true) as bs ?_ ?_
  · simpa [← listBefore_iff] using first
  · simpa [← listBefore_iff] using second

theorem before_trans {a b c : String} (first : before a b = true) (second : before b c = true) :
    before a c = true :=
  listBefore_trans first second

theorem same_of_not_before {a b : String} (first : before a b = false) (second : before b a = false) :
    same a b = true := by
  simpa [same] using eq_of_not_listBefore first second

theorem not_same_of_before {a b : String} (less : before a b = true) : same a b = false := by
  by_contra equal
  have equal : components a = components b := by simpa [same] using equal
  simp [before, equal, not_listBefore_self] at less

/-- The components of the paths are in strictly ascending order. -/
def Ascending (paths : List String) : Prop := paths.Pairwise fun a b => before a b = true

/-- Paths in ascending order are settled by which paths they are. -/
theorem Ascending.map_components_eq {paths paths' : List String} (first : Ascending paths)
    (second : Ascending paths')
    (same : ∀ path, (∃ p ∈ paths, Path.same p path = true) ↔ ∃ p ∈ paths', Path.same p path = true) :
    paths.map components = paths'.map components := by
  let less (as bs : List Component) : Prop := listBefore as bs = true
  have : Std.Irrefl less := ⟨fun as => by simp [less, not_listBefore_self]⟩
  have : Std.Antisymm less := ⟨fun as bs sooner later => by
    simpa [less, not_listBefore_self] using listBefore_trans sooner later⟩
  have ordered : ∀ {paths : List String}, Ascending paths → (paths.map components).Pairwise less :=
    fun ascending => List.pairwise_map.2 ascending
  refine (ordered first).eq_of_mem_iff (ordered second) fun as => ?_
  simp only [Path.same, decide_eq_true_eq] at same
  simp only [List.mem_map]
  constructor
  · rintro ⟨p, mem, rfl⟩
    exact (same p).1 ⟨p, mem, rfl⟩
  · rintro ⟨p, mem, rfl⟩
    exact (same p).2 ⟨p, mem, rfl⟩

theorem segments_ne_nil (path : List Char) : segments path ≠ [] := by
  fun_induction segments path <;> simp

theorem segments_append (first second : List Char) :
    segments (first ++ '/' :: second) = segments first ++ segments second := by
  induction first with
  | nil => simp [segments]
  | cons c rest ih =>
    by_cases separator : c = '/'
    · simp [segments, separator, ih]
    · cases parts : segments rest with
      | nil => exact absurd parts (segments_ne_nil rest)
      | cons segment more => simp [segments, separator, ih, parts]

theorem segments_of_plain {name : List Char} (plain : '/' ∉ name) : segments name = [name] := by
  induction name with
  | nil => rfl
  | cons c rest ih =>
    obtain ⟨other, plain⟩ : '/' ≠ c ∧ '/' ∉ rest := by simpa using plain
    simp [segments, Ne.symm other, ih plain]

theorem plain_of_mem_segments {path segment : List Char} (mem : segment ∈ segments path) :
    '/' ∉ segment := by
  fun_induction segments path generalizing segment with
  | case1 => simp_all
  | case2 rest ih =>
    rcases List.mem_cons.1 mem with rfl | mem
    · simp
    · exact ih mem
  | case3 c rest other none ih => simp_all [Ne.symm other]
  | case4 c rest other segment' more parts ih =>
    rw [parts] at ih
    rcases List.mem_cons.1 mem with rfl | mem
    · simpa [Ne.symm other] using ih (List.mem_cons_self ..)
    · exact ih (List.mem_cons_of_mem _ mem)

theorem component?_eq_none_iff (segment : List Char) :
    component? segment = none ↔ segment = [] ∨ segment = ['.'] := by
  unfold component?
  split
  · simp_all
  · split <;> simp_all

theorem component?_ne_current (segment : List Char) : component? segment ≠ some .current := by
  unfold component?
  split
  · simp
  · split <;> simp

/-- The segments of a path tell its components, apart from the root or a dot at the beginning. -/
theorem components_eq (path : String) :
    ∃ first, (first = [] ∨ first = [.root] ∨ first = [.current]) ∧
      components path = first ++ (segments path.toList).filterMap component? := by
  simp only [components]
  split
  · exact ⟨_, .inr (.inl rfl), rfl⟩
  · exact ⟨_, .inr (.inr rfl), rfl⟩
  · exact ⟨_, .inl rfl, rfl⟩

/-- A path that is the dot begins with a dot, and no other segment leads anywhere. -/
theorem segments_of_same {path : String} (h : same path "." = true) :
    path.toList.head? ≠ some '/' ∧ ∃ dots, segments path.toList = ['.'] :: dots ∧
      ∀ segment ∈ dots, segment = [] ∨ segment = ['.'] := by
  have dot : components path = [.current] := by
    rw [show components path = components "." by simpa [same] using h]
    decide
  obtain ⟨first, dots, cut⟩ := List.exists_cons_of_ne_nil (segments_ne_nil path.toList)
  simp only [components, cut, List.head?_cons] at dot
  split at dot
  · simp at dot
  · next begun relative =>
    obtain rfl := Option.some.inj begun
    have still : dots.filterMap component? = [] := by simpa [component?] using dot
    refine ⟨relative, dots, cut, fun segment mem => ?_⟩
    exact (component?_eq_none_iff segment).1 (List.filterMap_eq_nil_iff.1 still segment mem)
  · have current : Component.current ∈ (first :: dots).filterMap component? := by
      rw [← List.nil_append (List.filterMap _ _), dot]
      exact List.mem_singleton_self _
    obtain ⟨other, _, found⟩ := List.mem_filterMap.1 current
    exact absurd found (component?_ne_current other)

end Path

end FormatPreview
