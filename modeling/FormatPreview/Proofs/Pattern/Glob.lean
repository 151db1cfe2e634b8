import FormatPreview.Pattern.Glob
import FormatPreview.Proofs.Path

/-!
What the segments of a pattern can name. A literal segment has the characters of one component of the
pattern, so there is no separator in it.
-/
namespace FormatPreview.Pattern

private theorem exists_of_map_ok {ε α β : Type} {read : Except ε α} {f : α → β} {result : β}
    (h : read.map f = .ok result) : ∃ first, read = .ok first ∧ f first = result := by
  cases read <;> simp_all [Except.map]

/-- A list read item by item gives a result for each item, in their order. -/
theorem mapM_ok_iff {ε α β : Type} {read : α → Except ε β} {items : List α} {results : List β} :
    items.mapM read = .ok results ↔
      List.Forall₂ (fun item result => read item = .ok result) items results := by
  induction items generalizing results with
  | nil => cases results <;> simp [pure, Except.pure]
  | cons item rest ih =>
    rw [List.mapM_cons, List.forall₂_cons_left_iff]
    simp only [← ih]
    cases read item with
    | error e => simp [bind, Except.bind]
    | ok first =>
      cases rest.mapM read <;> simp [bind, Except.bind, pure, Except.pure, eq_comm]

theorem mapM_ok {ε α β : Type} {read : α → Except ε β} {items : List α} {result : α → β}
    (each : ∀ item ∈ items, read item = .ok (result item)) :
    items.mapM read = .ok (items.map result) :=
  mapM_ok_iff.2 (List.forall₂_map_right_iff.2 (List.forall₂_same.2 each))

/-- Each item has its result among the results, and each result its item among the items. -/
theorem mem_of_mapM {ε α β : Type} {read : α → Except ε β} {items : List α} {results : List β}
    (h : items.mapM read = .ok results) :
    (∀ item ∈ items, ∃ result ∈ results, read item = .ok result) ∧
      ∀ result ∈ results, ∃ item ∈ items, read item = .ok result := by
  induction mapM_ok_iff.1 h with
  | nil => simp
  | cons first further ih => simp_all [mapM_ok_iff]

theorem mapM_error_iff {ε α β : Type} {read : α → Except ε β} {items : List α} :
    (∃ e, items.mapM read = .error e) ↔ ∃ item ∈ items, ∃ e, read item = .error e := by
  induction items with
  | nil => simp [pure, Except.pure]
  | cons item rest ih =>
    rw [List.mapM_cons, List.exists_mem_cons_iff, ← ih]
    cases read item with
    | error e => simp [bind, Except.bind]
    | ok first => cases rest.mapM read <;> simp [bind, Except.bind, pure, Except.pure]

theorem mem_of_untilClose {cs : List Char} {found : List Char × List Char}
    (h : untilClose cs = some found) : ∀ c ∈ found.2, c ∈ cs := by
  fun_induction untilClose cs generalizing found with
  | case1 => simp at h
  | case2 rest =>
    obtain rfl := Option.some.inj h
    exact fun c mem => List.mem_cons_of_mem _ mem
  | case3 c rest _ ih =>
    obtain ⟨inner, read, rfl⟩ := Option.map_eq_some_iff.1 h
    exact fun c mem => List.mem_cons_of_mem _ (ih read c mem)

/-- A set is no literal, and what follows it follows its bracket. -/
theorem mem_of_set? {cs : List Char} {found : Wildcard × List Char} (h : set? cs = some found) :
    (∀ c, found.1 ≠ .literal c) ∧ ∀ c ∈ found.2, c ∈ cs := by
  unfold set? at h
  split at h
  · obtain ⟨inner, read, rfl⟩ := Option.map_eq_some_iff.1 h
    refine ⟨by simp, fun c mem => ?_⟩
    simp [mem_of_untilClose read c mem]
  · simp at h
  · obtain ⟨inner, read, rfl⟩ := Option.map_eq_some_iff.1 h
    refine ⟨by simp, fun c mem => ?_⟩
    simp [mem_of_untilClose read c mem]
  · simp at h

theorem mem_of_literal {position : Nat} {before : Option Char} {text : List Char}
    {ws : List Wildcard} (read : wildcardsFrom position before text = .ok ws) {c : Char}
    (mem : .literal c ∈ ws) : c ∈ text := by
  fun_induction wildcardsFrom position before text generalizing ws with
  | case1 =>
    obtain rfl := Except.ok.inj read
    simp at mem
  | case2 | case3 | case6 | case9 => simp at read
  | case4 =>
    obtain rfl := Except.ok.inj read
    simp at mem
  | case5 position before _ rest _ ih | case7 position before rest _ _ ih
  | case8 position before rest ih =>
    obtain ⟨more, further, rfl⟩ := exists_of_map_ok read
    have later := ih further (by simpa using mem)
    simp [later]
  | case10 position before rest found set ih =>
    obtain ⟨more, further, rfl⟩ := exists_of_map_ok read
    obtain ⟨other, inside⟩ := mem_of_set? set
    have later : .literal c ∈ more :=
      (List.mem_cons.1 mem).resolve_left fun same => other c same.symm
    exact List.mem_cons_of_mem _ (inside c (ih further later))
  | case11 position before d rest _ _ _ _ _ ih =>
    obtain ⟨more, further, rfl⟩ := exists_of_map_ok read
    rcases List.mem_cons.1 mem with same | later
    · obtain rfl := Wildcard.literal.inj same
      exact List.mem_cons_self ..
    · exact List.mem_cons_of_mem _ (ih further later)

namespace Segment

theorem literal_of_name? {ws : List Wildcard} {name : List Char} (h : name? ws = some name) :
    ∀ c ∈ name, .literal c ∈ ws := by
  fun_induction name? ws generalizing name with
  | case1 => simp_all
  | case2 c ws ih =>
    obtain ⟨rest, read, rfl⟩ := Option.map_eq_some_iff.1 h
    intro d mem
    rcases List.mem_cons.1 mem with rfl | mem
    · exact List.mem_cons_self ..
    · exact List.mem_cons_of_mem _ (ih read d mem)
  | case3 => simp at h

theorem mem_push {s other : Segment} {rest : List Segment} (mem : s ∈ push other rest) :
    s = other ∨ s ∈ rest := by
  unfold push at mem
  split at mem
  · exact .inr mem
  · exact List.mem_cons.1 mem

theorem mem_foldr_push {s : Segment} {segments : List Segment} (mem : s ∈ segments.foldr push []) :
    s ∈ segments := by
  induction segments with
  | nil => simp at mem
  | cons other rest ih =>
    rcases mem_push mem with rfl | mem
    · exact List.mem_cons_self ..
    · exact List.mem_cons_of_mem _ (ih mem)

/-- A literal segment has only characters of the text whose wildcards it is. -/
theorem mem_of_ofWildcards {text : List Char} {ws : List Wildcard} {name : String}
    (read : wildcards text = .ok ws) (literal : ofWildcards ws = .literal name) :
    ∀ c ∈ name.toList, c ∈ text := by
  unfold ofWildcards at literal
  split at literal
  · next chars spelled =>
    obtain rfl := Segment.literal.inj literal
    intro c mem
    rw [String.toList_ofList] at mem
    exact mem_of_literal read (literal_of_name? spelled c mem)
  · split at literal <;> simp at literal

end Segment

theorem components_sublist (text : List Char) : (components text).Sublist (Path.segments text) := by
  unfold components
  split
  · exact List.dropLast_sublist _
  · exact .refl _

/-- No literal segment of a pattern holds a separator. -/
theorem plain_of_literal {text : String} {glob : Glob} (read : Glob.ofText text = .ok glob)
    {name : String} (mem : .literal name ∈ glob.segments) : '/' ∉ name.toList := by
  unfold Glob.ofText at read
  cases whole : wildcards text.toList with
  | error e => simp [whole, bind, Except.bind] at read
  | ok _ =>
    simp only [whole, bind, Except.bind] at read
    split at read
    · simp at read
    · next parts each =>
      obtain rfl := Except.ok.inj read
      obtain ⟨ws, part, literal⟩ := List.mem_map.1 (Segment.mem_foldr_push mem)
      obtain ⟨component, mem, parsed⟩ := (mem_of_mapM each).2 ws part
      have plain := Path.plain_of_mem_segments ((components_sublist _).subset mem)
      exact fun separator => plain (Segment.mem_of_ofWildcards parsed literal _ separator)

end FormatPreview.Pattern
