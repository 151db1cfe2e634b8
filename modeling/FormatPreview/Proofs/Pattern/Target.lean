import FormatPreview.Proofs.Pattern.Brace

/-!
Which targets are patterns. The depth of a text is counted from where it begins, one up for each
opening brace and one down for each closing one; a brace is closed where the depth counted from it is
back at zero for the first time. A target is a pattern when it has a wildcard, or a brace that is
closed behind a comma at depth one: then it stands for several words, and otherwise for itself alone.
-/
namespace FormatPreview.Pattern

/-- The braces that a text leaves open, less those that it closes without having opened them. -/
def depth (text : List Char) : Int := text.count '\x7b' - text.count '\x7d'

@[simp] theorem depth_nil : depth [] = 0 := rfl

theorem depth_append (first second : List Char) :
    depth (first ++ second) = depth first + depth second := by
  simp only [depth, List.count_append]
  omega

theorem depth_cons (c : Char) (rest : List Char) : depth (c :: rest) = depth [c] + depth rest :=
  depth_append [c] rest

/-- A brace before the text is closed by the one behind it and by none before that. -/
structure Closed (inside : List Char) : Prop where
  back : depth ('\x7b' :: inside ++ ['\x7d']) = 0
  first : ∀ left right, inside = left ++ right → depth ('\x7b' :: left) ≠ 0

/-- Some brace of the text is closed, with a comma at depth one between the two. -/
def HasGroup (text : List Char) : Prop :=
  ∃ before inside after, text = before ++ ('\x7b' :: inside ++ ['\x7d']) ++ after ∧
    Closed inside ∧ ∃ left right, inside = left ++ ',' :: right ∧ depth ('\x7b' :: left) = 1

theorem deeper_eq {nested : Nat} {c : Char} (go : ¬ (c = '\x7d' ∧ nested = 0)) :
    (deeper nested c : Int) = nested + depth [c] := by
  unfold deeper
  split
  · next opening => subst opening; rfl
  · split
    · next closing =>
      subst closing
      have held : nested ≠ 0 := fun zero => go ⟨rfl, zero⟩
      have down : depth ['\x7d'] = -1 := rfl
      omega
    · next other closing =>
      have level : depth [c] = 0 := by simp [depth, other, closing]
      omega

/-- A text closes no brace but its own when its depth never falls below where it began. -/
theorem nesting?_iff {nested after : Nat} {text : List Char} :
    nesting? nested text = some after ↔ (after : Int) = nested + depth text ∧
      ∀ left right, text = left ++ right → nested + depth left + 1 ≠ 0 := by
  fun_induction nesting? nested text with
  | case1 nested =>
    simp
    omega
  | case2 nested c rest stop =>
    obtain ⟨rfl, rfl⟩ := stop
    have below : ∃ left right, '\x7d' :: rest = left ++ right ∧ (0 : Nat) + depth left + 1 = 0 :=
      ⟨['\x7d'], rest, rfl, rfl⟩
    simpa using fun _ => below
  | case3 nested c rest go ih =>
    rw [ih, deeper_eq go, depth_cons c rest, Int.add_assoc]
    refine and_congr_right fun _ => ⟨fun above left right cut => ?_, fun above left right cut => ?_⟩
    · cases left with
      | nil => simp; omega
      | cons d left =>
        obtain ⟨rfl, rfl⟩ := List.cons.inj cut
        rw [depth_cons]
        have := above left right rfl
        omega
    · have := above (c :: left) right (by rw [cut, List.cons_append])
      rw [depth_cons] at this
      omega

theorem balanced_iff_closed {inside : List Char} : Balanced inside ↔ Closed inside := by
  have inner : depth ('\x7b' :: inside ++ ['\x7d']) = depth inside := by
    rw [depth_append, depth_cons]
    have : depth ['\x7b'] = 1 ∧ depth ['\x7d'] = -1 := ⟨rfl, rfl⟩
    omega
  have inner' : ∀ left, depth ('\x7b' :: left) = depth left + 1 := by
    intro left
    rw [depth_cons, Int.add_comm]
    rfl
  rw [Balanced, nesting?_iff]
  constructor
  · rintro ⟨back, first⟩
    refine ⟨by rw [inner]; omega, fun left right cut => ?_⟩
    have := first left right cut
    rw [inner']
    omega
  · rintro ⟨back, first⟩
    refine ⟨by omega, fun left right cut => ?_⟩
    have := first left right cut
    rw [inner'] at this
    omega

/-- A comma in no brace, for a text that starts at a depth. -/
theorem commas_ne_zero_iff {nested : Nat} {text : List Char} :
    commas nested text ≠ 0 ↔
      ∃ left right, text = left ++ ',' :: right ∧ left.foldl deeper nested = 0 := by
  induction text generalizing nested with
  | nil => simp [commas]
  | cons c rest ih =>
    rw [commas]
    constructor
    · intro some
      by_cases here : c = ',' ∧ nested = 0
      · obtain ⟨rfl, rfl⟩ := here
        exact ⟨[], rest, rfl, rfl⟩
      · rw [if_neg here, Nat.zero_add] at some
        obtain ⟨left, right, rfl, level⟩ := ih.1 some
        exact ⟨c :: left, right, rfl, level⟩
    · rintro ⟨left, right, cut, level⟩
      cases left with
      | nil =>
        obtain ⟨rfl, rfl⟩ := List.cons.inj cut
        simp [show nested = 0 from level]
      | cons d left =>
        obtain ⟨rfl, rfl⟩ := List.cons.inj cut
        have := ih.2 ⟨left, right, rfl, level⟩
        omega

/-- In a balanced text a comma in no brace stands at depth one, counted from the brace before. -/
theorem Balanced.comma_iff {inside : List Char} (balanced : Balanced inside) :
    commas 0 inside ≠ 0 ↔
      ∃ left right, inside = left ++ ',' :: right ∧ depth ('\x7b' :: left) = 1 := by
  rw [commas_ne_zero_iff]
  refine exists_congr fun left => exists_congr fun right => and_congr_right ?_
  rintro rfl
  rw [Balanced, nesting?_append] at balanced
  obtain ⟨after, nested, -⟩ := Option.bind_eq_some_iff.1 balanced
  have level := (nesting?_iff.1 nested).1
  have one : depth ['\x7b'] = 1 := rfl
  rw [foldl_of_nesting? nested, depth_cons]
  omega

theorem hasGroup_of_group? {pattern : List Char} {g : Group} (found : group? pattern = some g) :
    HasGroup pattern := by
  obtain ⟨inside, stands⟩ := stands_of_group? found
  exact ⟨g.before, inside, g.after, stands.text, balanced_iff_closed.1 stands.balanced,
    stands.balanced.comma_iff.1 stands.comma⟩

/-- No brace that is never closed, or closed without a comma, hides a group after it. -/
theorem group?_ne_none_of_hasGroup {pattern : List Char} (group : HasGroup pattern) :
    group? pattern ≠ none := by
  obtain ⟨before, inside, after, rfl, closed, comma⟩ := group
  have balanced := balanced_iff_closed.2 closed
  induction before with
  | nil =>
    have here : groupHere? (inside ++ '\x7d' :: after) = some ⟨[], cut 0 inside, after⟩ := by
      rw [groupHere?_eq, closing?_eq_some_iff.2 ⟨rfl, balanced⟩, Option.bind_some,
        if_neg (balanced.comma_iff.2 comma)]
    simp [group?, here]
  | cons c before ih =>
    rw [List.cons_append, List.cons_append, group?]
    split
    · simp
    · simpa using ih

theorem group?_eq_none_iff {pattern : List Char} : group? pattern = none ↔ ¬ HasGroup pattern := by
  constructor
  · intro none group
    exact group?_ne_none_of_hasGroup group none
  · intro none
    cases found : group? pattern with
    | none => rfl
    | some g => exact absurd (hasGroup_of_group? found) none

theorem words_ne_nil (pattern : List Char) : words pattern ≠ [] := by
  induction pattern using words.induct with
  | case1 pattern none => simp [words_of_none none]
  | case2 pattern g found ih =>
    obtain ⟨inside, stands⟩ := stands_of_group? found
    obtain ⟨part, mem⟩ := List.exists_mem_of_ne_nil g.parts (stands.parts ▸ cut_ne_nil 0 inside)
    rw [words_of_some found]
    exact fun none => ih ⟨part, mem⟩ (List.flatMap_eq_nil_iff.1 none part mem)

/-- A group has two parts at least, and each of them has a word at least. -/
theorem two_le_length_words {pattern : List Char} {g : Group} (found : group? pattern = some g) :
    2 ≤ (words pattern).length := by
  obtain ⟨inside, stands⟩ := stands_of_group? found
  have several := length_cut 0 inside
  have comma := stands.comma
  rw [words_of_some found, stands.parts]
  rcases parts : cut 0 inside with _ | ⟨first, _ | ⟨second, more⟩⟩
  · exact absurd parts (cut_ne_nil 0 inside)
  · rw [parts, List.length_singleton] at several
    omega
  · have here := List.length_pos_iff.2 (words_ne_nil (g.before ++ first ++ g.after))
    have there := List.length_pos_iff.2 (words_ne_nil (g.before ++ second ++ g.after))
    simp only [List.flatMap_cons, List.length_append]
    omega

theorem expandBraces_of_not_hasGroup {target : String} (none : ¬ HasGroup target.toList) :
    expandBraces target = [target] := by
  rw [expandBraces, words_of_none (group?_eq_none_iff.2 none), List.map_singleton,
    String.ofList_toList]

theorem one_lt_length_expandBraces_iff (target : String) :
    1 < (expandBraces target).length ↔ HasGroup target.toList := by
  by_cases group : HasGroup target.toList
  · obtain ⟨g, found⟩ := Option.ne_none_iff_exists'.1 (group?_ne_none_of_hasGroup group)
    have several := two_le_length_words found
    simp only [expandBraces, List.length_map, group, iff_true]
    omega
  · simp [expandBraces_of_not_hasGroup group, group]

/-- What makes a target a pattern. A target that is none is handed on as it is. -/
theorem isPattern_iff_wildcard_or_group (target : String) :
    (isPattern target = true ↔
      (∃ c ∈ target.toList, c ∈ ['*', '?', '[']) ∨ HasGroup target.toList) ∧
    (expandBraces target = [target] ↔ ¬ HasGroup target.toList) ∧
    (isPattern target = false → expandBraces target = [target]) := by
  have pattern : isPattern target = true ↔
      (∃ c ∈ target.toList, c ∈ ['*', '?', '[']) ∨ HasGroup target.toList := by
    simp [isPattern, ← one_lt_length_expandBraces_iff, or_assoc]
  refine ⟨pattern, ⟨fun alone group => ?_, expandBraces_of_not_hasGroup⟩, fun literal => ?_⟩
  · have several := (one_lt_length_expandBraces_iff target).2 group
    simp [alone] at several
  · apply expandBraces_of_not_hasGroup
    intro group
    simp [pattern.2 (.inr group)] at literal

/-- A brace that is never closed and braces without a comma make no pattern, and hide none. -/
theorem isPattern_iff_wildcard_or_group_unclosed :
    isPattern "x,\x7ba,\x7bdraft\x7d" = false ∧
      expandBraces "x,\x7ba,\x7bdraft\x7d" = ["x,\x7ba,\x7bdraft\x7d"] ∧
      isPattern "\x7ba,\x7bb\x7d\x7bc,d\x7d" = true := by
  have literal : isPattern "x,\x7ba,\x7bdraft\x7d" = false := by cbv
  have group : HasGroup "\x7ba,\x7bb\x7d\x7bc,d\x7d".toList :=
    ⟨['\x7b', 'a', ',', '\x7b', 'b', '\x7d'], ['c', ',', 'd'], [], rfl, balanced_iff_closed.1 rfl,
      ['c'], ['d'], rfl, rfl⟩
  exact ⟨literal, (isPattern_iff_wildcard_or_group _).2.2 literal,
    (isPattern_iff_wildcard_or_group _).1.2 (.inr group)⟩

end FormatPreview.Pattern
