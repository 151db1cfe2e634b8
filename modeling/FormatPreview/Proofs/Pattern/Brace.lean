import FormatPreview.Proofs.Pattern.Nesting

/-!
What a pattern stands for, told by its braces: a group with a comma of its own for what its parts
stand for in turn, a group without one for its braces around what it holds, and any other character
for itself. Expanding the first group of the text and reading the result anew comes to the same, since
a part is balanced and so leaves the braces around it as they are.
-/
namespace FormatPreview.Pattern

/-- Each text of the first list before each of the second, the first varying slowest. -/
def followed (first second : List (List Char)) : List (List Char) :=
  first.flatMap fun word => second.map (word ++ ·)

theorem sublist_of_mem_cut {depth : Nat} {text part : List Char} (mem : part ∈ cut depth text) :
    part.Sublist text := by
  fun_induction cut depth text generalizing part with
  | case1 => simp_all
  | case2 depth c rest comma ih =>
    rcases List.mem_cons.1 mem with rfl | mem
    · exact List.nil_sublist _
    · exact (ih mem).cons _
  | case3 depth c rest other ih =>
    cases parts : cut (deeper depth c) rest with
    | nil => exact absurd parts (cut_ne_nil _ rest)
    | cons head tail =>
      rw [parts, List.modifyHead_cons] at mem
      rw [parts] at ih
      rcases List.mem_cons.1 mem with rfl | mem
      · exact (ih (List.mem_cons_self ..)).cons_cons c
      · exact (ih (List.mem_cons_of_mem _ mem)).cons c

theorem length_of_closing? {depth : Nat} {text inside after : List Char}
    (h : closing? depth text = some (inside, after)) :
    inside.length + after.length < text.length := by
  obtain ⟨rfl, _⟩ := closing?_eq_some_iff.1 h
  simp only [List.length_append, List.length_cons]
  omega

/-- The texts that a pattern stands for. -/
def denoted : List Char → List (List Char)
  | [] => [[]]
  | c :: rest =>
    match _closed : if c = '\x7b' then closing? 0 rest else none with
    | none => followed [[c]] (denoted rest)
    | some (inside, after) =>
      followed
        (if commas 0 inside = 0 then (denoted inside).map fun word => '\x7b' :: word ++ ['\x7d']
          else (cut 0 inside).attach.flatMap fun part => denoted part.1)
        (denoted after)
termination_by pattern => pattern.length
decreasing_by
  · simp
  all_goals
    split at _closed
    · have shorter := length_of_closing? _closed
      simp only [List.length_cons]
      first
        | omega
        | have := (sublist_of_mem_cut part.2).length_le
          omega
    · simp at _closed

theorem words_of_none {pattern : List Char} (none : group? pattern = none) :
    words pattern = [pattern] := by
  rw [words]
  split
  · rfl
  · simp_all

theorem words_of_some {pattern : List Char} {g : Group} (found : group? pattern = some g) :
    words pattern = g.parts.flatMap fun part => words (g.before ++ part ++ g.after) := by
  rw [words]
  split
  · simp_all
  · next g' found' =>
    obtain rfl := Option.some.inj (found.symm.trans found')
    simp

/-- A word that a pattern expands to has no group left in it. -/
theorem words_of_mem_words {pattern word : List Char} (h : word ∈ words pattern) :
    words word = [word] := by
  induction pattern using words.induct with
  | case1 pattern none =>
    rw [words_of_none none] at h
    obtain rfl := List.mem_singleton.1 h
    exact words_of_none none
  | case2 pattern g found ih =>
    rw [words_of_some found] at h
    obtain ⟨part, mem, inside⟩ := List.mem_flatMap.1 h
    exact ih ⟨part, mem⟩ inside

theorem expandBraces_of_mem {pattern word : String} (h : word ∈ expandBraces pattern) :
    expandBraces word = [word] := by
  obtain ⟨text, mem, rfl⟩ := List.mem_map.1 h
  rw [expandBraces, String.toList_ofList, words_of_mem_words mem, List.map_singleton]

theorem parts?_eq (depth : Nat) (text : List Char) :
    parts? depth text = (closing? depth text).map fun found => (cut depth found.1, found.2) := by
  have push : ∀ (c : Char) (depth : Nat) (inside : List Char),
      pushPart c (cut depth inside) = (cut depth inside).modifyHead (c :: ·) := by
    intro c depth inside
    cases parts : cut depth inside with
    | nil => exact absurd parts (cut_ne_nil depth inside)
    | cons => rfl
  fun_induction parts? depth text with
  | case1 => rfl
  | case2 rest => simp [closing?, cut]
  | case3 rest depth ih | case4 depth rest _ ih =>
    rw [ih, closing?, if_neg (by simp), Option.map_map, Option.map_map]
    simp [deeper, Function.comp_def, cut, push]
  | case5 depth c rest close opening comma ih =>
    obtain ⟨rfl, rfl⟩ := comma
    rw [ih, closing?, if_neg (by simp), Option.map_map, Option.map_map]
    simp [deeper, Function.comp_def, cut]
  | case6 depth c rest close opening comma ih =>
    rw [ih, closing?, if_neg (by simp [close]), Option.map_map, Option.map_map]
    simp [deeper, Function.comp_def, cut, push, close, opening, comma]

/-- An opening brace begins a group when it is closed and has a comma of its own. -/
theorem groupHere?_eq (rest : List Char) :
    groupHere? rest = (closing? 0 rest).bind fun found =>
      if commas 0 found.1 = 0 then none else some ⟨[], cut 0 found.1, found.2⟩ := by
  unfold groupHere?
  rw [parts?_eq]
  cases closing? 0 rest with
  | none => rfl
  | some found =>
    have length := length_cut 0 found.1
    rw [Option.map_some, Option.bind_some]
    by_cases none : commas 0 found.1 = 0
    · rw [if_pos none, cut_of_commas none]
    · rw [if_neg none]
      split
      · next same =>
        obtain ⟨parts, rfl⟩ := Prod.mk.inj (Option.some.inj same)
        rw [parts]
      · next few =>
        exfalso
        rcases parts : cut 0 found.1 with _ | ⟨first, _ | ⟨second, more⟩⟩
        · exact cut_ne_nil _ _ parts
        · simp [parts] at length
          omega
        · exact few first second more found.2 (by rw [parts])

/-- The first group of a pattern stands in it with its braces, and has a comma of its own. -/
structure Group.Stands (g : Group) (pattern inside : List Char) : Prop where
  text : pattern = g.before ++ ('\x7b' :: inside ++ ['\x7d']) ++ g.after
  balanced : Balanced inside
  parts : g.parts = cut 0 inside
  comma : commas 0 inside ≠ 0

theorem stands_of_groupHere? {rest : List Char} {g : Group} (h : groupHere? rest = some g) :
    ∃ inside, g.Stands ('\x7b' :: rest) inside := by
  rw [groupHere?_eq] at h
  obtain ⟨⟨inside, after⟩, closed, begins⟩ := Option.bind_eq_some_iff.1 h
  obtain ⟨rfl, balanced⟩ := closing?_eq_some_iff.1 closed
  by_cases none : commas 0 inside = 0
  · simp [none] at begins
  · rw [if_neg none] at begins
    obtain rfl := Option.some.inj begins
    exact ⟨inside, by simp, balanced, rfl, none⟩

theorem stands_of_group? {pattern : List Char} {g : Group} (h : group? pattern = some g) :
    ∃ inside, g.Stands pattern inside := by
  fun_induction group? pattern generalizing g with
  | case1 => simp at h
  | case2 c rest found here =>
    obtain rfl := Option.some.inj h
    by_cases opening : c = '\x7b'
    · subst opening
      exact stands_of_groupHere? (by simpa using here)
    · simp [opening] at here
  | case3 c rest _ ih =>
    obtain ⟨inner, found, rfl⟩ := Option.map_eq_some_iff.1 h
    obtain ⟨inside, stands⟩ := ih found
    exact ⟨inside, by rw [stands.text]; simp, stands.balanced, stands.parts, stands.comma⟩

namespace Group.Stands

variable {g : Group} {pattern inside part : List Char}

theorem balanced_part (stands : g.Stands pattern inside) (mem : part ∈ g.parts) : Balanced part :=
  (balanced_of_mem_cut stands.balanced (stands.parts ▸ mem)).1

/-- A part in place of its group leaves the nesting as it is. -/
theorem nesting?_part (stands : g.Stands pattern inside) (mem : part ∈ g.parts) (depth : Nat) :
    nesting? depth (g.before ++ part ++ g.after) = nesting? depth pattern := by
  rw [stands.text]
  exact (stands.balanced_part mem).nesting?_exchange stands.balanced.group depth _ _

/-- Nor does it bring any comma out of its brace. -/
theorem commas_part (stands : g.Stands pattern inside) (mem : part ∈ g.parts) (depth : Nat) :
    commas depth (g.before ++ part ++ g.after) = commas depth pattern := by
  obtain ⟨balanced, none⟩ := balanced_of_mem_cut stands.balanced (stands.parts ▸ mem)
  rw [stands.text]
  simp only [commas_append, List.foldl_append, balanced.foldl_eq, stands.balanced.group.foldl_eq,
    balanced.commas_eq_zero none, stands.balanced.commas_group]

end Group.Stands

theorem followed_singleton (word : List Char) (words : List (List Char)) :
    followed [word] words = words.map (word ++ ·) := by
  simp [followed]

theorem followed_flatMap {α : Type} (items : List α) (f : α → List (List Char))
    (second : List (List Char)) :
    followed (items.flatMap f) second = items.flatMap fun item => followed (f item) second := by
  simp only [followed, List.flatMap_assoc]

theorem group?_cons {c : Char} {rest : List Char}
    (alone : c ≠ '\x7b' ∨ groupHere? rest = none) :
    group? (c :: rest) = (group? rest).map fun g => ⟨c :: g.before, g.parts, g.after⟩ := by
  rw [group?]
  split
  · next g here => rcases alone with other | none <;> simp_all
  · rfl

/-- A brace that is never closed, like any character but an opening brace, stands for itself. -/
theorem words_cons {c : Char} {rest : List Char} (alone : c ≠ '\x7b' ∨ closing? 0 rest = none) :
    words (c :: rest) = followed [[c]] (words rest) := by
  have here : ∀ {rest}, closing? 0 rest = none → groupHere? rest = none := by
    intro rest never
    rw [groupHere?_eq, never, Option.bind_none]
  rw [followed_singleton]
  induction rest using words.induct with
  | case1 rest none =>
    rw [words_of_none none, words_of_none (by simp [group?_cons (alone.imp_right here), none])]
    rfl
  | case2 rest g found ih =>
    obtain ⟨inside, stands⟩ := stands_of_group? found
    have still : ∀ part ∈ g.parts,
        c ≠ '\x7b' ∨ closing? 0 (g.before ++ part ++ g.after) = none := by
      intro part mem
      rwa [closing?_eq_none_iff, stands.nesting?_part mem, ← closing?_eq_none_iff]
    rw [words_of_some found, List.map_flatMap,
      words_of_some (g := ⟨c :: g.before, g.parts, g.after⟩)
        (by rw [group?_cons (alone.imp_right here), found, Option.map_some])]
    exact List.flatMap_congr fun part mem => ih ⟨part, mem⟩ (still part mem)

theorem groupHere?_append {rest inside after : List Char}
    (closed : closing? 0 rest = some (inside, after)) (more : List Char) :
    groupHere? (rest ++ more) =
      (groupHere? rest).map fun g => ⟨g.before, g.parts, g.after ++ more⟩ := by
  obtain ⟨rfl, balanced⟩ := closing?_eq_some_iff.1 closed
  have further : closing? 0 (inside ++ '\x7d' :: after ++ more) = some (inside, after ++ more) :=
    closing?_eq_some_iff.2 ⟨by simp, balanced⟩
  rw [groupHere?_eq, groupHere?_eq, closed, further, Option.bind_some, Option.bind_some]
  by_cases none : commas 0 inside = 0 <;> simp [none]

/-- The first group of a text that leaves no brace open stands in the text, or else after it. -/
theorem group?_append {depth : Nat} {text : List Char} (h : nesting? depth text = some 0)
    (more : List Char) :
    group? (text ++ more) =
      ((group? text).map fun g => ⟨g.before, g.parts, g.after ++ more⟩).or
        ((group? more).map fun g => ⟨text ++ g.before, g.parts, g.after⟩) := by
  induction text generalizing depth with
  | nil => simp [group?]
  | cons c rest ih =>
    by_cases stop : c = '\x7d' ∧ depth = 0
    · simp [nesting?, stop] at h
    · rw [nesting?, if_neg stop] at h
      have here : (if c = '\x7b' then groupHere? (rest ++ more) else none) =
          (if c = '\x7b' then groupHere? rest else none).map
            fun g => ⟨g.before, g.parts, g.after ++ more⟩ := by
        by_cases opening : c = '\x7b'
        · have some : closing? 0 rest ≠ none := by
            intro never
            obtain ⟨after, nested⟩ := closing?_eq_none_iff.1 never
            have deep := nesting?_add nested (depth + 1)
            rw [deeper, if_pos opening] at h
            simp [h] at deep
          obtain ⟨⟨inside, after⟩, closed⟩ := Option.ne_none_iff_exists'.1 some
          rw [if_pos opening, if_pos opening, groupHere?_append closed]
        · rw [if_neg opening, if_neg opening, Option.map_none]
      rw [List.cons_append, group?, group?, here]
      cases if c = '\x7b' then groupHere? rest else none with
      | some g => rfl
      | none =>
        simp only [Option.map_none, ih h]
        cases group? rest <;> simp [Function.comp_def]

/-- A balanced text is expanded apart from what follows it. -/
theorem words_append {text : List Char} (balanced : Balanced text) (more : List Char) :
    words (text ++ more) = followed (words text) (words more) := by
  generalize whole : text ++ more = pattern
  -- The first group of the whole stands in the balanced text, or else in what follows it.
  induction pattern using words.induct generalizing text more with
  | case1 pattern none =>
    subst whole
    have none' := none
    rw [group?_append balanced, Option.or_eq_none_iff, Option.map_eq_none_iff,
      Option.map_eq_none_iff] at none'
    rw [words_of_none none, words_of_none none'.1, words_of_none none'.2]
    rfl
  | case2 pattern g found ih =>
    subst whole
    rw [words_of_some found]
    rw [group?_append balanced] at found
    cases first : group? text with
    | some g' =>
      obtain rfl : _ = g := by simpa [first] using found
      obtain ⟨inside, stands⟩ := stands_of_group? first
      rw [words_of_some first, followed_flatMap]
      refine List.flatMap_congr fun part mem => ?_
      have still : Balanced (g'.before ++ part ++ g'.after) :=
        (stands.nesting?_part mem 0).trans balanced
      exact ih ⟨part, mem⟩ still more (by simp)
    | none =>
      rw [first, Option.map_none, Option.none_or] at found
      obtain ⟨g', later, rfl⟩ := Option.map_eq_some_iff.1 found
      rw [words_of_none first, words_of_some later, followed_singleton, List.map_flatMap]
      refine List.flatMap_congr fun part mem => ?_
      have rest := ih ⟨part, mem⟩ balanced (g'.before ++ part ++ g'.after) (by simp)
      rw [words_of_none first, followed_singleton] at rest
      exact rest

theorem group?_braces {inside : List Char} (balanced : Balanced inside)
    (none : commas 0 inside = 0) :
    group? ('\x7b' :: inside ++ ['\x7d']) =
      (group? inside).map fun g => ⟨'\x7b' :: g.before, g.parts, g.after ++ ['\x7d']⟩ := by
  have closed : closing? 0 (inside ++ ['\x7d']) = some (inside, []) :=
    closing?_eq_some_iff.2 ⟨rfl, balanced⟩
  have here : groupHere? (inside ++ ['\x7d']) = Option.none := by
    rw [groupHere?_eq, closed, Option.bind_some, if_pos none]
  have last : group? ['\x7d'] = Option.none := rfl
  rw [List.cons_append, group?_cons (.inr here), group?_append balanced, last]
  cases group? inside <;> rfl

/-- Braces without a comma of their own stay around what they hold. -/
theorem words_braces {inside : List Char} (balanced : Balanced inside)
    (none : commas 0 inside = 0) :
    words ('\x7b' :: inside ++ ['\x7d']) =
      (words inside).map fun word => '\x7b' :: word ++ ['\x7d'] := by
  induction inside using words.induct with
  | case1 inside alone =>
    rw [words_of_none alone, words_of_none (by rw [group?_braces balanced none, alone]; rfl)]
    rfl
  | case2 inside g found ih =>
    obtain ⟨inner, stands⟩ := stands_of_group? found
    rw [words_of_some found, List.map_flatMap, words_of_some
      (g := ⟨'\x7b' :: g.before, g.parts, g.after ++ ['\x7d']⟩)
      (by rw [group?_braces balanced none, found, Option.map_some])]
    refine List.flatMap_congr fun part mem => ?_
    have still : Balanced (g.before ++ part ++ g.after) :=
      (stands.nesting?_part mem 0).trans balanced
    have none' : commas 0 (g.before ++ part ++ g.after) = 0 :=
      (stands.commas_part mem 0).trans none
    rw [← ih ⟨part, mem⟩ still none']
    simp

/-- A group is expanded part by part. -/
theorem words_group {inside : List Char} (balanced : Balanced inside)
    (comma : commas 0 inside ≠ 0) :
    words ('\x7b' :: inside ++ ['\x7d']) = (cut 0 inside).flatMap words := by
  have closed : closing? 0 (inside ++ ['\x7d']) = some (inside, []) :=
    closing?_eq_some_iff.2 ⟨rfl, balanced⟩
  have here : group? ('\x7b' :: inside ++ ['\x7d']) = some ⟨[], cut 0 inside, []⟩ := by
    rw [List.cons_append, group?, if_pos rfl, groupHere?_eq, closed, Option.bind_some, if_neg comma]
  rw [words_of_some here]
  simp

theorem words_eq_denoted (pattern : List Char) : words pattern = denoted pattern := by
  fun_induction denoted pattern with
  | case1 => exact words_of_none rfl
  | case2 c rest none ih =>
    rw [← ih]
    apply words_cons
    by_cases opening : c = '\x7b'
    · exact .inr (by simpa [opening] using none)
    · exact .inl opening
  | case3 c rest inside after closed ih ih' ih'' =>
    by_cases opening : c = '\x7b'
    · subst opening
      obtain ⟨rfl, nested⟩ := closing?_eq_some_iff.1 (by simpa using closed)
      have balanced : Balanced inside := nested
      have split : '\x7b' :: (inside ++ '\x7d' :: after) =
          ('\x7b' :: inside ++ ['\x7d']) ++ after := by
        simp
      rw [split, words_append balanced.group, ih'']
      by_cases none : commas 0 inside = 0
      · rw [if_pos none, words_braces balanced none, ih]
      · rw [if_neg none, words_group balanced none]
        simp [← ih']
    · simp [opening] at closed

/-- The expansion of a pattern is the list of what it stands for, in this order and as often. -/
theorem expandBraces_eq_denoted (pattern : String) :
    expandBraces pattern = (denoted pattern.toList).map String.ofList := by
  rw [expandBraces, words_eq_denoted]

end FormatPreview.Pattern
