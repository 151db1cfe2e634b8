/-!
Alternatives in braces. A group is an opening brace, the brace that closes it, and at least one
comma between them that lies in no inner group; it stands for each of its parts in turn. Any other
brace stands for itself. Every word that a pattern expands to is shorter than the pattern, unless it
is the pattern.
-/
namespace FormatPreview.Pattern

/-- A pattern around its first group. -/
structure Group where
  before : List Char
  parts : List (List Char)
  after : List Char

def pushPart (c : Char) : List (List Char) → List (List Char)
  | [] => [[c]]
  | part :: more => (c :: part) :: more

/-- What follows an opening brace: the parts between its commas, and the rest after the brace that
closes it. `depth` counts the inner braces that are open. -/
def parts? (depth : Nat) : List Char → Option (List (List Char) × List Char)
  | [] => none
  | c :: rest =>
    if c = '\x7d' then
      match depth with
      | 0 => some ([[]], rest)
      | depth + 1 => (parts? depth rest).map fun found => (pushPart c found.1, found.2)
    else if c = '\x7b' then
      (parts? (depth + 1) rest).map fun found => (pushPart c found.1, found.2)
    else if c = ',' ∧ depth = 0 then
      (parts? depth rest).map fun found => ([] :: found.1, found.2)
    else (parts? depth rest).map fun found => (pushPart c found.1, found.2)

/-- The group that an opening brace before the text begins, if it begins one. -/
def groupHere? (rest : List Char) : Option Group :=
  match parts? 0 rest with
  | some (part :: other :: more, after) => some ⟨[], part :: other :: more, after⟩
  | _ => none

/-- The first group of a pattern, if it has one. -/
def group? : List Char → Option Group
  | [] => none
  | c :: rest =>
    match if c = '\x7b' then groupHere? rest else none with
    | some g => some g
    | none => (group? rest).map fun g => ⟨c :: g.before, g.parts, g.after⟩

theorem length_of_mem_pushPart {c : Char} {parts : List (List Char)} {part : List Char}
    (h : part ∈ pushPart c parts) :
    part.length ≤ 1 ∨ part ∈ parts ∨ ∃ inner ∈ parts, part.length = inner.length + 1 := by
  cases parts with
  | nil => simp_all [pushPart]
  | cons first more =>
    rcases List.mem_cons.1 h with rfl | h
    · exact .inr (.inr ⟨first, by simp, by simp⟩)
    · exact .inr (.inl (by simp [h]))

/-- A part and the rest are together shorter than `n`. -/
def Within (n : Nat) (found : List (List Char) × List Char) : Prop :=
  found.2.length < n ∧ ∀ part ∈ found.1, part.length + found.2.length < n

theorem Within.push {n : Nat} {found : List (List Char) × List Char} (h : Within n found)
    (c : Char) : Within (n + 1) (pushPart c found.1, found.2) := by
  obtain ⟨rest, parts⟩ := h
  refine ⟨by simp only; omega, fun part mem => ?_⟩
  rcases length_of_mem_pushPart mem with short | inside | ⟨inner, inside, length⟩
  · simp only; omega
  · have := parts part inside
    simp only; omega
  · have := parts inner inside
    simp only; omega

theorem within_of_parts? {depth : Nat} {input : List Char}
    {found : List (List Char) × List Char} (h : parts? depth input = some found) :
    Within input.length found := by
  fun_induction parts? depth input generalizing found with
  | case1 => simp at h
  | case2 rest =>
    obtain rfl := Option.some.inj h
    simp [Within]
  | case3 rest depth ih | case4 depth rest _ ih | case6 depth c rest _ _ _ ih =>
    obtain ⟨inner, read, rfl⟩ := Option.map_eq_some_iff.1 h
    exact (ih read).push _
  | case5 depth c rest _ _ comma ih =>
    obtain ⟨inner, read, rfl⟩ := Option.map_eq_some_iff.1 h
    obtain ⟨after, parts⟩ := ih read
    refine ⟨by simp only [List.length_cons]; omega, fun part mem => ?_⟩
    rcases List.mem_cons.1 mem with rfl | mem
    · simp only [List.length_cons, List.length_nil]; omega
    · have := parts part mem
      simp only [List.length_cons]; omega

theorem length_of_groupHere? {rest : List Char} {g : Group} (h : groupHere? rest = some g) :
    ∀ part ∈ g.parts, (g.before ++ part ++ g.after).length < rest.length + 1 := by
  intro part mem
  unfold groupHere? at h
  split at h
  · next first other more after read =>
    obtain rfl := Option.some.inj h
    have := (within_of_parts? read).2 part mem
    simp only [List.nil_append, List.length_append] at this ⊢
    omega
  · simp at h

/-- A group with one part in its place is shorter than the pattern. -/
theorem length_of_group? {pattern : List Char} {g : Group} (h : group? pattern = some g) :
    ∀ part ∈ g.parts, (g.before ++ part ++ g.after).length < pattern.length := by
  fun_induction group? pattern generalizing g with
  | case1 => simp at h
  | case2 c rest found here =>
    obtain rfl := Option.some.inj h
    split at here
    · exact length_of_groupHere? here
    · simp at here
  | case3 c rest _ ih =>
    obtain ⟨inner, found, rfl⟩ := Option.map_eq_some_iff.1 h
    intro part mem
    have := ih found part mem
    simp only [List.length_append, List.length_cons] at this ⊢
    omega

/-- The words of a pattern: those of each alternative of its first group in turn. -/
def words (pattern : List Char) : List (List Char) :=
  match _found : group? pattern with
  | none => [pattern]
  | some g => g.parts.attach.flatMap fun part => words (g.before ++ part.1 ++ g.after)
termination_by pattern.length
decreasing_by exact length_of_group? _found part.1 part.2

def expandBraces (pattern : String) : List String := (words pattern.toList).map String.ofList

/-- Whether a target is a pattern rather than the path of a file. A brace makes it one only when it
opens a group. -/
def isPattern (target : String) : Bool :=
  target.toList.any (fun c => c = '*' || c = '?' || c = '[') || (expandBraces target).length > 1

end FormatPreview.Pattern
