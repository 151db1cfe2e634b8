/-!
Wildcards of patterns: a question mark for one character, a star for any text, a set in brackets for
one of its characters, and two stars, as a whole component, for any directories. A pattern that
misuses one of them is an error at a position that counts characters.
-/
namespace FormatPreview.Pattern

inductive Wildcard where
  | literal (c : Char)
  | anyChar
  | anyText
  | anyDirectories
  | oneOf (ranges : List (Char × Char))
  | noneOf (ranges : List (Char × Char))
deriving DecidableEq

inductive Problem where
  | badSet
  | tooManyStars
  | starsInComponent
deriving DecidableEq

def Problem.message : Problem → String
  | .badSet => "invalid range pattern"
  | .tooManyStars => "wildcards are either regular `*` or recursive `**`"
  | .starsInComponent => "recursive wildcards must form a single path component"

structure SyntaxError where
  position : Nat
  problem : Problem
deriving DecidableEq

def SyntaxError.message (e : SyntaxError) : String :=
  "Pattern syntax error near position " ++ toString e.position ++ ": " ++ e.problem.message

/-- The ranges of a set. A dash makes a range only between two characters. -/
def ranges : List Char → List (Char × Char)
  | first :: '-' :: last :: rest => (first, last) :: ranges rest
  | c :: rest => (c, c) :: ranges rest
  | [] => []

/-- The characters up to a closing bracket, and those after it. -/
def untilClose : List Char → Option (List Char × List Char)
  | [] => none
  | ']' :: rest => some ([], rest)
  | c :: rest => (untilClose rest).map fun found => (c :: found.1, found.2)

theorem length_of_untilClose {cs : List Char} {found : List Char × List Char}
    (h : untilClose cs = some found) : found.1.length + found.2.length + 1 = cs.length := by
  fun_induction untilClose cs generalizing found with
  | case1 => simp at h
  | case2 rest => obtain rfl := Option.some.inj h; simp
  | case3 c rest _ ih =>
    obtain ⟨inner, read, rfl⟩ := Option.map_eq_some_iff.1 h
    have := ih read
    simp only [List.length_cons]; omega

/-- A set after its opening bracket, and what follows it. An exclamation mark negates it; the first
character, even a closing bracket, is in the set. -/
def set? : List Char → Option (Wildcard × List Char)
  | '!' :: first :: rest =>
    (untilClose rest).map fun found => (.noneOf (ranges (first :: found.1)), found.2)
  | '!' :: [] => none
  | first :: rest =>
    (untilClose rest).map fun found => (.oneOf (ranges (first :: found.1)), found.2)
  | [] => none

theorem length_of_set? {cs : List Char} {found : Wildcard × List Char} (h : set? cs = some found) :
    found.2.length < cs.length := by
  unfold set? at h
  split at h
  · obtain ⟨inner, read, rfl⟩ := Option.map_eq_some_iff.1 h
    have := length_of_untilClose read
    simp only [List.length_cons]; omega
  · simp at h
  · obtain ⟨inner, read, rfl⟩ := Option.map_eq_some_iff.1 h
    have := length_of_untilClose read
    simp only [List.length_cons]; omega
  · simp at h

/-- The wildcards of the text at a position, after the given character if there is one before. -/
def wildcardsFrom (position : Nat) (before : Option Char) :
    List Char → Except SyntaxError (List Wildcard)
  | [] => .ok []
  | '*' :: '*' :: '*' :: _ => .error ⟨position + 2, .tooManyStars⟩
  | '*' :: '*' :: rest =>
    if before ≠ none ∧ before ≠ some '/' then .error ⟨position - 1, .starsInComponent⟩
    else match rest with
      | [] => .ok [.anyDirectories]
      | '/' :: rest => (wildcardsFrom (position + 3) (some '/') rest).map (.anyDirectories :: ·)
      | _ => .error ⟨position + 2, .starsInComponent⟩
  | '*' :: rest => (wildcardsFrom (position + 1) (some '*') rest).map (.anyText :: ·)
  | '?' :: rest => (wildcardsFrom (position + 1) (some '?') rest).map (.anyChar :: ·)
  | '[' :: rest =>
    match _read : set? rest with
    | none => .error ⟨position, .badSet⟩
    | some found =>
      (wildcardsFrom (position + 1 + (rest.length - found.2.length)) (some ']') found.2).map
        (found.1 :: ·)
  | c :: rest => (wildcardsFrom (position + 1) (some c) rest).map (.literal c :: ·)
termination_by cs => cs.length
decreasing_by
  all_goals simp only [List.length_cons]
  all_goals try omega
  have := length_of_set? _read; omega

def wildcards (text : List Char) : Except SyntaxError (List Wildcard) := wildcardsFrom 0 none text

def inRanges (c : Char) (rs : List (Char × Char)) : Bool :=
  rs.any fun (first, last) => first ≤ c && c ≤ last

/-- Whether wildcards match a whole text. Two stars match no text; they are a component by
themselves. -/
def fits : List Wildcard → List Char → Bool
  | [], cs => cs.isEmpty
  | .anyText :: ws, [] => fits ws []
  | .anyText :: ws, c :: cs => fits ws (c :: cs) || fits (.anyText :: ws) cs
  | .literal d :: ws, c :: cs => c = d && fits ws cs
  | .anyChar :: ws, _ :: cs => fits ws cs
  | .oneOf rs :: ws, c :: cs => inRanges c rs && fits ws cs
  | .noneOf rs :: ws, c :: cs => !inRanges c rs && fits ws cs
  | _, _ => false
termination_by ws cs => ws.length + cs.length

end FormatPreview.Pattern
