import FormatPreview.Decimal.Binary

/-!
The Jaro similarity of two words: how many of their characters match, within half the length of the
longer word, and how many of the matches are out of order. It lies between zero and one and is
computed in double precision.
-/
namespace FormatPreview.Text

open Decimal

/-- Marks the first free position from `low` below `high` that holds a character, if there is one.
Positions count from `at_`. -/
def claim (c : Char) (low high position : Nat) : List (Char × Bool) → Option (List (Char × Bool))
  | [] => none
  | (d, taken) :: rest =>
    if low ≤ position ∧ position < high ∧ c = d ∧ !taken then some ((d, true) :: rest)
    else (claim c low high (position + 1) rest).map ((d, taken) :: ·)

/-- The characters of a word that find a match in the other, and the other with its matches marked. -/
def matchUp (range position : Nat) (other : List (Char × Bool)) :
    List Char → List Char × List (Char × Bool)
  | [] => ([], other)
  | c :: rest =>
    match claim c (position - range) (position + range + 1) 0 other with
    | some other =>
      let (found, other) := matchUp range (position + 1) other rest
      (c :: found, other)
    | none => matchUp range (position + 1) other rest

def jaro (a b : List Char) : Magnitude :=
  let f := Format.double
  if a = [] ∧ b = [] then f.ofNat 1
  else
    let range := max a.length b.length / 2 - 1
    let (left, marked) := matchUp range 0 (b.map (·, false)) a
    let right := (marked.filter (·.2)).map (·.1)
    let matched := left.length
    if matched = 0 then f.ofNat 0
    else
      let transposed := ((left.zip right).countP fun (c, d) => c ≠ d) / 2
      let share (part whole : Nat) := f.div (f.ofNat part) (f.ofNat whole)
      f.div (f.add (f.add (share matched a.length) (share matched b.length))
        (share (matched - transposed) matched)) (f.ofNat 3)

/-- Whether a magnitude lies above another one. -/
def above (a b : Magnitude) : Bool :=
  let (n, d) := a.ratio
  let (n', d') := b.ratio
  n' * d < n * d'

/-- The word most like a given one, if any is more than seven tenths like it. Of two alike the later
one is taken. -/
def mostSimilar? (word : String) (candidates : List String) : Option String :=
  let threshold := Format.double.round 7 10
  let better (best : Option (Magnitude × String)) (candidate : String) :=
    let similarity := jaro word.toList candidate.toList
    match best with
    | some (most, _) => if above most similarity then best else some (similarity, candidate)
    | none => some (similarity, candidate)
  ((candidates.filter fun c => above (jaro word.toList c.toList) threshold).foldl better none).map
    (·.2)

end FormatPreview.Text
