import FormatPreview.Diff.Script

/-!
The script with a fresh frontier for each round of a search. The frontier after `d` edits holds, for
the diagonals `-d`, `2 - d`, … `d`, how far along the old list a path with `d` edits can get there,
and nothing else. It is what the work arrays of the program hold after the round.
-/
namespace FormatPreview.Diff

variable {α : Type} [DecidableEq α]

/-- Old positions reached, one for each diagonal, the lowest diagonal first. -/
abbrev Frontier := Array Nat

namespace Frontier

/-- The position reached on a diagonal, if the frontier covers it: a frontier of `d + 1` entries
covers the diagonals from `-d` to `d` of the parity of `d`. -/
def reach? (f : Frontier) (diagonal : Int) : Option Nat :=
  let twice : Int := diagonal + f.size - 1
  if twice < 0 ∨ twice % 2 ≠ 0 then none else f[(twice / 2).toNat]?

/-- Where the last run of shared items begins on the diagonal with index `i` when there are `d`
edits: one insertion after the next higher diagonal, or one deletion after the next lower, whichever
is further on. -/
def entry (f : Frontier) (d i : Nat) : Nat :=
  if i = 0 then f.getD 0 0
  else if i = d then f.getD (i - 1) 0 + 1
  else if f.getD (i - 1) 0 < f.getD i 0 then f.getD i 0
  else f.getD (i - 1) 0 + 1

/-- The new position on the diagonal with index `i` of `d` edits. -/
def across (d i old : Nat) : Nat := old + d - 2 * i

/-- The frontier after `d` edits from the one after `d - 1`. -/
def next (as bs : List α) (f : Frontier) (d : Nat) : Frontier :=
  (Array.range (d + 1)).map fun i =>
    let old := f.entry d i
    advance as bs old (across d i old)

end Frontier

/-- The highest diagonal on which a frontier after `d` edits meets the frontier from the other end,
as its index. -/
def meeting? (oldLength newLength d : Nat) (here other : Frontier) : Option Nat :=
  (List.range (d + 1)).reverse.find? fun i =>
    let diagonal : Int := 2 * (i : Int) - d
    match other.reach? ((oldLength : Int) - newLength - diagonal) with
    | some far => oldLength ≤ here.getD i 0 + far
    | none => false

/-- The search with frontiers after `d - 1` edits, for at most so many further rounds. -/
def searchCut (as bs ras rbs : List α) (forward backward : Frontier) (d : Nat) :
    Nat → Option Cut
  | 0 => none
  | rounds + 1 =>
    let n := as.length
    let m := bs.length
    let forward' := Frontier.next as bs forward d
    match meeting? n m d forward' backward with
    | some i =>
      let old := forward.entry d i
      some ⟨old, Frontier.across d i old⟩
    | none =>
      let backward' := Frontier.next ras rbs backward d
      match meeting? n m d backward' forward' with
      | some i =>
        let old := backward'.getD i 0
        some ⟨n - old, m - Frontier.across d i old⟩
      | none => searchCut as bs ras rbs forward' backward' (d + 1) rounds

def middleCut? (as bs : List α) : Option Cut :=
  searchCut as bs as.reverse bs.reverse #[] #[] 0 ((as.length + bs.length + 1) / 2 + 1)

/-- The script of two lists that stand at the given positions of longer ones. -/
def scriptAt (as bs : List α) (old new : Nat) : List Edit :=
  let front := sharedPrefix as bs
  let as' := as.drop front
  let bs' := bs.drop front
  let back := sharedSuffix as' bs'
  let n := as'.length - back
  let m := bs'.length - back
  let middle :=
    if n = 0 ∧ m = 0 then []
    else if m = 0 then [.delete (old + front) n (new + front)]
    else if n = 0 then [.insert (old + front) (new + front) m]
    else
      let as'' := as'.take n
      let bs'' := bs'.take m
      match middleCut? as'' bs'' with
      | some cut =>
        if _proper : cut.proper n m then
          scriptAt (as''.take cut.old) (bs''.take cut.new) (old + front) (new + front) ++
            scriptAt (as''.drop cut.old) (bs''.drop cut.new)
              (old + front + cut.old) (new + front + cut.new)
        else [.delete (old + front) n (new + front), .insert (old + front) (new + front) m]
      | none => [.delete (old + front) n (new + front), .insert (old + front) (new + front) m]
  keepRun old new front ++ middle ++ keepRun (old + front + n) (new + front + m) back
termination_by as.length + bs.length
decreasing_by
  all_goals
    simp only [Cut.proper, Bool.and_eq_true, decide_eq_true_eq] at _proper
    simp only [List.length_take, List.length_drop]
    have := sharedPrefix_le_left as bs
    have := sharedPrefix_le_right as bs
    simp only [as', bs', n, m, List.length_drop] at *
    omega

end FormatPreview.Diff
