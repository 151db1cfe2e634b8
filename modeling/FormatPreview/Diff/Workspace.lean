import FormatPreview.Diff.Edit

/-!
The search for the middle of a shortest edit script. A path goes through the grid of two lists from
corner to corner; diagonal `k` holds the points whose old position exceeds the new one by `k`. A round
with `d` edits finds, for the diagonals `-d`, `2 - d`, … `d`, how far along the old list a path with
`d` edits can get there. One search runs from the front and one from the back, a round at a time in
turn, until the two meet on a diagonal that both have reached.

What they reach is kept in two work arrays, with a cell for each diagonal. The arrays are there for
all the searches of a script and are not cleared: a search sets the cell of the diagonal one and finds
the others as the searches before it have left them.
-/
namespace FormatPreview.Diff

/-- A point of the grid at which a script is cut in two. -/
structure Cut where
  old : Nat
  new : Nat

/-- A work array: the old positions reached, by diagonal. Cells that are not there yet are zero. -/
structure Cells where
  upper : Array Nat
  /-- The cells of the diagonals -1, -2, … -/
  lower : Array Nat

namespace Cells

def zero : Cells := ⟨#[], #[]⟩

/-- An array with a value in a cell, longer if need be. -/
def put (a : Array Nat) (n x : Nat) : Array Nat :=
  if n < a.size then a.setIfInBounds n x else (a ++ Array.replicate (n - a.size) 0).push x

def get (v : Cells) : Int → Nat
  | .ofNat n => v.upper.getD n 0
  | .negSucc n => v.lower.getD n 0

def set (v : Cells) (k : Int) (x : Nat) : Cells :=
  match k with
  | .ofNat n => { v with upper := put v.upper n x }
  | .negSucc n => { v with lower := put v.lower n x }

theorem getD_put (a : Array Nat) (n x m : Nat) :
    (put a n x).getD m 0 = if m = n then x else a.getD m 0 := by
  simp only [Array.getD_eq_getD_getElem?]
  unfold put
  split
  · next inside =>
    rw [Array.getElem?_setIfInBounds]
    by_cases same : m = n
    · rw [if_pos same.symm, if_pos inside, if_pos same, Option.getD_some]
    · rw [if_neg (Ne.symm same), if_neg same]
  · next beyond =>
    have last : a.size + (n - a.size) = n := by omega
    simp only [Array.getElem?_push, Array.getElem?_append, Array.getElem?_replicate,
      Array.size_append, Array.size_replicate, last]
    by_cases same : m = n
    · rw [if_pos same, if_pos same, Option.getD_some]
    · rw [if_neg same, if_neg same]
      split
      · rfl
      · next gap =>
        rw [Array.getElem?_eq_none (Nat.le_of_not_lt gap)]
        split <;> rfl

@[simp] theorem get_set (v : Cells) (k i : Int) (x : Nat) :
    (v.set k x).get i = if i = k then x else v.get i := by
  cases k <;> cases i <;>
    simp only [get, set, getD_put, Int.ofNat.injEq, Int.negSucc.injEq, reduceCtorEq, if_false]

end Cells

structure Workspace where
  front : Cells
  back : Cells

variable {α : Type} [DecidableEq α]

/-- The old position after the shared items that follow a point. -/
def advance (as bs : List α) (old new : Nat) : Nat :=
  old + sharedPrefix (as.drop old) (bs.drop new)

namespace Workspace

/-- Where the last run of shared items begins on a diagonal when there are `d` edits. -/
def entry (v : Cells) (d : Nat) (k : Int) : Nat :=
  if k = -d ∨ (k ≠ d ∧ v.get (k - 1) < v.get (k + 1)) then v.get (k + 1) else v.get (k - 1) + 1

/-- A search from one end. It meets the other on a diagonal of the right parity that is less than
`reach` away from the corner of the other. -/
structure Sweep (α : Type) where
  old : List α
  new : List α
  other : Cells
  odd : Bool
  reach : Nat

namespace Sweep

def across (s : Sweep α) : Int := (s.old.length : Int) - s.new.length

def meets (s : Sweep α) (k : Int) (far : Nat) : Bool :=
  decide (s.across % 2 = 1) = s.odd ∧ (k - s.across).natAbs < s.reach ∧
    s.old.length ≤ far + s.other.get (s.across - k)

/-- A round with `d` edits over the diagonals below the index `i`, the highest first, up to a diagonal
where the searches meet: its number and the entry there. -/
def run (s : Sweep α) (d : Nat) : Nat → Cells → Option (Int × Nat) × Cells
  | 0, v => (none, v)
  | i + 1, v =>
    let k : Int := 2 * (i : Int) - d
    let x := entry v d k
    let far := advance s.old s.new x (x - k).toNat
    if s.meets k far then (some (k, x), v.set k far) else s.run d i (v.set k far)

end Sweep

/-- The rounds from `d` edits on, so many at most. -/
def search (as bs ras rbs : List α) (d : Nat) : Nat → Workspace → Option Cut × Workspace
  | 0, w => (none, w)
  | rounds + 1, w =>
    match Sweep.run ⟨as, bs, w.back, true, d⟩ d (d + 1) w.front with
    | (some (k, x), front) => (some ⟨x, (x - k).toNat⟩, ⟨front, w.back⟩)
    | (none, front) =>
      match Sweep.run ⟨ras, rbs, front, false, d + 1⟩ d (d + 1) w.back with
      | (some (k, _), back) =>
        (some ⟨as.length - back.get k, bs.length - (back.get k - k).toNat⟩, ⟨front, back⟩)
      | (none, back) => search as bs ras rbs (d + 1) rounds ⟨front, back⟩

def middleCut? (as bs : List α) (w : Workspace) : Option Cut × Workspace :=
  search as bs as.reverse bs.reverse 0 ((as.length + bs.length + 1) / 2 + 1)
    ⟨w.front.set 1 0, w.back.set 1 0⟩

end Workspace

end FormatPreview.Diff
