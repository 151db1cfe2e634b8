import FormatPreview.Diff.Workspace

/-!
The script of two lists by divide and conquer: what they share at the front and at the back is kept,
and what is left in between is cut at the middle of a shortest script. The searches for the middles
hand one pair of work arrays on to the next.
-/
namespace FormatPreview.Diff

variable {α : Type} [DecidableEq α]

/-- An edit that keeps a run, unless the run is empty. -/
def keepRun (old new length : Nat) : List Edit :=
  if length = 0 then [] else [.keep old new length]

/-- Whether both parts of a cut are smaller than the whole. -/
def Cut.proper (cut : Cut) (n m : Nat) : Bool :=
  cut.old ≤ n && cut.new ≤ m && 0 < cut.old + cut.new && cut.old + cut.new < n + m

namespace Workspace

/-- The script of two lists that stand at the given positions of longer ones, and the arrays as they
are left. -/
def scriptAt (as bs : List α) (old new : Nat) (w : Workspace) : List Edit × Workspace :=
  let front := sharedPrefix as bs
  let as' := as.drop front
  let bs' := bs.drop front
  let back := sharedSuffix as' bs'
  let n := as'.length - back
  let m := bs'.length - back
  let middle : List Edit × Workspace :=
    if n = 0 ∧ m = 0 then ([], w)
    else if m = 0 then ([.delete (old + front) n (new + front)], w)
    else if n = 0 then ([.insert (old + front) (new + front) m], w)
    else
      let as'' := as'.take n
      let bs'' := bs'.take m
      let (cut?, w) := middleCut? as'' bs'' w
      match cut? with
      | some cut =>
        if _proper : cut.proper n m then
          let (first, w) :=
            scriptAt (as''.take cut.old) (bs''.take cut.new) (old + front) (new + front) w
          let (second, w) := scriptAt (as''.drop cut.old) (bs''.drop cut.new)
            (old + front + cut.old) (new + front + cut.new) w
          (first ++ second, w)
        else ([.delete (old + front) n (new + front), .insert (old + front) (new + front) m], w)
      | none => ([.delete (old + front) n (new + front), .insert (old + front) (new + front) m], w)
  (keepRun old new front ++ middle.1 ++ keepRun (old + front + n) (new + front + m) back, middle.2)
termination_by as.length + bs.length
decreasing_by
  all_goals
    simp only [Cut.proper, Bool.and_eq_true, decide_eq_true_eq] at _proper
    simp only [List.length_take, List.length_drop]
    have := sharedPrefix_le_left as bs
    have := sharedPrefix_le_right as bs
    simp only [as', bs', n, m, List.length_drop] at *
    omega

end Workspace

/-- The script from arrays that are zero. -/
def script (as bs : List α) : List Edit := (Workspace.scriptAt as bs 0 0 ⟨.zero, .zero⟩).1

end FormatPreview.Diff
