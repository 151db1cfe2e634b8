import FormatPreview.Proofs.Diff.Common
import FormatPreview.Proofs.Diff.Search
import Mathlib.Data.List.Infix

/-!
What it costs to get to a point of the grid of two lists: the edits of a shortest path there. A step
along one list costs one edit and a step over a shared item none; along a diagonal the cost never
falls. Points past the end of a list count too, at one edit for each position past it, so that a
search need not stop there.
-/
namespace FormatPreview.Diff

variable {α : Type} {as bs : List α} {x y u v : Nat}

theorem dropLast_take_sublist (as : List α) (x : Nat) :
    (as.take (x + 1)).dropLast.Sublist (as.take x) := by
  rw [List.take_add_one]
  cases as[x]? with
  | none => simpa using List.dropLast_sublist _
  | some a => simp

/-- The same item stands at a position of one list and at a position of the other. -/
def Shares (as bs : List α) (x y : Nat) : Prop := ∃ a, as[x]? = some a ∧ bs[y]? = some a

theorem Shares.symm (shares : Shares as bs x y) : Shares bs as y x := by
  obtain ⟨a, old, new⟩ := shares
  exact ⟨a, new, old⟩

theorem shares_append (some : as ≠ []) (bs : List α) : Shares as (as ++ bs) 0 0 := by
  obtain ⟨a, as, rfl⟩ := List.exists_cons_of_ne_nil some
  exact ⟨a, rfl, rfl⟩

theorem shares_drop_iff : Shares (as.drop x) (bs.drop y) u v ↔ Shares as bs (x + u) (y + v) := by
  simp [Shares]

theorem Shares.of_take (shares : Shares (as.take x) (bs.take y) u v) : Shares as bs u v := by
  obtain ⟨a, old, new⟩ := shares
  rw [List.getElem?_take] at old new
  exact ⟨a, (Option.ite_none_right_eq_some.1 old).2, (Option.ite_none_right_eq_some.1 new).2⟩

variable [DecidableEq α]

/-- The edits of a shortest path from the corner to a point. -/
def cost (as bs : List α) (x y : Nat) : Nat := x + y - 2 * commonLength (as.take x) (bs.take y)

theorem commonLength_take_le (as bs : List α) (x y : Nat) :
    commonLength (as.take x) (bs.take y) ≤ x ∧ commonLength (as.take x) (bs.take y) ≤ y := by
  have old := commonLength_le_left (as.take x) (bs.take y)
  have new := commonLength_le_right (as.take x) (bs.take y)
  rw [List.length_take] at old new
  omega

theorem cost_add (as bs : List α) (x y : Nat) :
    cost as bs x y + 2 * commonLength (as.take x) (bs.take y) = x + y := by
  have := commonLength_take_le as bs x y
  unfold cost
  omega

theorem cost_zero (as bs : List α) : cost as bs 0 0 = 0 := Nat.zero_sub _

theorem cost_inside (oldInside : x ≤ as.length) (newInside : y ≤ bs.length) :
    cost as bs x y = distance (as.take x) (bs.take y) := by
  rw [cost, distance, List.length_take_of_le oldInside, List.length_take_of_le newInside]

/-- A path changes its diagonal by one with each edit. -/
theorem le_cost (as bs : List α) (x y : Nat) : x ≤ y + cost as bs x y ∧ y ≤ x + cost as bs x y := by
  have := commonLength_take_le as bs x y
  have := cost_add as bs x y
  omega

theorem cost_delete (as bs : List α) (x y : Nat) : cost as bs (x + 1) y ≤ cost as bs x y + 1 := by
  have := commonLength_mono (List.take_sublist_take_left (l := as) (Nat.le_add_right x 1))
    (List.Sublist.refl (bs.take y))
  have := cost_add as bs x y
  have := cost_add as bs (x + 1) y
  omega

theorem cost_insert (as bs : List α) (x y : Nat) : cost as bs x (y + 1) ≤ cost as bs x y + 1 := by
  have := commonLength_mono (List.Sublist.refl (as.take x))
    (List.take_sublist_take_left (l := bs) (Nat.le_add_right y 1))
  have := cost_add as bs x y
  have := cost_add as bs x (y + 1)
  omega

theorem cost_share (shares : Shares as bs x y) : cost as bs (x + 1) (y + 1) = cost as bs x y := by
  obtain ⟨a, old, new⟩ := shares
  have longer := commonLength_suffix [a] (as.take x) (bs.take y)
  have here := cost_add as bs x y
  have next := cost_add as bs (x + 1) (y + 1)
  rw [List.take_add_one, List.take_add_one, old, new] at next
  simp only [Option.toList_some, List.length_singleton] at *
  omega

/-- Without a shared item the last step to a point was along one of the lists. -/
theorem cost_pred (apart : ¬ Shares as bs x y) :
    cost as bs x (y + 1) + 1 ≤ cost as bs (x + 1) (y + 1) ∨
      cost as bs (x + 1) y + 1 ≤ cost as bs (x + 1) (y + 1) := by
  have deleted := cost_add as bs x (y + 1)
  have inserted := cost_add as bs (x + 1) y
  have here := cost_add as bs (x + 1) (y + 1)
  cases old : as[x]? with
  | none =>
    rw [List.take_add_one (l := as), old] at here
    simp only [Option.toList_none, List.append_nil] at here
    omega
  | some a =>
    cases new : bs[y]? with
    | none =>
      rw [List.take_add_one (l := bs), new] at here
      simp only [Option.toList_none, List.append_nil] at here
      omega
    | some b =>
      have other : a ≠ b := fun same => apart ⟨a, old, same ▸ new⟩
      have last := commonLength_cons_of_ne other (as.take x).reverse (bs.take y).reverse
      have turned (xs ys : List α) := commonLength_reverse xs ys
      rw [List.take_add_one (l := as), List.take_add_one (l := bs), old, new] at here
      rw [List.take_add_one (l := as), old] at inserted
      rw [List.take_add_one (l := bs), new] at deleted
      rw [← turned] at here inserted deleted
      simp only [Option.toList_some, List.reverse_append, List.reverse_singleton,
        List.singleton_append] at here inserted deleted
      omega

/-- How a shortest path gets to a point: it is the corner, or it comes over a shared item, or the
last edit is a deletion or an insertion. -/
theorem cost_cases (as bs : List α) (x y : Nat) :
    (x = 0 ∧ y = 0) ∨
      (∃ x' y', x = x' + 1 ∧ y = y' + 1 ∧ Shares as bs x' y') ∨
      (∃ x', x = x' + 1 ∧ cost as bs x' y < cost as bs x y) ∨
      ∃ y', y = y' + 1 ∧ cost as bs x y' < cost as bs x y := by
  cases x with
  | zero =>
    cases y with
    | zero => exact .inl ⟨rfl, rfl⟩
    | succ y =>
      have := cost_add as bs 0 (y + 1)
      have := cost_add as bs 0 y
      have := commonLength_take_le as bs 0 (y + 1)
      exact .inr (.inr (.inr ⟨y, rfl, by omega⟩))
  | succ x =>
    cases y with
    | zero =>
      have := cost_add as bs (x + 1) 0
      have := cost_add as bs x 0
      have := commonLength_take_le as bs (x + 1) 0
      exact .inr (.inr (.inl ⟨x, rfl, by omega⟩))
    | succ y =>
      by_cases shares : Shares as bs x y
      · exact .inr (.inl ⟨x, y, rfl, rfl, shares⟩)
      · rcases cost_pred shares with less | less
        · exact .inr (.inr (.inl ⟨x, rfl, less⟩))
        · exact .inr (.inr (.inr ⟨y, rfl, less⟩))

/-- Along a diagonal the cost never falls. -/
theorem cost_le_diagonal (as bs : List α) (x y steps : Nat) :
    cost as bs x y ≤ cost as bs (x + steps) (y + steps) := by
  induction steps with
  | zero => exact Nat.le_refl _
  | succ steps ih =>
    have less := commonLength_le_dropLast (as.take (x + steps + 1)) (bs.take (y + steps + 1))
    have part := commonLength_mono (dropLast_take_sublist as (x + steps))
      (dropLast_take_sublist bs (y + steps))
    have here := cost_add as bs (x + steps) (y + steps)
    have next := cost_add as bs (x + steps + 1) (y + steps + 1)
    rw [← Nat.add_assoc, ← Nat.add_assoc]
    omega

theorem sharedPrefix_shares {k : Nat} (as bs : List α) (inside : k < sharedPrefix as bs) :
    Shares as bs k k := by
  fun_induction sharedPrefix as bs generalizing k with
  | case1 as b bs ih =>
    cases k with
    | zero => exact ⟨b, rfl, rfl⟩
    | succ k => exact ih (Nat.lt_of_succ_lt_succ inside)
  | case2 | case3 => exact absurd inside (Nat.not_lt_zero _)

theorem not_shares_sharedPrefix (as bs : List α) :
    ¬ Shares as bs (sharedPrefix as bs) (sharedPrefix as bs) := by
  rintro ⟨a, old, new⟩
  fun_induction sharedPrefix as bs with
  | case1 b as bs ih => exact ih old new
  | case2 a' as b bs apart =>
    exact apart (Option.some.inj (old.trans new.symm))
  | case3 as bs none =>
    cases as with
    | nil => cases old
    | cons a' as =>
      cases bs with
      | nil => cases new
      | cons b bs => exact none a' as b bs rfl rfl

theorem cost_shares {count : Nat} (shares : ∀ k < count, Shares as bs (x + k) (y + k)) :
    cost as bs (x + count) (y + count) = cost as bs x y := by
  induction count with
  | zero => rfl
  | succ count ih =>
    rw [← ih fun k inside => shares k (Nat.lt_succ_of_lt inside)]
    exact cost_share (shares count (Nat.lt_succ_self _))

theorem cost_advance (as bs : List α) (x y : Nat) :
    cost as bs (x + sharedPrefix (as.drop x) (bs.drop y))
      (y + sharedPrefix (as.drop x) (bs.drop y)) = cost as bs x y :=
  cost_shares fun _ inside => shares_drop_iff.1 (sharedPrefix_shares _ _ inside)

/-- What is left of two lists after a shared run is as far apart as before it. -/
theorem distance_sharedPrefix (as bs : List α) :
    distance (as.drop (sharedPrefix as bs)) (bs.drop (sharedPrefix as bs)) = distance as bs := by
  have whole := distance_prefix (as.take (sharedPrefix as bs)) (as.drop (sharedPrefix as bs))
    (bs.drop (sharedPrefix as bs))
  rw [List.take_append_drop, take_sharedPrefix, List.take_append_drop] at whole
  exact whole.symm

theorem cost_reverse_sub (oldInside : x ≤ as.length) (newInside : y ≤ bs.length) :
    cost as.reverse bs.reverse (as.length - x) (bs.length - y) =
      distance (as.drop x) (bs.drop y) := by
  rw [cost_inside (by simp) (by simp), List.take_reverse, List.take_reverse, distance_reverse,
    Nat.sub_sub_self oldInside, Nat.sub_sub_self newInside]

theorem cost_reverse (oldInside : x ≤ as.length) (newInside : y ≤ bs.length) :
    cost as.reverse bs.reverse x y =
      distance (as.drop (as.length - x)) (bs.drop (bs.length - y)) := by
  rw [cost_inside (by simpa using oldInside) (by simpa using newInside), List.take_reverse,
    List.take_reverse, distance_reverse]

/-- From a point past an end the far corner cannot be reached without further edits than those that
lead to its diagonal. -/
theorem distance_lt_of_past (as bs : List α) {e : Nat} (past : as.length < x ∨ bs.length < y)
    (back : x + bs.length ≤ y + as.length + e) (back' : y + as.length ≤ x + bs.length + e) :
    distance as bs < cost as bs x y + e := by
  have part := commonLength_mono (List.take_sublist x as) (List.take_sublist y bs)
  have := cost_add as bs x y
  have := distance_add as bs
  omega

end FormatPreview.Diff
