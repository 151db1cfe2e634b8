import FormatPreview.Proofs.Diff.Cost

/-!
The search for the middle finds it. A frontier holds the furthest point that can be had for its
edits on each diagonal, and the frontier after one edit more is made from it: a furthest point is one
edit past a furthest point of a neighbouring diagonal, and then as far on as items are shared. Two
frontiers meet as soon as their edits make up the distance of the lists, and half of it lies on each
side of where they meet.
-/
namespace FormatPreview.Diff

variable {α : Type} [DecidableEq α] {as bs : List α} {d e i j x y u v : Nat}

/-- The furthest old position on a diagonal that can be had for fewer than `d` edits. The diagonal
is given by its index in a frontier of size `d`. -/
structure Furthest (as bs : List α) (d i x : Nat) : Prop where
  point : ∃ y, x + d = y + 2 * i + 1 ∧ cost as bs x y < d
  most : ∀ x' y', x' + d = y' + 2 * i + 1 → cost as bs x' y' < d → x' ≤ x

namespace Frontier

/-- A frontier that holds the furthest point of each of its diagonals. -/
structure Complete (as bs : List α) (d : Nat) (f : Frontier) : Prop where
  size : f.size = d
  furthest : ∀ i < d, Furthest as bs d i (f.getD i 0)

theorem complete_empty (as bs : List α) : Complete as bs 0 #[] where
  size := rfl
  furthest _ none := absurd none (Nat.not_lt_zero _)

/-- An entry is the corner, an insertion after the same index, or a deletion after the one below. -/
theorem entry_cases (f : Frontier) (size : f.size = d) (inside : i ≤ d) :
    (d = 0 ∧ f.entry d i = 0) ∨ (i < d ∧ f.entry d i = f.getD i 0) ∨
      (0 < i ∧ f.entry d i = f.getD (i - 1) 0 + 1) := by
  unfold entry
  by_cases lowest : i = 0
  · subst lowest
    rw [if_pos rfl]
    rcases Nat.eq_zero_or_pos d with none | some
    · exact .inl ⟨none, by simp [Array.getD, size, none]⟩
    · exact .inr (.inl ⟨some, rfl⟩)
  · rw [if_neg lowest]
    split
    · exact .inr (.inr ⟨Nat.pos_of_ne_zero lowest, rfl⟩)
    · split
      · exact .inr (.inl ⟨by omega, rfl⟩)
      · exact .inr (.inr ⟨Nat.pos_of_ne_zero lowest, rfl⟩)

theorem le_entry_insert (f : Frontier) (inside : i < d) : f.getD i 0 ≤ f.entry d i := by
  grind [entry]

theorem lt_entry_delete (f : Frontier) (inside : 0 < i) : f.getD (i - 1) 0 < f.entry d i := by
  grind [entry]

/-- The entry is a point that can be had for `d` edits. -/
theorem entry_point {f : Frontier} (complete : f.Complete as bs d) (inside : i ≤ d) :
    f.entry d i + d = across d i (f.entry d i) + 2 * i ∧
      cost as bs (f.entry d i) (across d i (f.entry d i)) ≤ d := by
  unfold across
  rcases entry_cases f complete.size inside with ⟨none, entry⟩ | ⟨below, entry⟩ | ⟨above, entry⟩
  · subst none
    cases Nat.le_zero.1 inside
    simp [entry, cost_zero]
  · obtain ⟨y, diagonal, less⟩ := (complete.furthest i below).point
    have more := cost_insert as bs (f.getD i 0) y
    have across : f.getD i 0 + d - 2 * i = y + 1 := by omega
    rw [entry, across]
    omega
  · obtain ⟨y, diagonal, less⟩ := (complete.furthest (i - 1) (by omega)).point
    have more := cost_delete as bs (f.getD (i - 1) 0) y
    have across : f.getD (i - 1) 0 + 1 + d - 2 * i = y := by omega
    rw [entry, across]
    omega

theorem furthest_next {f : Frontier} (complete : f.Complete as bs d) (inside : i ≤ d) :
    Furthest as bs (d + 1) i (advance as bs (f.entry d i) (across d i (f.entry d i))) := by
  obtain ⟨diagonal, within⟩ := entry_point complete inside
  let x := f.entry d i
  let y := across d i x
  let count := sharedPrefix (as.drop x) (bs.drop y)
  have same : cost as bs (x + count) (y + count) = cost as bs x y := cost_advance as bs x y
  have ended : ¬ Shares as bs (x + count) (y + count) := fun shares =>
    not_shares_sharedPrefix _ _ (shares_drop_iff.2 shares)
  change x + d = y + 2 * i at diagonal
  change cost as bs x y ≤ d at within
  change Furthest as bs (d + 1) i (x + count)
  refine ⟨⟨y + count, by omega, by omega⟩, fun x' => ?_⟩
  -- Along a shortest path to the point, back to where it came onto the diagonal.
  induction x' with
  | zero => exact fun _ _ _ => Nat.zero_le _
  | succ x' ih =>
    intro y' here less
    rcases cost_cases as bs (x' + 1) y' with ⟨none, -⟩ | ⟨x'', y'', old, new, shares⟩ |
      ⟨x'', old, fewer⟩ | ⟨y'', new, fewer⟩
    · omega
    · cases old
      cases new
      rcases Nat.lt_or_eq_of_le (ih y'' (by omega) (cost_share shares ▸ less)) with before | last
      · exact before
      · have : y'' = y + count := by omega
        exact absurd (last ▸ this ▸ shares) ended
    · cases old
      have := le_cost as bs x' y'
      have far := (complete.furthest (i - 1) (by omega)).most x' y' (by omega) (by omega)
      have : f.getD (i - 1) 0 < x := lt_entry_delete f (by omega)
      omega
    · cases new
      have := le_cost as bs (x' + 1) y''
      have far := (complete.furthest i (by omega)).most (x' + 1) y'' (by omega) (by omega)
      have : f.getD i 0 ≤ x := le_entry_insert f (by omega)
      omega

theorem getD_next (as bs : List α) (f : Frontier) (inside : i ≤ d) :
    (next as bs f d).getD i 0 = advance as bs (f.entry d i) (across d i (f.entry d i)) := by
  simp [next, Array.getD, Nat.lt_succ_of_le inside]

/-- One round more makes the frontier after one edit more. -/
theorem complete_next {f : Frontier} (complete : f.Complete as bs d) :
    (next as bs f d).Complete as bs (d + 1) where
  size := by simp [next]
  furthest i inside := by
    rw [getD_next as bs f (Nat.le_of_lt_succ inside)]
    exact furthest_next complete (Nat.le_of_lt_succ inside)

end Frontier

/-! Where the two searches meet. -/

theorem reach?_eq_some_iff {f : Frontier} {diagonal : Int} {far : Nat} :
    f.reach? diagonal = some far ↔
      ∃ j < f.size, diagonal + f.size = 2 * j + 1 ∧ f.getD j 0 = far := by
  unfold Frontier.reach?
  constructor
  · intro found
    dsimp only at found
    split at found
    · cases found
    · obtain ⟨inside, rfl⟩ := Array.getElem?_eq_some_iff.1 found
      exact ⟨_, inside, by omega, by simp [Array.getD, inside]⟩
  · rintro ⟨j, inside, here, rfl⟩
    have index : ((diagonal + f.size - 1) / 2).toNat = j := by omega
    rw [if_neg (by omega), index, Array.getElem?_eq_getElem inside]
    simp [Array.getD, inside]

/-- Two entries of frontiers with `d` and `e` entries are on one diagonal of the grid. -/
def Opposite (n m d e i j : Nat) : Prop := n + d + e = m + 2 * i + 2 * j + 2

theorem Opposite.symm {n m : Nat} (opposite : Opposite n m d e i j) : Opposite n m e d j i := by
  unfold Opposite at *
  omega

theorem meeting?_eq_some {n m : Nat} {here other : Frontier} (size : other.size = e)
    (found : meeting? n m d here other = some i) :
    i ≤ d ∧ ∃ j < e, Opposite n m (d + 1) e i j ∧ n ≤ here.getD i 0 + other.getD j 0 := by
  have inside := List.mem_of_find?_eq_some found
  have meets := List.find?_some found
  simp only [List.mem_reverse, List.mem_range] at inside
  dsimp only at meets
  split at meets
  · next far reached =>
    obtain ⟨j, within, opposite, rfl⟩ := reach?_eq_some_iff.1 reached
    exact ⟨Nat.le_of_lt_succ inside, j, size ▸ within, by unfold Opposite; omega,
      by simpa using meets⟩
  · cases meets

theorem meeting?_eq_none {n m : Nat} {here other : Frontier} (size : other.size = e)
    (none : meeting? n m d here other = none) (inside : i ≤ d) (within : j < e)
    (opposite : Opposite n m (d + 1) e i j) : here.getD i 0 + other.getD j 0 < n := by
  have apart := List.find?_eq_none.1 none i (by simp [Nat.lt_succ_of_le inside])
  have reached : other.reach? ((n : Int) - m - (2 * (i : Int) - d)) = some (other.getD j 0) :=
    reach?_eq_some_iff.2 ⟨j, size ▸ within, by unfold Opposite at opposite; omega, rfl⟩
  dsimp only at apart
  rw [reached] at apart
  simpa using apart

/-- Frontiers whose edits make up the distance meet. -/
theorem exists_meeting {f g : Frontier} (front : f.Complete as bs (d + 1))
    (back : g.Complete as.reverse bs.reverse (e + 1)) (exact : distance as bs = d + e) :
    ∃ i ≤ d, ∃ j ≤ e, Opposite as.length bs.length (d + 1) (e + 1) i j ∧
      as.length ≤ f.getD i 0 + g.getD j 0 := by
  obtain ⟨x, y, oldInside, newInside, first, second⟩ :=
    exists_cut as bs (show d ≤ distance as bs by omega)
  rw [← cost_inside oldInside newInside] at first
  rw [← cost_reverse_sub oldInside newInside] at second
  have here := cost_add as bs x y
  have there := cost_add as.reverse bs.reverse (as.length - x) (bs.length - y)
  have within := le_cost as bs x y
  have within' := le_cost as.reverse bs.reverse (as.length - x) (bs.length - y)
  obtain ⟨i, index⟩ : ∃ i, x + d = y + 2 * i := ⟨(x + d - y) / 2, by omega⟩
  obtain ⟨j, index'⟩ : ∃ j, as.length - x + e = bs.length - y + 2 * j :=
    ⟨(as.length - x + e - (bs.length - y)) / 2, by omega⟩
  have far := (front.furthest i (by omega)).most x y (by omega) (by omega)
  have far' := (back.furthest j (by omega)).most _ _
    (by omega : as.length - x + (e + 1) = bs.length - y + 2 * j + 1) (by omega)
  exact ⟨i, by omega, j, by omega, by unfold Opposite; omega, by omega⟩

/-- A cut with half of the distance on each side, the larger half before it. -/
structure Cut.Middle (as bs : List α) (cut : Cut) : Prop where
  old : cut.old ≤ as.length
  new : cut.new ≤ bs.length
  first : distance (as.take cut.old) (bs.take cut.new) = (distance as bs + 1) / 2
  second : distance (as.drop cut.old) (bs.drop cut.new) = distance as bs / 2

/-- Of two paths that overlap on a diagonal, the one goes through where the other gets to. -/
theorem cost_le_of_overlap (old : u ≤ as.length) (new : v ≤ bs.length)
    (diagonal : x + u + bs.length = y + v + as.length) (overlap : as.length ≤ x + u) :
    cost as bs (as.length - u) (bs.length - v) ≤ cost as bs x y := by
  have further := cost_le_diagonal as bs (as.length - u) (bs.length - v) (x + u - as.length)
  have old : as.length - u + (x + u - as.length) = x := by omega
  have new : bs.length - v + (x + u - as.length) = y := by omega
  rwa [old, new] at further

/-- Where the frontier from the front meets the other, the cut is before the last shared run. -/
theorem middle_front {f : Frontier} (front : f.Complete as bs d) (inside : i ≤ d)
    (back : Furthest as.reverse bs.reverse d j u)
    (opposite : Opposite as.length bs.length (d + 1) d i j)
    (meet : as.length ≤ (f.next as bs d).getD i 0 + u) (least : 2 * d ≤ distance as bs + 1) :
    (⟨f.entry d i, Frontier.across d i (f.entry d i)⟩ : Cut).Middle as bs := by
  rw [Frontier.getD_next as bs f inside] at meet
  obtain ⟨diagonal, within⟩ := Frontier.entry_point front inside
  generalize f.entry d i = x at *
  generalize Frontier.across d i x = y at *
  let count := sharedPrefix (as.drop x) (bs.drop y)
  change as.length ≤ x + count + u at meet
  obtain ⟨v, diagonal', within'⟩ := back.point
  unfold Opposite at opposite
  have inside : x ≤ as.length ∧ y ≤ bs.length := by
    by_contra past
    have := distance_lt_of_past as bs (x := x) (y := y) (e := d - 1)
    have := le_cost as.reverse bs.reverse u v
    omega
  have shared := sharedPrefix_le_left (as.drop x) (bs.drop y)
  have shared' := sharedPrefix_le_right (as.drop x) (bs.drop y)
  rw [List.length_drop] at shared shared'
  have first : distance (as.take x) (bs.take y) ≤ d := by
    rwa [← cost_inside inside.1 inside.2]
  have second : distance (as.drop x) (bs.drop y) ≤ d - 1 := by
    rw [← distance_sharedPrefix, List.drop_drop, List.drop_drop,
      ← cost_reverse_sub (by omega) (by omega)]
    have further := @cost_le_of_overlap _ _ as.reverse bs.reverse u v (x + count) (y + count)
    simp only [List.length_reverse] at further
    have less := further (by omega) (by omega) (by omega) (by omega)
    exact Nat.le_sub_one_of_lt (Nat.lt_of_le_of_lt less within')
  have cut := distance_cut_le as bs x y
  exact ⟨inside.1, inside.2, by dsimp only; omega, by dsimp only; omega⟩

/-- Where the frontier from the back meets the other, the cut is where it got to. -/
theorem middle_back (front : Furthest as bs (d + 1) j x)
    (back : Furthest as.reverse bs.reverse (d + 1) i u)
    (opposite : Opposite as.length bs.length (d + 1) (d + 1) i j) (meet : as.length ≤ u + x)
    (least : 2 * d ≤ distance as bs) :
    (⟨as.length - u, bs.length - Frontier.across d i u⟩ : Cut).Middle as bs := by
  obtain ⟨y, diagonal, within⟩ := front.point
  obtain ⟨v, diagonal', within'⟩ := back.point
  unfold Opposite at opposite
  have across : Frontier.across d i u = v := by unfold Frontier.across; omega
  rw [across]
  have inside : u ≤ as.length ∧ v ≤ bs.length := by
    by_contra past
    have := distance_lt_of_past as.reverse bs.reverse (x := u) (y := v) (e := d)
    have := le_cost as bs x y
    simp only [List.length_reverse, distance_reverse] at *
    omega
  have first : distance (as.take (as.length - u)) (bs.take (bs.length - v)) ≤ d := by
    rw [← cost_inside (Nat.sub_le _ _) (Nat.sub_le _ _)]
    have less := cost_le_of_overlap inside.1 inside.2 (by omega : x + u + _ = y + v + _) (by omega)
    exact Nat.le_of_lt_succ (Nat.lt_of_le_of_lt less within)
  have second : distance (as.drop (as.length - u)) (bs.drop (bs.length - v)) ≤ d := by
    rw [← cost_reverse inside.1 inside.2]
    exact Nat.le_of_lt_succ within'
  have cut := distance_cut_le as bs (as.length - u) (bs.length - v)
  exact ⟨Nat.sub_le _ _, Nat.sub_le _ _, by dsimp only; omega, by dsimp only; omega⟩

/-- The search finds the middle in the rounds it has, whatever rounds have gone before without. -/
theorem searchCut_middle {rounds : Nat} {f g : Frontier} (front : f.Complete as bs d)
    (back : g.Complete as.reverse bs.reverse d) (least : 2 * d ≤ distance as bs + 1)
    (enough : distance as bs + 1 < 2 * (d + rounds)) :
    ∃ cut, searchCut as bs as.reverse bs.reverse f g d rounds = some cut ∧ cut.Middle as bs := by
  induction rounds generalizing f g d with
  | zero => omega
  | succ rounds ih =>
    have front' := Frontier.complete_next front
    have back' := Frontier.complete_next back
    rw [searchCut]
    dsimp only
    cases met : meeting? as.length bs.length d (f.next as bs d) g with
    | some i =>
      obtain ⟨inside, j, within, opposite, meet⟩ := meeting?_eq_some back.size met
      exact ⟨_, rfl, middle_front front inside (back.furthest j within) opposite meet least⟩
    | none =>
      have least' : 2 * d ≤ distance as bs := by
        by_contra exact
        obtain ⟨e, rfl⟩ : ∃ e, d = e + 1 := ⟨d - 1, by omega⟩
        obtain ⟨i, inside, j, within, opposite, meet⟩ := exists_meeting front' back (by omega)
        have := meeting?_eq_none back.size met inside (Nat.lt_succ_of_le within) opposite
        omega
      cases met' : meeting? as.length bs.length d (g.next as.reverse bs.reverse d)
        (f.next as bs d) with
      | some i =>
        obtain ⟨inside, j, within, opposite, meet⟩ := meeting?_eq_some front'.size met'
        exact ⟨_, rfl, middle_back (front'.furthest j within)
          (back'.furthest i (Nat.lt_succ_of_le inside)) opposite meet least'⟩
      | none =>
        refine ih front' back' ?_ (by omega)
        by_contra exact
        obtain ⟨i, inside, j, within, opposite, meet⟩ := exists_meeting front' back' (by omega)
        have := meeting?_eq_none front'.size met' within (Nat.lt_succ_of_le inside)
          opposite.symm
        omega

/-- The middle of a shortest script is always found. -/
theorem exists_middleCut (as bs : List α) :
    ∃ cut, middleCut? as bs = some cut ∧ cut.Middle as bs := by
  have := distance_add as bs
  exact searchCut_middle (Frontier.complete_empty _ _) (Frontier.complete_empty _ _)
    (Nat.zero_le _) (by omega)

end FormatPreview.Diff
