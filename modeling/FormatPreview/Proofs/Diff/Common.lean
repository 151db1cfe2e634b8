import Mathlib.Data.List.Basic
import FormatPreview.Diff.Edit

/-!
What two lists have in common. A common list stands in both with its items in order; the distance of
two lists is the number of items that are left over beside a longest common one. Cutting both lists
in two never brings them nearer, and turning both round leaves them as far apart.
-/
namespace FormatPreview.Diff

variable {α : Type} {as as' bs bs' cs : List α} {a b : α}

/-- A list that stands in both of two lists, its items in order. -/
structure Common (cs as bs : List α) : Prop where
  old : cs.Sublist as
  new : cs.Sublist bs

namespace Common

theorem mono (common : Common cs as bs) (old : as.Sublist as') (new : bs.Sublist bs') :
    Common cs as' bs' :=
  ⟨common.old.trans old, common.new.trans new⟩

theorem reverse (common : Common cs as bs) : Common cs.reverse as.reverse bs.reverse :=
  ⟨common.old.reverse, common.new.reverse⟩

theorem append {cs' : List α} (first : Common cs as bs) (second : Common cs' as' bs') :
    Common (cs ++ cs') (as ++ as') (bs ++ bs') :=
  ⟨first.old.append second.old, first.new.append second.new⟩

theorem tail (common : Common cs as bs) : Common cs.tail as.tail bs.tail :=
  ⟨common.old.tail, common.new.tail⟩

/-- Two first items that differ do not both stand in a common list. -/
theorem cases_of_ne (common : Common cs (a :: as) (b :: bs)) (apart : a ≠ b) :
    Common cs (a :: as) bs ∨ Common cs as (b :: bs) := by
  cases cs with
  | nil => exact .inl ⟨List.nil_sublist _, List.nil_sublist _⟩
  | cons c cs =>
    rcases List.cons_sublist_cons'.1 common.old with inner | ⟨rfl, _⟩
    · exact .inr ⟨inner, common.new⟩
    · rcases List.cons_sublist_cons'.1 common.new with inner | ⟨rfl, _⟩
      · exact .inl ⟨common.old, inner⟩
      · exact absurd rfl apart

end Common

variable [DecidableEq α]

/-- The length of a longest common list. -/
def commonLength : List α → List α → Nat
  | a :: as, b :: bs =>
    if a = b then commonLength as bs + 1
    else max (commonLength (a :: as) bs) (commonLength as (b :: bs))
  | _, _ => 0
termination_by as bs => as.length + bs.length

theorem commonLength_nil (as : List α) : commonLength as [] = 0 := by
  cases as <;> simp [commonLength]

theorem nil_commonLength (bs : List α) : commonLength [] bs = 0 := by
  simp [commonLength]

theorem commonLength_cons_self (a : α) (as bs : List α) :
    commonLength (a :: as) (a :: bs) = commonLength as bs + 1 := by
  rw [commonLength, if_pos rfl]

theorem commonLength_cons_of_ne (apart : a ≠ b) (as bs : List α) :
    commonLength (a :: as) (b :: bs) =
      max (commonLength (a :: as) bs) (commonLength as (b :: bs)) := by
  rw [commonLength, if_neg apart]

theorem Common.length_le (common : Common cs as bs) : cs.length ≤ commonLength as bs := by
  fun_induction commonLength as bs generalizing cs with
  | case1 as a bs ih =>
    have := ih common.tail
    rw [List.length_tail] at this
    omega
  | case2 a as b bs apart ih ih' =>
    rcases common.cases_of_ne apart with here | here
    · exact Nat.le_trans (ih here) (Nat.le_max_left _ _)
    · exact Nat.le_trans (ih' here) (Nat.le_max_right _ _)
  | case3 as bs none =>
    cases as with
    | nil => simpa using common.old.length_le
    | cons a as =>
      cases bs with
      | nil => simpa using common.new.length_le
      | cons b bs => exact absurd rfl (none a as b bs rfl)

theorem exists_common (as bs : List α) :
    ∃ cs, Common cs as bs ∧ cs.length = commonLength as bs := by
  fun_induction commonLength as bs with
  | case1 as a bs ih =>
    obtain ⟨cs, common, length⟩ := ih
    exact ⟨a :: cs, ⟨common.old.cons_cons a, common.new.cons_cons a⟩, by simp [length]⟩
  | case2 a as b bs apart ih ih' =>
    obtain ⟨cs, common, length⟩ := ih
    obtain ⟨cs', common', length'⟩ := ih'
    rcases Nat.le_total (commonLength (a :: as) bs) (commonLength as (b :: bs)) with less | less
    · exact ⟨cs', ⟨common'.old.cons a, common'.new⟩, by rw [length', Nat.max_eq_right less]⟩
    · exact ⟨cs, ⟨common.old, common.new.cons b⟩, by rw [length, Nat.max_eq_left less]⟩
  | case3 as bs => exact ⟨[], ⟨List.nil_sublist _, List.nil_sublist _⟩, rfl⟩

theorem commonLength_mono (old : as.Sublist as') (new : bs.Sublist bs') :
    commonLength as bs ≤ commonLength as' bs' := by
  obtain ⟨cs, common, length⟩ := exists_common as bs
  exact length ▸ (common.mono old new).length_le

theorem commonLength_le_left (as bs : List α) : commonLength as bs ≤ as.length := by
  obtain ⟨cs, common, length⟩ := exists_common as bs
  exact length ▸ common.old.length_le

theorem commonLength_le_right (as bs : List α) : commonLength as bs ≤ bs.length := by
  obtain ⟨cs, common, length⟩ := exists_common as bs
  exact length ▸ common.new.length_le

theorem commonLength_append_le (as as' bs bs' : List α) :
    commonLength as bs + commonLength as' bs' ≤ commonLength (as ++ as') (bs ++ bs') := by
  obtain ⟨cs, common, length⟩ := exists_common as bs
  obtain ⟨cs', common', length'⟩ := exists_common as' bs'
  rw [← length, ← length', ← List.length_append]
  exact (common.append common').length_le

theorem commonLength_reverse (as bs : List α) :
    commonLength as.reverse bs.reverse = commonLength as bs := by
  have turned (as bs : List α) : commonLength as bs ≤ commonLength as.reverse bs.reverse := by
    obtain ⟨cs, common, length⟩ := exists_common as bs
    rw [← length, ← List.length_reverse]
    exact common.reverse.length_le
  have back := turned as.reverse bs.reverse
  rw [List.reverse_reverse, List.reverse_reverse] at back
  exact Nat.le_antisymm back (turned as bs)

/-- An item less on each side makes a longest common list shorter by one at most. -/
theorem commonLength_le_tail (as bs : List α) :
    commonLength as bs ≤ commonLength as.tail bs.tail + 1 := by
  obtain ⟨cs, common, length⟩ := exists_common as bs
  have := common.tail.length_le
  rw [List.length_tail] at this
  omega

theorem commonLength_le_dropLast (as bs : List α) :
    commonLength as bs ≤ commonLength as.dropLast bs.dropLast + 1 := by
  have less := commonLength_le_tail as.reverse bs.reverse
  rwa [commonLength_reverse, List.tail_reverse, List.tail_reverse, commonLength_reverse] at less

theorem commonLength_prefix (cs as bs : List α) :
    commonLength (cs ++ as) (cs ++ bs) = cs.length + commonLength as bs := by
  induction cs with
  | nil => simp
  | cons c cs ih =>
    rw [List.cons_append, List.cons_append, commonLength_cons_self, ih, List.length_cons]
    omega

theorem commonLength_suffix (cs as bs : List α) :
    commonLength (as ++ cs) (bs ++ cs) = commonLength as bs + cs.length := by
  rw [← commonLength_reverse, List.reverse_append, List.reverse_append, commonLength_prefix,
    commonLength_reverse, List.length_reverse, Nat.add_comm]

/-- How many items of both lists are left over beside a longest common list. -/
def distance (as bs : List α) : Nat := as.length + bs.length - 2 * commonLength as bs

theorem distance_add (as bs : List α) :
    distance as bs + 2 * commonLength as bs = as.length + bs.length := by
  have := commonLength_le_left as bs
  have := commonLength_le_right as bs
  unfold distance
  omega

theorem distance_reverse (as bs : List α) : distance as.reverse bs.reverse = distance as bs := by
  simp [distance, commonLength_reverse]

theorem distance_append_le (as as' bs bs' : List α) :
    distance (as ++ as') (bs ++ bs') ≤ distance as bs + distance as' bs' := by
  have := commonLength_append_le as as' bs bs'
  have := distance_add as bs
  have := distance_add as' bs'
  have := distance_add (as ++ as') (bs ++ bs')
  simp only [List.length_append] at *
  omega

theorem distance_prefix (cs as bs : List α) :
    distance (cs ++ as) (cs ++ bs) = distance as bs := by
  have := commonLength_prefix cs as bs
  have := distance_add as bs
  have := distance_add (cs ++ as) (cs ++ bs)
  simp only [List.length_append] at *
  omega

theorem distance_cut_le (as bs : List α) (p q : Nat) :
    distance as bs ≤
      distance (as.take p) (bs.take q) + distance (as.drop p) (bs.drop q) := by
  have cut := distance_append_le (as.take p) (as.drop p) (bs.take q) (bs.drop q)
  rwa [List.take_append_drop, List.take_append_drop] at cut

theorem distance_nil (as : List α) : distance as [] = as.length := by
  simp [distance, commonLength_nil]

theorem nil_distance (bs : List α) : distance [] bs = bs.length := by
  simp [distance, nil_commonLength]

theorem distance_cons_self (a : α) (as bs : List α) :
    distance (a :: as) (a :: bs) = distance as bs :=
  distance_prefix [a] as bs

theorem distance_cons_le (a : α) (as bs : List α) : distance (a :: as) bs ≤ distance as bs + 1 := by
  simpa [distance_nil, Nat.add_comm] using distance_append_le [a] as [] bs

theorem distance_le_cons (b : α) (as bs : List α) : distance as (b :: bs) ≤ distance as bs + 1 := by
  simpa [nil_distance, Nat.add_comm] using distance_append_le [] as [b] bs

/-- Of two first items that differ one is left over. -/
theorem distance_cons_of_ne (apart : a ≠ b) (as bs : List α) :
    distance (a :: as) (b :: bs) = distance (a :: as) bs + 1 ∨
      distance (a :: as) (b :: bs) = distance as (b :: bs) + 1 := by
  have here := distance_add (a :: as) (b :: bs)
  have inserted := distance_add (a :: as) bs
  have deleted := distance_add as (b :: bs)
  rw [commonLength_cons_of_ne apart] at here
  simp only [List.length_cons] at *
  omega

/-- Two lists can be cut so that any part of their distance is before the cut, and the rest after. -/
theorem exists_cut (as bs : List α) {d : Nat} (less : d ≤ distance as bs) :
    ∃ p q, p ≤ as.length ∧ q ≤ bs.length ∧ distance (as.take p) (bs.take q) = d ∧
      distance (as.drop p) (bs.drop q) + d = distance as bs := by
  fun_induction commonLength as bs generalizing d with
  | case1 as a bs ih =>
    rw [distance_cons_self] at less
    obtain ⟨p, q, oldInside, newInside, first, second⟩ := ih less
    refine ⟨p + 1, q + 1, Nat.succ_le_succ oldInside, Nat.succ_le_succ newInside, ?_, ?_⟩
    · rw [List.take_succ_cons, List.take_succ_cons, distance_cons_self, first]
    · rw [List.drop_succ_cons, List.drop_succ_cons, distance_cons_self, second]
  | case2 a as b bs apart ih ih' =>
    cases d with
    | zero => exact ⟨0, 0, Nat.zero_le _, Nat.zero_le _, by simp [distance_nil], by simp⟩
    | succ d =>
      rcases distance_cons_of_ne apart as bs with whole | whole
      · obtain ⟨p, q, oldInside, newInside, first, second⟩ := ih (d := d) (by omega)
        have cut := distance_cut_le (a :: as) (b :: bs) p (q + 1)
        have more := distance_le_cons b ((a :: as).take p) (bs.take q)
        rw [List.take_succ_cons, List.drop_succ_cons] at cut
        refine ⟨p, q + 1, oldInside, Nat.succ_le_succ newInside, ?_, ?_⟩
        · rw [List.take_succ_cons]
          omega
        · rw [List.drop_succ_cons]
          omega
      · obtain ⟨p, q, oldInside, newInside, first, second⟩ := ih' (d := d) (by omega)
        have cut := distance_cut_le (a :: as) (b :: bs) (p + 1) q
        have more := distance_cons_le a (as.take p) ((b :: bs).take q)
        rw [List.take_succ_cons, List.drop_succ_cons] at cut
        refine ⟨p + 1, q, Nat.succ_le_succ oldInside, newInside, ?_, ?_⟩
        · rw [List.take_succ_cons]
          omega
        · rw [List.drop_succ_cons]
          omega
  | case3 as bs none =>
    cases as with
    | nil =>
      rw [nil_distance] at less
      exact ⟨0, d, Nat.zero_le _, less, by simp [nil_distance, less], by simp [nil_distance, less]⟩
    | cons a as =>
      cases bs with
      | nil =>
        rw [distance_nil] at less
        exact ⟨d, 0, less, Nat.zero_le _, by
          rw [List.take_nil, distance_nil, List.length_take_of_le less],
          by simpa [distance_nil] using Nat.sub_add_cancel less⟩
      | cons b bs => exact absurd rfl (none a as b bs rfl)

end FormatPreview.Diff
