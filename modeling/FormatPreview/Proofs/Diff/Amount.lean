import FormatPreview.Proofs.Diff.Block
import Mathlib

/-!
How many items a script keeps. The script by divide and conquer keeps as many as two lists can have
in common: shared ends are in some longest common list, and the middle of a shortest script loses
nothing. Sliding edits changes neither what is deleted nor, with that, what is kept.
-/
namespace FormatPreview.Diff

def Edit.length : Edit → Nat
  | .keep _ _ length => length
  | .delete _ length _ => length
  | .insert _ _ length => length

/-- The number of items that the edits of a kind run over. -/
def amount (kind : Edit.Kind) (edits : List Edit) : Nat :=
  ((edits.filter (·.kind = kind)).map Edit.length).sum

section Amount

variable {kind : Edit.Kind} {edits : List Edit}

@[simp] theorem amount_nil (kind : Edit.Kind) : amount kind [] = 0 := rfl

@[simp] theorem amount_cons (kind : Edit.Kind) (e : Edit) (edits : List Edit) :
    amount kind (e :: edits) = (if e.kind = kind then e.length else 0) + amount kind edits := by
  by_cases same : e.kind = kind <;> simp [amount, same]

@[simp] theorem amount_append (kind : Edit.Kind) (first second : List Edit) :
    amount kind (first ++ second) = amount kind first + amount kind second := by
  simp [amount]

@[simp] theorem amount_reverse (kind : Edit.Kind) (edits : List Edit) :
    amount kind edits.reverse = amount kind edits := by
  simp [amount, List.filter_reverse, List.sum_reverse]

@[simp] theorem amount_keepRun (kind : Edit.Kind) (old new length : Nat) :
    amount kind (keepRun old new length) = if kind = .kept then length else 0 := by
  unfold keepRun
  by_cases none : length = 0 <;> simp [none, Edit.kind, Edit.length, eq_comm]

end Amount

variable {α : Type} {as bs : List α} {p q : Cut} {edits : List Edit}

/-- A route runs over what it keeps and deletes of one list, and what it keeps and inserts of the
other. -/
theorem reach_of_leads (route : Leads as bs p edits q) :
    q.old = p.old + amount .kept edits + amount .deleted edits ∧
      q.new = p.new + amount .kept edits + amount .inserted edits := by
  induction route with
  | nil => exact ⟨rfl, rfl⟩
  | @cons p m q e rest here _ ih =>
    obtain ⟨old, new⟩ := ih
    obtain rfl := here.reach
    rw [old, new]
    cases e <;> simp [Edit.kind, Edit.length, Edit.old, Edit.new] <;> omega

variable [DecidableEq α]

theorem eq_of_distance (none : distance as bs = 0) : as = bs := by
  obtain ⟨cs, common, length⟩ := exists_common as bs
  have := distance_add as bs
  have := common.old.length_le
  have := common.new.length_le
  rw [← common.old.eq_of_length (by omega), ← common.new.eq_of_length (by omega)]

/-- Lists that share neither their first nor their last items are two edits apart or more. -/
theorem two_le_distance (someOld : as ≠ []) (someNew : bs ≠ []) (front : ¬ Shares as bs 0 0)
    (back : ¬ Shares as.reverse bs.reverse 0 0) : 2 ≤ distance as bs := by
  obtain ⟨a, as, rfl⟩ := List.exists_cons_of_ne_nil someOld
  obtain ⟨b, bs, rfl⟩ := List.exists_cons_of_ne_nil someNew
  have apart : a ≠ b := fun same => front ⟨a, rfl, by simp [same]⟩
  by_contra less
  -- One edit apart means that one list is the other without its first item.
  rcases distance_cons_of_ne apart as bs with whole | whole
  · obtain rfl := eq_of_distance (show distance (a :: as) bs = 0 by omega)
    rw [@List.reverse_cons _ b] at back
    exact back (shares_append (by simp) [b])
  · obtain rfl := eq_of_distance (show distance as (b :: bs) = 0 by omega)
    rw [@List.reverse_cons _ a] at back
    exact back (shares_append (by simp) [a]).symm

theorem Cut.Middle.proper {cut : Cut} (middle : cut.Middle as bs) (apart : 2 ≤ distance as bs) :
    cut.proper as.length bs.length = true := by
  have first := middle.first
  have second := middle.second
  have old := middle.old
  have new := middle.new
  simp only [Cut.proper, Bool.and_eq_true, decide_eq_true_eq]
  refine ⟨⟨⟨old, new⟩, ?_⟩, ?_⟩
  · by_contra none
    have noOld : cut.old = 0 := by omega
    have noNew : cut.new = 0 := by omega
    rw [noOld, noNew, List.take_zero, List.take_zero, distance_nil, List.length_nil] at first
    omega
  · by_contra all
    have allOld : cut.old = as.length := by omega
    have allNew : cut.new = bs.length := by omega
    rw [allOld, allNew, List.drop_length, List.drop_length, distance_nil, List.length_nil] at second
    omega

/-- Cutting at the middle loses nothing that the lists have in common. -/
theorem Cut.Middle.commonLength_eq {cut : Cut} (middle : cut.Middle as bs) :
    commonLength (as.take cut.old) (bs.take cut.new) +
      commonLength (as.drop cut.old) (bs.drop cut.new) = commonLength as bs := by
  have whole := distance_add as bs
  have first := distance_add (as.take cut.old) (bs.take cut.new)
  have second := distance_add (as.drop cut.old) (bs.drop cut.new)
  rw [middle.first, List.length_take_of_le middle.old, List.length_take_of_le middle.new] at first
  rw [middle.second, List.length_drop, List.length_drop] at second
  have := middle.old
  have := middle.new
  omega

theorem commonLength_sharedPrefix (as bs : List α) :
    commonLength as bs = sharedPrefix as bs +
      commonLength (as.drop (sharedPrefix as bs)) (bs.drop (sharedPrefix as bs)) := by
  have whole := commonLength_prefix (as.take (sharedPrefix as bs))
    (as.drop (sharedPrefix as bs)) (bs.drop (sharedPrefix as bs))
  rw [List.take_append_drop, take_sharedPrefix, List.take_append_drop,
    List.length_take_of_le (sharedPrefix_le_right as bs)] at whole
  exact whole

theorem commonLength_sharedSuffix (as bs : List α) :
    commonLength as bs = commonLength (as.take (as.length - sharedSuffix as bs))
      (bs.take (bs.length - sharedSuffix as bs)) + sharedSuffix as bs := by
  have whole := commonLength_sharedPrefix as.reverse bs.reverse
  rwa [List.drop_reverse, List.drop_reverse, commonLength_reverse, commonLength_reverse,
    Nat.add_comm] at whole

/-- What is left between the shared ends shares no end. -/
theorem not_shares_ends (as bs : List α) :
    let front := sharedPrefix as bs
    let back := sharedSuffix (as.drop front) (bs.drop front)
    let as' := (as.drop front).take ((as.drop front).length - back)
    let bs' := (bs.drop front).take ((bs.drop front).length - back)
    ¬ Shares as' bs' 0 0 ∧ ¬ Shares as'.reverse bs'.reverse 0 0 := by
  intro front back as' bs'
  have turned (items : List α) (count : Nat) (inside : count ≤ items.length) :
      (items.take (items.length - count)).reverse = items.reverse.drop count := by
    rw [List.reverse_take, Nat.sub_sub_self inside]
  constructor
  · intro shares
    exact not_shares_sharedPrefix as bs (shares_drop_iff.1 shares.of_take)
  · rw [turned _ _ (sharedSuffix_le_left _ _), turned _ _ (sharedSuffix_le_right _ _)]
    intro shares
    exact not_shares_sharedPrefix _ _ (shares_drop_iff.1 shares)

/-- The script keeps as many items as the lists have in common. -/
theorem amount_scriptAt (as bs : List α) (old new : Nat) :
    amount .kept (scriptAt as bs old new) = commonLength as bs := by
  fun_induction scriptAt as bs old new with
  | case1 as bs old new front as' bs' back n m middle first second =>
    have whole : commonLength as bs = front + commonLength as' bs' :=
      commonLength_sharedPrefix as bs
    have inner : commonLength as' bs' = commonLength (as'.take n) (bs'.take m) + back :=
      commonLength_sharedSuffix as' bs'
    have kept : amount .kept middle = commonLength (as'.take n) (bs'.take m) := by
      by_cases noOld : n = 0
      · by_cases noNew : m = 0 <;>
          simp [middle, noOld, noNew, nil_commonLength, Edit.kind]
      by_cases noNew : m = 0
      · simp [middle, noOld, noNew, commonLength_nil, Edit.kind]
      have oldLength : (as'.take n).length = n := List.length_take_of_le (Nat.sub_le _ _)
      have newLength : (bs'.take m).length = m := List.length_take_of_le (Nat.sub_le _ _)
      have someOld : as'.take n ≠ [] := List.ne_nil_of_length_pos (by omega)
      have someNew : bs'.take m ≠ [] := List.ne_nil_of_length_pos (by omega)
      obtain ⟨cut, found, mid⟩ := exists_middleCut (as'.take n) (bs'.take m)
      obtain ⟨frontApart, backApart⟩ := not_shares_ends as bs
      have apart := two_le_distance someOld someNew frontApart backApart
      have proper : cut.proper n m = true := by
        simpa only [oldLength, newLength] using mid.proper apart
      have upper := first cut proper
      have lower := second cut proper
      simp only [middle, noOld, noNew, and_self, dite_false, found, proper, dite_true,
        amount_append, upper, lower]
      exact mid.commonLength_eq
    simp only [amount_append, amount_keepRun, if_true, kept]
    omega

theorem amount_script (as bs : List α) : amount .kept (script as bs) = commonLength as bs := by
  rw [Workspace.script_eq, amount_scriptAt]

/-! Sliding. -/

theorem amount_growFront (count old new length : Nat) (edits : List Edit) :
    amount .deleted (growFront count (.keep old new length) edits) = amount .deleted edits := by
  unfold growFront
  split <;> simp [Edit.kind]

theorem amount_growBack (count old new length : Nat) (edits : List Edit) :
    amount .deleted (growBack count (.keep old new length) edits) = amount .deleted edits := by
  unfold growBack
  split <;> simp [Edit.kind]

theorem amount_raise (as bs : List α) (c : Cursor) :
    amount .deleted (c.raise as bs).script = amount .deleted c.script := by
  fun_induction Cursor.raise as bs c with
    grind [Cursor.script, amount_append, amount_reverse, amount_cons, Edit.kind, Edit.length,
      amount_growFront]

theorem amount_lower (as bs : List α) (c : Cursor) :
    amount .deleted (c.lower as bs).script = amount .deleted c.script := by
  fun_induction Cursor.lower as bs c with
    grind [Cursor.script, amount_append, amount_reverse, amount_cons, Edit.kind, Edit.length,
      amount_growBack]

theorem amount_slide (as bs : List α) (kind : Edit.Kind) (edit : kind ≠ .kept)
    (before after : List Edit) :
    amount .deleted (slide as bs kind edit before after) =
      amount .deleted before + amount .deleted after := by
  fun_induction slide as bs kind edit before after with
  | case1 before => simp
  | case2 before here after _ c ih =>
    have moved : amount .deleted c.script = amount .deleted (Cursor.script ⟨before, here, after⟩) :=
      (amount_lower as bs _).trans (amount_raise as bs _)
    simp only [Cursor.script, amount_append, amount_reverse, amount_cons] at moved
    rw [ih, amount_cons, amount_cons]
    omega
  | case3 before here after _ ih =>
    rw [ih, amount_cons, amount_cons]
    omega

/-- The script of two lists keeps a longest common list, slid as it may be, and changes the rest. -/
theorem amount_compact (as bs : List α) :
    amount .kept (compact as bs (script as bs)) = commonLength as bs ∧
      amount .deleted (compact as bs (script as bs)) + commonLength as bs = as.length ∧
      amount .inserted (compact as bs (script as bs)) + commonLength as bs = bs.length := by
  have same : amount .deleted (compact as bs (script as bs)) = amount .deleted (script as bs) := by
    rw [compact, amount_slide, amount_slide, amount_nil, Nat.zero_add, Nat.zero_add]
  have before := reach_of_leads (leads_script as bs)
  have after := reach_of_leads (leads_compact (leads_script as bs))
  rw [amount_script] at before
  dsimp only at before after
  omega

end FormatPreview.Diff
