import FormatPreview.Proofs.Diff.Workspace
import Mathlib.Data.List.Infix

/-!
Routes through the grid of two lists. An edit leads from one point to another when it runs over what
lies between them; a script leads along its edits in turn. The old position that an insertion
carries and the new position that a deletion carries do not matter to where they lead.
-/
namespace FormatPreview.Diff

/-- Steps in turn, from one point to another. -/
inductive Route {σ : Type} (step : Cut → σ → Cut → Prop) : Cut → List σ → Cut → Prop where
  | nil {p : Cut} : Route step p [] p
  | cons {p q r : Cut} {s : σ} {rest : List σ} :
      step p s q → Route step q rest r → Route step p (s :: rest) r

namespace Route

variable {σ : Type} {step : Cut → σ → Cut → Prop} {p q r : Cut} {xs ys zs : List σ}

theorem append (first : Route step p xs q) (second : Route step q ys r) :
    Route step p (xs ++ ys) r := by
  induction first with
  | nil => exact second
  | cons here _ ih => exact .cons here (ih second)

theorem split (route : Route step p (xs ++ ys) r) :
    ∃ q, Route step p xs q ∧ Route step q ys r := by
  induction xs generalizing p with
  | nil => exact ⟨p, .nil, route⟩
  | cons x xs ih =>
    cases route with
    | cons here rest =>
      obtain ⟨q, first, second⟩ := ih rest
      exact ⟨q, .cons here first, second⟩

theorem one {s : σ} (here : step p s q) : Route step p [s] q := .cons here .nil

/-- What follows a common beginning can be replaced by what leads to the same point. -/
theorem replace (same : ∀ m, Route step m ys q → Route step m zs q)
    (route : Route step p (xs ++ ys) q) : Route step p (xs ++ zs) q := by
  obtain ⟨m, first, second⟩ := route.split
  exact first.append (same m second)

end Route

namespace Span

variable {α : Type}

theorem length_of {start length : Nat} {items : List α} (inside : start + length ≤ items.length) :
    (Span.of ⟨start, length⟩ items).length = length := by
  simp only [Span.of, List.length_take, List.length_drop]
  omega

theorem take_of (start length count : Nat) (items : List α) (less : count ≤ length) :
    (Span.of ⟨start, length⟩ items).take count = Span.of ⟨start, count⟩ items := by
  simp [Span.of, List.take_take, Nat.min_eq_left less]

theorem drop_of (start length count : Nat) (items : List α) :
    (Span.of ⟨start, length⟩ items).drop count =
      Span.of ⟨start + count, length - count⟩ items := by
  simp [Span.of, List.drop_take, List.drop_drop]

theorem of_append (start first second : Nat) (items : List α) :
    Span.of ⟨start, first⟩ items ++ Span.of ⟨start + first, second⟩ items =
      Span.of ⟨start, first + second⟩ items := by
  simp only [Span.of, ← List.drop_drop, List.take_add]

/-- Two spans with the same items have them on each part. -/
theorem of_part {start start' length from' count : Nat} {as bs : List α}
    (same : Span.of ⟨start, length⟩ as = Span.of ⟨start', length⟩ bs)
    (less : from' + count ≤ length) :
    Span.of ⟨start + from', count⟩ as = Span.of ⟨start' + from', count⟩ bs := by
  have part := congrArg (fun items => (items.drop from').take count) same
  simpa only [drop_of, take_of _ _ _ _ (show count ≤ length - from' by omega)] using part

/-- What spans take from a list that stands in another. -/
theorem of_within {as items : List α} {start from' count : Nat} (stands : as <+: items.drop start)
    (inside : from' + count ≤ as.length) :
    Span.of ⟨start + from', count⟩ items = (as.drop from').take count := by
  obtain ⟨rest, whole⟩ := stands
  have room : count ≤ (as.drop from').length := by
    rw [List.length_drop]
    omega
  rw [Span.of, ← List.drop_drop, ← whole, List.drop_append_of_le_length (by omega),
    List.take_append_of_le_length room]

theorem prefix_stop_le {as items : List α} {start : Nat} (stands : as <+: items.drop start)
    (inside : start ≤ items.length) : start + as.length ≤ items.length := by
  have := stands.length_le
  rw [List.length_drop] at this
  omega

theorem prefix_drop {as items : List α} {start : Nat} (stands : as <+: items.drop start)
    (count : Nat) : as.drop count <+: items.drop (start + count) := by
  rw [← List.drop_drop]
  exact stands.drop count

theorem prefix_take {as items : List α} {start : Nat} (stands : as <+: items.drop start)
    (count : Nat) : as.take count <+: items.drop start :=
  (List.take_prefix count as).trans stands

end Span

variable {α : Type}

/-- Where an edit leads: over the items that it names, which a kept run must share. -/
def Edit.Leads (as bs : List α) (p : Cut) (e : Edit) (q : Cut) : Prop :=
  match e with
  | .keep old new length =>
    p = ⟨old, new⟩ ∧ q = ⟨old + length, new + length⟩ ∧ 0 < length ∧
      old + length ≤ as.length ∧ new + length ≤ bs.length ∧
      Span.of ⟨old, length⟩ as = Span.of ⟨new, length⟩ bs
  | .delete old length _ =>
    p.old = old ∧ q = ⟨old + length, p.new⟩ ∧ 0 < length ∧ old + length ≤ as.length
  | .insert _ new length =>
    p.new = new ∧ q = ⟨p.old, new + length⟩ ∧ 0 < length ∧ new + length ≤ bs.length

abbrev Leads (as bs : List α) : Cut → List Edit → Cut → Prop := Route (Edit.Leads as bs)

/-- Where two lists stand alike for a while, that stretch can be kept. -/
theorem leads_keepRun (as bs : List α) (old new length : Nat) (oldInside : old + length ≤ as.length)
    (newInside : new + length ≤ bs.length)
    (same : Span.of ⟨old, length⟩ as = Span.of ⟨new, length⟩ bs) :
    Leads as bs ⟨old, new⟩ (keepRun old new length) ⟨old + length, new + length⟩ := by
  unfold keepRun
  split
  · next empty =>
    subst empty
    exact .nil
  · next some => exact .one ⟨rfl, rfl, Nat.pos_of_ne_zero some, oldInside, newInside, same⟩

theorem leads_replace (as bs : List α) (old new n m : Nat) (deleted : 0 < n) (inserted : 0 < m)
    (oldInside : old + n ≤ as.length) (newInside : new + m ≤ bs.length) :
    Leads as bs ⟨old, new⟩ [.delete old n new, .insert old new m] ⟨old + n, new + m⟩ :=
  .cons ⟨rfl, rfl, deleted, oldInside⟩ (.one ⟨rfl, rfl, inserted, newInside⟩)

/-- Lists that stand in longer ones and share a stretch keep it there. -/
theorem leads_stretch {all every as bs : List α} {old new i j count : Nat}
    (stands : as <+: all.drop old) (stands' : bs <+: every.drop new)
    (oldInside : old ≤ all.length) (newInside : new ≤ every.length)
    (oldLess : i + count ≤ as.length) (newLess : j + count ≤ bs.length)
    (shared : (as.drop i).take count = (bs.drop j).take count) :
    Leads all every ⟨old + i, new + j⟩ (keepRun (old + i) (new + j) count)
      ⟨old + i + count, new + j + count⟩ := by
  have oldStop := Span.prefix_stop_le stands oldInside
  have newStop := Span.prefix_stop_le stands' newInside
  apply leads_keepRun _ _ _ _ _ (by omega) (by omega)
  rw [Span.of_within stands oldLess, Span.of_within stands' newLess, shared]

/-- What is left between shared ends: nothing, items of one side, or what an inner script covers. -/
theorem leads_middle (all every : List α) (old new n m : Nat) (inner : List Edit)
    (oldInside : old + n ≤ all.length) (newInside : new + m ≤ every.length)
    (both : 0 < n → 0 < m → Leads all every ⟨old, new⟩ inner ⟨old + n, new + m⟩) :
    Leads all every ⟨old, new⟩
      (if n = 0 ∧ m = 0 then []
        else if m = 0 then [.delete old n new]
        else if n = 0 then [.insert old new m]
        else inner) ⟨old + n, new + m⟩ := by
  by_cases noOld : n = 0
  · by_cases noNew : m = 0
    · simp only [noOld, noNew, and_self, if_true, Nat.add_zero]
      exact .nil
    · simp only [noOld, noNew, and_false, if_false, if_true, Nat.add_zero]
      exact .one ⟨rfl, rfl, by omega, newInside⟩
  · by_cases noNew : m = 0
    · simp only [noOld, noNew, false_and, if_false, if_true, Nat.add_zero]
      exact .one ⟨rfl, rfl, by omega, oldInside⟩
    · simp only [noOld, noNew, and_self, if_false]
      exact both (by omega) (by omega)

variable [DecidableEq α]

theorem drop_sharedSuffix (as bs : List α) :
    as.drop (as.length - sharedSuffix as bs) = bs.drop (bs.length - sharedSuffix as bs) := by
  have same := take_sharedPrefix as.reverse bs.reverse
  rw [List.take_reverse, List.take_reverse] at same
  exact List.reverse_inj.1 same

theorem Cut.le_of_proper {cut : Cut} {n m : Nat} (proper : cut.proper n m) :
    cut.old ≤ n ∧ cut.new ≤ m := by
  simp only [Cut.proper, Bool.and_eq_true, decide_eq_true_eq] at proper
  exact ⟨proper.1.1.1, proper.1.1.2⟩

/-- The script of two lists that stand in longer ones leads over both. -/
theorem leads_scriptAt (all every : List α) (as bs : List α) (old new : Nat)
    (oldInside : old ≤ all.length) (newInside : new ≤ every.length)
    (stands : as <+: all.drop old) (stands' : bs <+: every.drop new) :
    Leads all every ⟨old, new⟩ (scriptAt as bs old new) ⟨old + as.length, new + bs.length⟩ := by
  fun_induction scriptAt as bs old new with
  | case1 as bs old new front as' bs' back n m middle first second =>
    have frontOld : front ≤ as.length := sharedPrefix_le_left as bs
    have frontNew : front ≤ bs.length := sharedPrefix_le_right as bs
    have backOld : back ≤ as'.length := sharedSuffix_le_left as' bs'
    have backNew : back ≤ bs'.length := sharedSuffix_le_right as' bs'
    have oldLength : front + n + back = as.length := by
      simp only [n, as', List.length_drop] at *
      omega
    have newLength : front + m + back = bs.length := by
      simp only [m, bs', List.length_drop] at *
      omega
    have takenOld : (as'.take n).length = n := List.length_take_of_le (by omega)
    have takenNew : (bs'.take m).length = m := List.length_take_of_le (by omega)
    have oldStop := Span.prefix_stop_le stands oldInside
    have newStop := Span.prefix_stop_le stands' newInside
    have standsOld : as' <+: all.drop (old + front) := Span.prefix_drop stands front
    have standsNew : bs' <+: every.drop (new + front) := Span.prefix_drop stands' front
    have standsAs : as'.take n <+: all.drop (old + front) := Span.prefix_take standsOld n
    have standsBs : bs'.take m <+: every.drop (new + front) := Span.prefix_take standsNew m
    have kept : Leads all every ⟨old, new⟩ (keepRun old new front) ⟨old + front, new + front⟩ :=
      leads_stretch (i := 0) (j := 0) stands stands' oldInside newInside (by omega) (by omega)
        (take_sharedPrefix as bs)
    have changed : Leads all every ⟨old + front, new + front⟩ middle
        ⟨old + front + n, new + front + m⟩ := by
      apply leads_middle all every (old + front) (new + front) n m _ (by omega) (by omega)
      intro someOld someNew
      have replaced := leads_replace all every (old + front) (new + front) n m someOld someNew
        (by omega) (by omega)
      split
      · next cut _ =>
        split
        · next proper =>
          have inside := Cut.le_of_proper proper
          have upper := first cut proper (by omega) (by omega)
            (Span.prefix_take standsAs _) (Span.prefix_take standsBs _)
          have lower := second cut proper (by omega) (by omega)
            (Span.prefix_drop standsAs _) (Span.prefix_drop standsBs _)
          rw [List.length_take_of_le (by omega), List.length_take_of_le (by omega)] at upper
          rw [List.length_drop, List.length_drop, takenOld, takenNew,
            show old + front + cut.old + (n - cut.old) = old + front + n by omega,
            show new + front + cut.new + (m - cut.new) = new + front + m by omega] at lower
          exact upper.append lower
        · exact replaced
      · exact replaced
    have keptLast : Leads all every ⟨old + front + n, new + front + m⟩
        (keepRun (old + front + n) (new + front + m) back)
        ⟨old + front + n + back, new + front + m + back⟩ :=
      leads_stretch standsOld standsNew (by omega) (by omega) (by omega) (by omega)
        (congrArg (List.take back) (drop_sharedSuffix as' bs'))
    have whole := (kept.append changed).append keptLast
    rw [show old + front + n + back = old + as.length by omega,
      show new + front + m + back = new + bs.length by omega] at whole
    exact whole

theorem leads_script (as bs : List α) :
    Leads as bs ⟨0, 0⟩ (script as bs) ⟨as.length, bs.length⟩ := by
  have route := leads_scriptAt as bs as bs 0 0 (Nat.zero_le _) (Nat.zero_le _)
    (List.prefix_refl _) (List.prefix_refl _)
  rwa [Nat.zero_add, Nat.zero_add, ← Workspace.script_eq] at route

end FormatPreview.Diff
