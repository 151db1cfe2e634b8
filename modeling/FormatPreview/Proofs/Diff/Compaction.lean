import FormatPreview.Diff.Compaction
import FormatPreview.Proofs.Diff.Route

/-!
Sliding an edit along a script leaves where the script leads. Each move changes at most three
neighbours: two edits of different kinds change places, two of one kind become one, or an insertion
passes the items that it shares with the kept run beside it.
-/
namespace FormatPreview.Diff

section Moves

variable {α : Type} {as bs : List α} {p q : Cut} {rest : List Edit}

theorem leads_insert_delete {old new length old' new' length' : Nat}
    (route : Leads as bs p (.delete old length new :: .insert old' new' length' :: rest) q) :
    Leads as bs p (.insert old' new' length' :: .delete old length new :: rest) q := by
  cases route with
  | cons deleted route =>
    cases route with
    | cons inserted route =>
      obtain ⟨rfl, rfl, some, inside⟩ := deleted
      obtain ⟨rfl, rfl, some', inside'⟩ := inserted
      exact .cons ⟨rfl, rfl, some', inside'⟩ (.cons ⟨rfl, rfl, some, inside⟩ route)

theorem leads_delete_insert {old new length old' new' length' : Nat}
    (route : Leads as bs p (.insert old' new' length' :: .delete old length new :: rest) q) :
    Leads as bs p (.delete old length new :: .insert old' new' length' :: rest) q := by
  cases route with
  | cons inserted route =>
    cases route with
    | cons deleted route =>
      obtain ⟨rfl, rfl, some', inside'⟩ := inserted
      obtain ⟨rfl, rfl, some, inside⟩ := deleted
      exact .cons ⟨rfl, rfl, some, inside⟩ (.cons ⟨rfl, rfl, some', inside'⟩ route)

theorem leads_delete_add {old new length old' new' length' : Nat}
    (route : Leads as bs p (.delete old length new :: .delete old' length' new' :: rest) q) :
    Leads as bs p (.delete old (length + length') new :: rest) q := by
  cases route with
  | cons first route =>
    cases route with
    | cons second route =>
      obtain ⟨rfl, rfl, some, inside⟩ := first
      obtain ⟨rfl, rfl, some', inside'⟩ := second
      dsimp only at inside'
      refine .cons ⟨rfl, rfl, by omega, by omega⟩ ?_
      rwa [← Nat.add_assoc]

theorem leads_insert_add {old new length old' new' length' : Nat}
    (route : Leads as bs p (.insert old new length :: .insert old' new' length' :: rest) q) :
    Leads as bs p (.insert old new (length + length') :: rest) q := by
  cases route with
  | cons first route =>
    cases route with
    | cons second route =>
      obtain ⟨rfl, rfl, some, inside⟩ := first
      obtain ⟨rfl, rfl, some', inside'⟩ := second
      dsimp only at inside'
      refine .cons ⟨rfl, rfl, by omega, by omega⟩ ?_
      rwa [← Nat.add_assoc]

theorem leads_keep_add {old new length old' new' length' : Nat}
    (route : Leads as bs p (.keep old new length :: .keep old' new' length' :: rest) q) :
    old' = old + length ∧ new' = new + length ∧
      Leads as bs p (.keep old new (length + length') :: rest) q := by
  cases route with
  | cons first route =>
    cases route with
    | cons second route =>
      obtain ⟨rfl, rfl, some, oldInside, newInside, same⟩ := first
      obtain ⟨here, rfl, some', oldInside', newInside', same'⟩ := second
      obtain ⟨rfl, rfl⟩ := Cut.mk.inj here
      refine ⟨rfl, rfl, .cons ⟨rfl, rfl, by omega, by omega, by omega, ?_⟩ ?_⟩
      · rw [← Span.of_append, ← Span.of_append, same, same']
      · rwa [← Nat.add_assoc, ← Nat.add_assoc]

theorem leads_growFront {old new count : Nat}
    (route : Leads as bs p (.keep old new count :: rest) q) :
    Leads as bs p (growFront count (.keep old new count) rest) q := by
  unfold growFront
  split
  · next old' new' length rest =>
    obtain ⟨rfl, rfl, joined⟩ := leads_keep_add route
    rwa [Nat.add_sub_cancel, Nat.add_sub_cancel, Nat.add_comm length count]
  · exact route

theorem leads_growBack {old new count : Nat} {before : List Edit}
    (route : Leads as bs p (before.reverse ++ .keep old new count :: rest) q) :
    Leads as bs p ((growBack count (.keep old new count) before).reverse ++ rest) q := by
  unfold growBack
  split
  · next old' new' length before =>
    rw [List.reverse_cons, List.append_assoc] at route ⊢
    exact route.replace fun m route => (leads_keep_add route).2.2
  · rwa [List.reverse_cons, List.append_assoc]

variable [DecidableEq α]

/-- An insertion can stand before what it shares with the end of the kept run before it. -/
theorem leads_slide_up {old new length old' new' length' count : Nat}
    (shared : count = sharedSuffix (Span.of ⟨old, length⟩ as) (Span.of ⟨new', length'⟩ bs))
    (some : count ≠ 0)
    (route : Leads as bs p (.keep old new length :: .insert old' new' length' :: rest) q) :
    Leads as bs p (keepRun old new (length - count) ++ .insert (old' - count) (new' - count) length' ::
      growFront count (.keep (old + length - count) (new' + length' - count) count) rest) q := by
  cases route with
  | cons kept route =>
    cases route with
    | cons inserted route =>
      obtain ⟨rfl, rfl, some', oldInside, newInside, same⟩ := kept
      obtain ⟨place, rfl, some'', inside⟩ := inserted
      dsimp only at place
      subst place
      have oldRoom : count ≤ length := by
        have := sharedSuffix_le_left (Span.of ⟨old, length⟩ as) (Span.of ⟨new + length, length'⟩ bs)
        rwa [← shared, Span.length_of oldInside] at this
      have newRoom : count ≤ length' := by
        have := sharedSuffix_le_right (Span.of ⟨old, length⟩ as) (Span.of ⟨new + length, length'⟩ bs)
        rwa [← shared, Span.length_of inside] at this
      have part := Span.of_part same (show 0 + (length - count) ≤ length by omega)
      have suffix := drop_sharedSuffix (Span.of ⟨old, length⟩ as) (Span.of ⟨new + length, length'⟩ bs)
      rw [← shared, Span.length_of oldInside, Span.length_of inside, Span.drop_of, Span.drop_of,
        Nat.sub_sub_self oldRoom, Nat.sub_sub_self newRoom, ← Nat.add_sub_assoc oldRoom,
        ← Nat.add_sub_assoc newRoom] at suffix
      have first := leads_keepRun as bs old new (length - count) (by omega) (by omega) part
      refine first.append (.cons ⟨by simp only; omega, rfl, some'', by omega⟩
        (leads_growFront (.cons ⟨?_, ?_, by omega, by omega, by omega, suffix⟩ route)))
      · rw [Cut.mk.injEq]
        dsimp only
        omega
      · rw [Cut.mk.injEq]
        dsimp only
        omega

/-- An insertion can stand after what it shares with the start of the kept run after it. -/
theorem leads_slide_down {old new length old' new' length' count : Nat}
    (shared : count = sharedPrefix (Span.of ⟨old, length⟩ as) (Span.of ⟨new', length'⟩ bs))
    (some : count ≠ 0)
    (route : Leads as bs p (.insert old' new' length' :: .keep old new length :: rest) q) :
    Leads as bs p (.keep old new' count :: .insert (old' + count) (new' + count) length' ::
      (keepRun (old + count) (new + count) (length - count) ++ rest)) q := by
  cases route with
  | cons inserted route =>
    cases route with
    | cons kept route =>
      obtain ⟨rfl, rfl, some'', inside⟩ := inserted
      obtain ⟨here, rfl, some', oldInside, newInside, same⟩ := kept
      obtain ⟨rfl, rfl⟩ := Cut.mk.inj here
      have oldRoom : count ≤ length := by
        have := sharedPrefix_le_left (Span.of ⟨p.old, length⟩ as) (Span.of ⟨p.new, length'⟩ bs)
        rwa [← shared, Span.length_of oldInside] at this
      have newRoom : count ≤ length' := by
        have := sharedPrefix_le_right (Span.of ⟨p.old, length⟩ as) (Span.of ⟨p.new, length'⟩ bs)
        rwa [← shared, Span.length_of inside] at this
      have part := Span.of_part same (show count + (length - count) ≤ length by omega)
      have front := take_sharedPrefix (Span.of ⟨p.old, length⟩ as) (Span.of ⟨p.new, length'⟩ bs)
      rw [← shared, Span.take_of _ _ _ _ oldRoom, Span.take_of _ _ _ _ newRoom] at front
      have last := leads_keepRun as bs (p.old + count) (p.new + length' + count) (length - count)
        (by omega) (by omega) part
      refine .cons ⟨rfl, rfl, by omega, by omega, by omega, front⟩
        (.cons ⟨rfl, rfl, some'', by omega⟩ ?_)
      have place : p.new + count + length' = p.new + length' + count := by omega
      rw [Nat.add_assoc p.old, Nat.add_assoc _ count, Nat.add_sub_cancel' oldRoom] at last
      rw [place]
      exact last.append route

end Moves

namespace Cursor

def script (c : Cursor) : List Edit := c.before.reverse ++ c.here :: c.after

theorem script_cons (edit here : Edit) (before after : List Edit) :
    script ⟨edit :: before, here, after⟩ = before.reverse ++ edit :: here :: after := by
  simp [script]

variable {α : Type} [DecidableEq α] {as bs : List α} {p q : Cut}

theorem leads_raise (c : Cursor) (route : Leads as bs p c.script q) :
    Leads as bs p (c.raise as bs).script q := by
  fun_induction raise as bs c with
  | case1 => exact route
  | case2 old new before here after ih =>
    rw [script_cons] at route
    obtain ⟨m, _, route⟩ := route.split
    cases route with
    | cons kept => exact absurd kept.2.2.1 (Nat.lt_irrefl 0)
  | case3 => exact route
  | case4 old new length before after _ o n l count some grown moved all ih =>
    apply ih
    rw [script_cons] at route
    refine route.replace fun m route => ?_
    have slid := leads_slide_up rfl some route
    rw [keepRun, if_pos (Nat.sub_eq_zero_of_le all), List.nil_append] at slid
    exact slid
  | case5 old new length before after _ o n l count some grown moved part ih =>
    apply ih
    rw [script_cons] at route ⊢
    refine route.replace fun m route => ?_
    have slid := leads_slide_up rfl some route
    rw [keepRun, if_neg (by omega)] at slid
    exact slid
  | case6 => exact route
  | case7 old length new before after o n l ih =>
    rw [script_cons] at route
    exact ih (route.replace fun m route => leads_insert_delete route)
  | case8 old length new before after o l n ih =>
    rw [script_cons] at route
    exact ih (route.replace fun m route => leads_delete_add route)
  | case9 => exact route
  | case10 old new length before after o n l ih =>
    rw [script_cons] at route
    exact ih (route.replace fun m route => leads_insert_add route)
  | case11 old new length before after o l n ih =>
    rw [script_cons] at route
    exact ih (route.replace fun m route => leads_delete_insert route)
  | case12 => exact route

theorem leads_lower (c : Cursor) (route : Leads as bs p c.script q) :
    Leads as bs p (c.lower as bs).script q := by
  fun_induction lower as bs c with
  | case1 => exact route
  | case2 before here old new after ih =>
    obtain ⟨m, _, route⟩ := route.split
    cases route with
    | cons _ route =>
      cases route with
      | cons kept => exact absurd kept.2.2.1 (Nat.lt_irrefl 0)
  | case3 => exact route
  | case4 before old new length after _ o n l count some grown moved all ih =>
    apply ih
    have slid := route.replace fun m route => leads_slide_down rfl some route
    rw [keepRun, if_pos (Nat.sub_eq_zero_of_le all), List.nil_append] at slid
    exact leads_growBack slid
  | case5 before old new length after _ o n l count some grown moved part ih =>
    apply ih
    have slid := route.replace fun m route => leads_slide_down rfl some route
    rw [keepRun, if_neg (by omega)] at slid
    exact leads_growBack slid
  | case6 => exact route
  | case7 before old length new after o n l ih =>
    apply ih
    rw [script_cons]
    exact route.replace fun m route => leads_delete_insert route
  | case8 before old length new after o l n ih =>
    exact ih (route.replace fun m route => leads_delete_add route)
  | case9 => exact route
  | case10 before old new length after o n l ih =>
    exact ih (route.replace fun m route => leads_insert_add route)
  | case11 before old new length after o l n ih =>
    apply ih
    rw [script_cons]
    exact route.replace fun m route => leads_insert_delete route
  | case12 => exact route

end Cursor

variable {α : Type} [DecidableEq α]

theorem leads_slide {as bs : List α} {p q : Cut} (kind : Edit.Kind) (edit : kind ≠ .kept)
    (before after : List Edit) (route : Leads as bs p (before.reverse ++ after) q) :
    Leads as bs p (slide as bs kind edit before after) q := by
  fun_induction slide as bs kind edit before after with
  | case1 before => rwa [List.append_nil] at route
  | case2 before here after _ c ih =>
    apply ih
    have moved := Cursor.leads_lower _ (Cursor.leads_raise ⟨before, here, after⟩ route)
    rwa [List.reverse_cons, List.append_assoc]
  | case3 before here after _ ih =>
    apply ih
    rwa [List.reverse_cons, List.append_assoc]

theorem leads_compact {as bs : List α} {p q : Cut} {edits : List Edit}
    (route : Leads as bs p edits q) : Leads as bs p (compact as bs edits) q :=
  leads_slide _ _ _ _ (leads_slide _ _ [] edits route)

end FormatPreview.Diff
