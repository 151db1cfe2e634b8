import FormatPreview.Diff.Script

/-!
Sliding edits along a script. An insertion whose text also stands before it can be moved there and
an edit that meets one of its own kind is merged with it, so that a script gets fewer and longer
edits. Deletions are slid first and insertions after them, each as far up as it goes and then as far
down as it goes. The positions inside the edits that an edit passes over stay as they are.
-/
namespace FormatPreview.Diff

/-- An edit within its script. What precedes it is listed from the nearest. -/
structure Cursor where
  before : List Edit
  here : Edit
  after : List Edit

/-- The steps that an edit can slide along a list: an item at a time through what is kept, and past
each edit. -/
def room : List Edit → Nat
  | [] => 0
  | .keep _ _ length :: rest => length + 1 + room rest
  | _ :: rest => 1 + room rest

/-- A kept run that gets `count` items more at its front, or else a new one. -/
def growFront (count : Nat) (fresh : Edit) : List Edit → List Edit
  | .keep old new length :: rest => .keep (old - count) (new - count) (length + count) :: rest
  | rest => fresh :: rest

/-- A kept run that gets `count` items more at its back, or else a new one. -/
def growBack (count : Nat) (fresh : Edit) : List Edit → List Edit
  | .keep old new length :: rest => .keep old new (length + count) :: rest
  | rest => fresh :: rest

namespace Cursor

variable {α : Type} [DecidableEq α]

def raise (as bs : List α) : Cursor → Cursor
  | ⟨[], here, after⟩ => ⟨[], here, after⟩
  | ⟨.keep old new length :: before, here, after⟩ =>
    if length = 0 then raise as bs ⟨before, here, after⟩
    else match here with
      | .insert o n l =>
        let count := sharedSuffix (Span.of ⟨old, length⟩ as) (Span.of ⟨n, l⟩ bs)
        if count = 0 then ⟨.keep old new length :: before, here, after⟩
        else
          let after := growFront count (.keep (old + length - count) (n + l - count) count) after
          let here := .insert (o - count) (n - count) l
          if length ≤ count then raise as bs ⟨before, here, after⟩
          else raise as bs ⟨.keep old new (length - count) :: before, here, after⟩
      | _ => ⟨.keep old new length :: before, here, after⟩
  | ⟨.delete old length new :: before, here, after⟩ =>
    match here with
    | .insert .. => raise as bs ⟨before, here, .delete old length new :: after⟩
    | .delete _ l _ => raise as bs ⟨before, .delete old (length + l) new, after⟩
    | .keep .. => ⟨.delete old length new :: before, here, after⟩
  | ⟨.insert old new length :: before, here, after⟩ =>
    match here with
    | .insert _ _ l => raise as bs ⟨before, .insert old new (length + l), after⟩
    | .delete .. => raise as bs ⟨before, here, .insert old new length :: after⟩
    | .keep .. => ⟨.insert old new length :: before, here, after⟩
termination_by c => room c.before
decreasing_by all_goals simp only [room]; omega

def lower (as bs : List α) : Cursor → Cursor
  | ⟨before, here, []⟩ => ⟨before, here, []⟩
  | ⟨before, here, .keep old new length :: after⟩ =>
    if length = 0 then lower as bs ⟨before, here, after⟩
    else match here with
      | .insert o n l =>
        let count := sharedPrefix (Span.of ⟨old, length⟩ as) (Span.of ⟨n, l⟩ bs)
        if count = 0 then ⟨before, here, .keep old new length :: after⟩
        else
          let before := growBack count (.keep old n count) before
          let here := .insert (o + count) (n + count) l
          if length ≤ count then lower as bs ⟨before, here, after⟩
          else lower as bs
            ⟨before, here, .keep (old + count) (new + count) (length - count) :: after⟩
      | _ => ⟨before, here, .keep old new length :: after⟩
  | ⟨before, here, .delete old length new :: after⟩ =>
    match here with
    | .insert .. => lower as bs ⟨.delete old length new :: before, here, after⟩
    | .delete o l n => lower as bs ⟨before, .delete o (l + length) n, after⟩
    | .keep .. => ⟨before, here, .delete old length new :: after⟩
  | ⟨before, here, .insert old new length :: after⟩ =>
    match here with
    | .insert o n l => lower as bs ⟨before, .insert o n (l + length), after⟩
    | .delete .. => lower as bs ⟨.insert old new length :: before, here, after⟩
    | .keep .. => ⟨before, here, .insert old new length :: after⟩
termination_by c => room c.after
decreasing_by all_goals simp only [room]; omega

end Cursor

def number (kind : Edit.Kind) (edits : List Edit) : Nat := edits.countP (·.kind = kind)

theorem number_growFront {kind : Edit.Kind} (edit : kind ≠ .kept) (count o n l : Nat)
    (edits : List Edit) : number kind (growFront count (.keep o n l) edits) = number kind edits := by
  unfold growFront number
  split <;> simp [Edit.kind, edit.symm]

/-- Sliding an edit up puts no edit of its kind after it. -/
theorem number_after_raise {α : Type} [DecidableEq α] (as bs : List α) (c : Cursor)
    (edit : c.here.kind ≠ .kept) :
    number c.here.kind (c.raise as bs).after = number c.here.kind c.after := by
  fun_induction Cursor.raise as bs c with grind [Edit.kind, number, number_growFront]

/-- Nor does sliding it down. -/
theorem number_after_lower {α : Type} [DecidableEq α] (as bs : List α) (c : Cursor)
    (edit : c.here.kind ≠ .kept) :
    number c.here.kind (c.lower as bs).after ≤ number c.here.kind c.after := by
  fun_induction Cursor.lower as bs c with grind [Edit.kind, number]

theorem kind_raise {α : Type} [DecidableEq α] (as bs : List α) (c : Cursor) :
    (c.raise as bs).here.kind = c.here.kind := by
  fun_induction Cursor.raise as bs c with grind [Edit.kind]

variable {α : Type} [DecidableEq α]

/-- The edits of one kind slid in turn, from the front of the script. -/
def slide (as bs : List α) (kind : Edit.Kind) (edit : kind ≠ .kept) :
    List Edit → List Edit → List Edit
  | before, [] => before.reverse
  | before, here :: after =>
    if _same : here.kind = kind then
      let c := (Cursor.raise as bs ⟨before, here, after⟩).lower as bs
      slide as bs kind edit (c.here :: c.before) c.after
    else slide as bs kind edit (here :: before) after
termination_by _ edits => (number kind edits, edits.length)
decreasing_by
  · apply Prod.Lex.left
    have raised := number_after_raise as bs ⟨before, here, after⟩ (_same ▸ edit)
    have kept := kind_raise as bs ⟨before, here, after⟩
    have lowered := number_after_lower as bs (Cursor.raise as bs ⟨before, here, after⟩)
      (kept ▸ _same ▸ edit)
    simp only [kept, _same] at raised lowered
    simp only [number, List.countP_cons, _same, decide_true, if_true] at *
    omega
  · have fewer : number kind after = number kind (here :: after) := by simp [number, _same]
    rw [fewer]
    exact Prod.Lex.right _ (Nat.lt_succ_self _)

/-- The script with its deletions and then its insertions slid. -/
def compact (as bs : List α) (edits : List Edit) : List Edit :=
  slide as bs .inserted (by decide) [] (slide as bs .deleted (by decide) [] edits)

end FormatPreview.Diff
