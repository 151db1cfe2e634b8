/-!
Edit scripts over two lists. An edit keeps, deletes or inserts a run of items and carries the
positions of its run in both lists. A span is a run of positions, and `Span.of` the items there.
-/
namespace FormatPreview.Diff

structure Span where
  start : Nat
  length : Nat
deriving DecidableEq

def Span.stop (s : Span) : Nat := s.start + s.length

def Span.of {α : Type} (s : Span) (items : List α) : List α := (items.drop s.start).take s.length

inductive Edit where
  | keep (old new length : Nat)
  | delete (old length new : Nat)
  | insert (old new length : Nat)
deriving DecidableEq

namespace Edit

inductive Kind where
  | kept
  | deleted
  | inserted
deriving DecidableEq

def kind : Edit → Kind
  | .keep .. => .kept
  | .delete .. => .deleted
  | .insert .. => .inserted

def old : Edit → Span
  | .keep old _ length => ⟨old, length⟩
  | .delete old length _ => ⟨old, length⟩
  | .insert old _ _ => ⟨old, 0⟩

def new : Edit → Span
  | .keep _ new length => ⟨new, length⟩
  | .delete _ _ new => ⟨new, 0⟩
  | .insert _ new length => ⟨new, length⟩

end Edit

variable {α : Type} [DecidableEq α]

def sharedPrefix : List α → List α → Nat
  | a :: as, b :: bs => if a = b then sharedPrefix as bs + 1 else 0
  | _, _ => 0

def sharedSuffix (as bs : List α) : Nat := sharedPrefix as.reverse bs.reverse

theorem sharedPrefix_le_left (as bs : List α) : sharedPrefix as bs ≤ as.length := by
  fun_induction sharedPrefix as bs <;> simp_all

theorem sharedPrefix_le_right (as bs : List α) : sharedPrefix as bs ≤ bs.length := by
  fun_induction sharedPrefix as bs <;> simp_all

theorem take_sharedPrefix (as bs : List α) :
    as.take (sharedPrefix as bs) = bs.take (sharedPrefix as bs) := by
  fun_induction sharedPrefix as bs <;> simp_all

theorem sharedSuffix_le_left (as bs : List α) : sharedSuffix as bs ≤ as.length := by
  simpa [sharedSuffix] using sharedPrefix_le_left as.reverse bs.reverse

theorem sharedSuffix_le_right (as bs : List α) : sharedSuffix as bs ≤ bs.length := by
  simpa [sharedSuffix] using sharedPrefix_le_right as.reverse bs.reverse

end FormatPreview.Diff
