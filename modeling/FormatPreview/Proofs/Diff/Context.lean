import FormatPreview.Proofs.Diff.Grouping
import FormatPreview.Proofs.Diff.Section

/-!
Context lines. In the lines of blocks that alternate, each longest run of kept lines is a kept
block. So the context at either end of them is their first or last block, if it is kept, and no run
of kept lines among them is longer than the longest kept block.
-/
namespace FormatPreview.Diff

abbrev Line := Edit.Kind × String

/-- Lines that are all kept. -/
def Kept (lines : List Line) : Prop := ∀ line ∈ lines, line.1 = .kept

/-- The number of kept lines before the first change. -/
def leading (lines : List Line) : Nat := (lines.takeWhile (·.1 = .kept)).length

/-- The number of kept lines after the last change. -/
def trailing (lines : List Line) : Nat := leading lines.reverse

variable {xs ys : List Line} {line : Line}

theorem leading_append (kept : Kept xs) : leading (xs ++ ys) = xs.length + leading ys := by
  rw [leading, List.takeWhile_append_of_pos fun line mem => decide_eq_true (kept line mem),
    List.length_append]
  rfl

theorem leading_cons (changed : line.1 ≠ .kept) : leading (line :: xs) = 0 := by
  simp [leading, List.takeWhile_cons_of_neg, changed]

/-- Kept lines at the front of others are part of their context. -/
theorem length_le_leading (kept : Kept xs) : xs.length ≤ leading (xs ++ ys) := by
  rw [leading_append kept]
  exact Nat.le_add_right _ _

/-- The lines of a block: as many kept lines as it has items, or some changed ones. -/
structure Block.Drawn (b : Block) (lines : List Line) : Prop where
  kept : b.changed = false → Kept lines ∧ lines.length = b.old.length
  changed : b.changed = true → lines ≠ [] ∧ ∀ line ∈ lines, line.1 ≠ .kept

theorem Block.Drawn.reverse {b : Block} (drawn : b.Drawn xs) : b.Drawn xs.reverse := by
  constructor
  · intro kept
    obtain ⟨all, length⟩ := drawn.kept kept
    exact ⟨fun line mem => all line (List.mem_reverse.1 mem), by simpa using length⟩
  · intro changed
    obtain ⟨some, all⟩ := drawn.changed changed
    exact ⟨by simpa using some, fun line mem => all line (List.mem_reverse.1 mem)⟩

theorem Block.Drawn.leading_changed {b : Block} (drawn : b.Drawn xs) (changed : b.changed = true) :
    leading (xs ++ ys) = 0 := by
  obtain ⟨some, all⟩ := drawn.changed changed
  cases xs with
  | nil => exact absurd rfl some
  | cons line xs => exact leading_cons (all line (by simp))

section

variable {f : Block → List Line} {b : Block} {bl : List Block}

theorem leading_flatMap_changed (drawn : ∀ b ∈ bl, b.Drawn (f b))
    (changed : ∀ b ∈ bl.head?, b.changed = true) : leading (bl.flatMap f) = 0 := by
  cases bl with
  | nil => rfl
  | cons b rest => exact (drawn b (by simp)).leading_changed (changed b rfl)

/-- After a kept block stands a change, or nothing. -/
theorem leading_after (alternating : Alternating (b :: bl)) (kept : b.changed = false)
    (drawn : ∀ b ∈ bl, b.Drawn (f b)) : leading (bl.flatMap f) = 0 := by
  apply leading_flatMap_changed drawn
  cases bl with
  | nil => simp
  | cons c rest => simpa [kept] using (alternating_cons_cons.1 alternating).1

theorem leading_flatMap_kept (alternating : Alternating bl) (drawn : ∀ b ∈ bl, b.Drawn (f b))
    (head : bl.head? = some b) (kept : b.changed = false) :
    leading (bl.flatMap f) = b.old.length := by
  cases bl with
  | nil => cases head
  | cons c rest =>
    obtain rfl : c = b := by simpa using head
    obtain ⟨all, length⟩ := (drawn c (by simp)).kept kept
    rw [List.flatMap_cons, leading_append all, length, leading_after alternating kept
      fun d mem => drawn d (by simp [mem]), Nat.add_zero]

theorem alternating_reverse (alternating : Alternating bl) : Alternating bl.reverse := by
  rw [Alternating, List.map_reverse, List.isChain_reverse]
  exact alternating.imp fun _ _ apart => apart.symm

theorem trailing_flatMap (bl : List Block) (f : Block → List Line) :
    trailing (bl.flatMap f) = leading (bl.reverse.flatMap fun b => (f b).reverse) := by
  rw [trailing, List.reverse_flatMap]
  rfl

theorem trailing_flatMap_changed (drawn : ∀ b ∈ bl, b.Drawn (f b))
    (changed : ∀ b ∈ bl.getLast?, b.changed = true) : trailing (bl.flatMap f) = 0 := by
  rw [trailing_flatMap]
  apply leading_flatMap_changed
  · exact fun b mem => (drawn b (List.mem_reverse.1 mem)).reverse
  · simpa using changed

theorem trailing_flatMap_kept (alternating : Alternating bl) (drawn : ∀ b ∈ bl, b.Drawn (f b))
    (last : bl.getLast? = some b) (kept : b.changed = false) :
    trailing (bl.flatMap f) = b.old.length := by
  rw [trailing_flatMap]
  apply leading_flatMap_kept (alternating_reverse alternating)
  · exact fun b mem => (drawn b (List.mem_reverse.1 mem)).reverse
  · simpa using last
  · exact kept

/-- What is left of the lines of blocks begins with no more kept lines than the longest of them. -/
theorem leading_suffix (alternating : Alternating bl) (drawn : ∀ b ∈ bl, b.Drawn (f b)) {most : Nat}
    (short : ∀ b ∈ bl, b.changed = false → b.old.length ≤ most) (left : xs <:+ bl.flatMap f) :
    leading xs ≤ most := by
  induction bl with
  | nil =>
    obtain rfl : xs = [] := by simpa using left
    exact Nat.zero_le _
  | cons b rest ih =>
    have after : Alternating rest := Alternating.right (show Alternating ([b] ++ rest) from alternating)
    have later (left : xs <:+ rest.flatMap f) : leading xs ≤ most :=
      ih after (fun c mem => drawn c (by simp [mem])) (fun c mem => short c (by simp [mem])) left
    have here := drawn b (by simp)
    obtain ⟨before, whole⟩ := left
    rw [List.flatMap_cons] at whole
    -- What is left begins among the lines of this block or after them.
    rcases List.append_eq_append_iff.1 whole with ⟨part, split, rfl⟩ | ⟨between, rfl, split⟩
    · have among (line : Line) (mem : line ∈ part) : line ∈ f b := by simp [split, mem]
      cases changed : b.changed with
      | true =>
        cases part with
        | nil => exact later (List.suffix_refl _)
        | cons line part =>
          rw [List.cons_append, leading_cons ((here.changed changed).2 line (among line (by simp)))]
          exact Nat.zero_le _
      | false =>
        obtain ⟨all, length⟩ := here.kept changed
        have part_le : part.length ≤ b.old.length := by simp [← length, split]
        rw [leading_append fun line mem => all line (among line mem),
          leading_after alternating changed fun c mem => drawn c (by simp [mem]), Nat.add_zero]
        exact part_le.trans (short b (by simp) changed)
    · exact later ⟨between, split.symm⟩

end

/-- No run of kept lines is longer than a kept block. -/
theorem length_of_infix {f : Block → List Line} {bl : List Block} (alternating : Alternating bl)
    (drawn : ∀ b ∈ bl, b.Drawn (f b)) {most : Nat}
    (short : ∀ b ∈ bl, b.changed = false → b.old.length ≤ most) (inside : xs <:+: bl.flatMap f)
    (kept : Kept xs) : xs.length ≤ most := by
  obtain ⟨before, after, whole⟩ := inside
  have left : xs ++ after <:+ bl.flatMap f := ⟨before, by rw [← whole, List.append_assoc]⟩
  exact (length_le_leading kept).trans (leading_suffix alternating drawn short left)

end FormatPreview.Diff
