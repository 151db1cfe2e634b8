import FormatPreview.Pattern.Brace
import Mathlib.Data.List.Basic

/-!
Nesting of braces. A text is balanced when it closes each brace that it opens and no other. The brace
that closes one just opened stands behind the first balanced text that a closing brace follows. A
balanced text can be exchanged for another without changing how the braces around it are closed.
-/
namespace FormatPreview.Pattern

/-- The depth of nesting after a character. -/
def deeper (depth : Nat) (c : Char) : Nat :=
  if c = '\x7b' then depth + 1 else if c = '\x7d' then depth - 1 else depth

/-- The depth of nesting after a text, unless it closes a brace that is not open. -/
def nesting? (depth : Nat) : List Char → Option Nat
  | [] => some depth
  | c :: rest => if c = '\x7d' ∧ depth = 0 then none else nesting? (deeper depth c) rest

def Balanced (text : List Char) : Prop := nesting? 0 text = some 0

/-- The text up to the first brace that closes more than is open in it, and the rest after it. -/
def closing? (depth : Nat) : List Char → Option (List Char × List Char)
  | [] => none
  | c :: rest =>
    if c = '\x7d' ∧ depth = 0 then some ([], rest)
    else (closing? (deeper depth c) rest).map fun found => (c :: found.1, found.2)

/-- How many commas stand in no brace, for a text that starts at a depth. -/
def commas (depth : Nat) : List Char → Nat
  | [] => 0
  | c :: rest => (if c = ',' ∧ depth = 0 then 1 else 0) + commas (deeper depth c) rest

/-- The parts between the commas that stand in no brace. -/
def cut (depth : Nat) : List Char → List (List Char)
  | [] => [[]]
  | c :: rest =>
    if c = ',' ∧ depth = 0 then [] :: cut depth rest
    else (cut (deeper depth c) rest).modifyHead (c :: ·)

theorem nesting?_append (depth : Nat) (first second : List Char) :
    nesting? depth (first ++ second) = (nesting? depth first).bind (nesting? · second) := by
  fun_induction nesting? depth first with
  | case1 => rfl
  | case2 depth c rest stop => simp [nesting?, stop]
  | case3 depth c rest go ih => rw [List.cons_append, nesting?, if_neg go, ih]

theorem deeper_add {depth : Nat} {c : Char} (go : ¬ (c = '\x7d' ∧ depth = 0)) (more : Nat) :
    deeper (depth + more) c = deeper depth c + more := by
  unfold deeper
  split
  · omega
  · split
    · next close => have : depth ≠ 0 := fun zero => go ⟨close, zero⟩; omega
    · rfl

theorem nesting?_add {depth after : Nat} {text : List Char} (h : nesting? depth text = some after)
    (more : Nat) : nesting? (depth + more) text = some (after + more) := by
  fun_induction nesting? depth text with
  | case1 => rw [nesting?, Option.some.inj h]
  | case2 => simp at h
  | case3 depth c rest go ih =>
    have go' : ¬ (c = '\x7d' ∧ depth + more = 0) := fun ⟨close, zero⟩ => go ⟨close, by omega⟩
    rw [nesting?, if_neg go', deeper_add go, ih h]

theorem foldl_of_nesting? {depth after : Nat} {text : List Char}
    (h : nesting? depth text = some after) : text.foldl deeper depth = after := by
  fun_induction nesting? depth text with
  | case1 => exact Option.some.inj h
  | case2 => simp at h
  | case3 depth c rest go ih => exact ih h

theorem closing?_append {depth after : Nat} {first : List Char}
    (h : nesting? depth first = some after) (second : List Char) :
    closing? depth (first ++ second) =
      (closing? after second).map fun found => (first ++ found.1, found.2) := by
  fun_induction nesting? depth first with
  | case1 => simp [Option.some.inj h]
  | case2 => simp at h
  | case3 depth c rest go ih =>
    rw [List.cons_append, closing?, if_neg go, ih h, Option.map_map]
    rfl

/-- The brace that closes is the first that returns the depth to where it was before the one that
opened. -/
theorem closing?_eq_some_iff {depth : Nat} {text inside after : List Char} :
    closing? depth text = some (inside, after) ↔
      text = inside ++ '\x7d' :: after ∧ nesting? depth inside = some 0 := by
  constructor
  · intro h
    fun_induction closing? depth text generalizing inside with
    | case1 => simp at h
    | case2 depth c rest stop =>
      obtain ⟨rfl, rfl⟩ := stop
      obtain ⟨rfl, rfl⟩ := Prod.mk.inj (Option.some.inj h)
      exact ⟨rfl, rfl⟩
    | case3 depth c rest go ih =>
      obtain ⟨⟨inner, rest'⟩, found, same⟩ := Option.map_eq_some_iff.1 h
      obtain ⟨rfl, rfl⟩ := Prod.mk.inj same
      obtain ⟨rfl, nested⟩ := ih found
      exact ⟨rfl, by rw [nesting?, if_neg go, nested]⟩
  · rintro ⟨rfl, nested⟩
    simp [closing?_append nested, closing?]

/-- A brace is never closed in a text that closes none but its own. -/
theorem closing?_eq_none_iff {depth : Nat} {text : List Char} :
    closing? depth text = none ↔ ∃ after, nesting? depth text = some after := by
  fun_induction closing? depth text with
  | case1 => simp [nesting?]
  | case2 depth c rest stop => simp [nesting?, stop]
  | case3 depth c rest go ih => rw [Option.map_eq_none_iff, ih, nesting?, if_neg go]

namespace Balanced

variable {text other : List Char}

theorem nesting?_eq (h : Balanced text) (depth : Nat) : nesting? depth text = some depth := by
  simpa using nesting?_add h depth

theorem foldl_eq (h : Balanced text) (depth : Nat) : text.foldl deeper depth = depth :=
  foldl_of_nesting? (h.nesting?_eq depth)

theorem group (h : Balanced text) : Balanced ('\x7b' :: text ++ ['\x7d']) := by
  simp [Balanced, nesting?, deeper, nesting?_append, h.nesting?_eq]

/-- Exchanging one balanced text for another changes no depth after it. -/
theorem nesting?_exchange (first : Balanced text) (second : Balanced other) (depth : Nat)
    (before after : List Char) :
    nesting? depth (before ++ text ++ after) = nesting? depth (before ++ other ++ after) := by
  simp [nesting?_append, first.nesting?_eq, second.nesting?_eq]

end Balanced

theorem commas_append (depth : Nat) (first second : List Char) :
    commas depth (first ++ second) =
      commas depth first + commas (first.foldl deeper depth) second := by
  induction first generalizing depth with
  | nil => simp [commas]
  | cons c rest ih => simp [commas, ih, Nat.add_assoc]

/-- Within a brace no comma stands in no brace. -/
theorem commas_within {depth after : Nat} {text : List Char} (h : nesting? depth text = some after)
    (more : Nat) : commas (depth + more + 1) text = 0 := by
  fun_induction nesting? depth text with
  | case1 => rfl
  | case2 => simp at h
  | case3 depth c rest go ih =>
    have further := ih h
    rw [Nat.add_assoc, ← deeper_add go] at further
    simpa [commas, Nat.add_assoc] using further

theorem Balanced.commas_group {text : List Char} (h : Balanced text) (depth : Nat) :
    commas depth ('\x7b' :: text ++ ['\x7d']) = 0 := by
  have inner : commas (depth + 1) text = 0 := by simpa using commas_within h depth
  simp [commas, deeper, commas_append, inner]

theorem Balanced.commas_eq_zero {text : List Char} (h : Balanced text) (none : commas 0 text = 0)
    (depth : Nat) : commas depth text = 0 := by
  cases depth with
  | zero => exact none
  | succ depth => simpa using commas_within h depth

theorem length_cut (depth : Nat) (text : List Char) :
    (cut depth text).length = commas depth text + 1 := by
  fun_induction cut depth text with
  | case1 => rfl
  | case2 depth c rest comma ih =>
    obtain ⟨rfl, rfl⟩ := comma
    simp [commas, deeper, ih, Nat.add_comm]
  | case3 depth c rest other ih => simp [commas, other, ih]

theorem cut_ne_nil (depth : Nat) (text : List Char) : cut depth text ≠ [] := by
  intro none
  have length := length_cut depth text
  simp [none] at length

theorem cut_of_commas {depth : Nat} {text : List Char} (none : commas depth text = 0) :
    cut depth text = [text] := by
  fun_induction cut depth text with
  | case1 => rfl
  | case2 depth c rest comma => simp [commas, comma] at none
  | case3 depth c rest other ih => simp_all [commas]

/-- The parts of a text that returns to depth zero: the first starts where the text does, and all
others at depth zero. -/
theorem nesting?_cut {depth : Nat} {text : List Char} (h : nesting? depth text = some 0) :
    (∀ part ∈ (cut depth text).head?, nesting? depth part = some 0 ∧ commas depth part = 0) ∧
      ∀ part ∈ (cut depth text).tail, Balanced part ∧ commas 0 part = 0 := by
  fun_induction cut depth text with
  | case1 => simpa [commas] using h
  | case2 depth c rest comma ih =>
    obtain ⟨rfl, rfl⟩ := comma
    obtain ⟨first, others⟩ := ih (by simpa [nesting?, deeper] using h)
    refine ⟨by simp [nesting?, commas], fun part mem => ?_⟩
    cases parts : cut 0 rest with
    | nil => exact absurd parts (cut_ne_nil 0 rest)
    | cons head tail =>
      rw [parts] at first others mem
      rcases List.mem_cons.1 mem with rfl | mem
      · exact first part rfl
      · exact others part mem
  | case3 depth c rest other ih =>
    by_cases stop : c = '\x7d' ∧ depth = 0
    · simp [nesting?, stop] at h
    · obtain ⟨first, others⟩ := ih (by simpa [nesting?, stop] using h)
      cases parts : cut (deeper depth c) rest with
      | nil => exact absurd parts (cut_ne_nil _ rest)
      | cons head tail =>
        rw [parts] at first others
        obtain ⟨nested, none⟩ := first head rfl
        refine ⟨?_, others⟩
        rintro part ⟨⟩
        exact ⟨by rw [nesting?, if_neg stop, nested], by simp [commas, other, none]⟩

theorem balanced_of_mem_cut {text part : List Char} (h : Balanced text) (mem : part ∈ cut 0 text) :
    Balanced part ∧ commas 0 part = 0 := by
  obtain ⟨first, others⟩ := nesting?_cut h
  cases parts : cut 0 text with
  | nil => exact absurd parts (cut_ne_nil 0 text)
  | cons head tail =>
    rw [parts] at first others mem
    rcases List.mem_cons.1 mem with rfl | mem
    · exact first part rfl
    · exact others part mem

end FormatPreview.Pattern
