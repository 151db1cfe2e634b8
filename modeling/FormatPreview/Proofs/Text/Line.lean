import FormatPreview.Text.Line

/-!
Lines put together are the same lines again when each is whole and carries a terminator. This holds
for lines of a text with something in front of them, so the lines of a patch can be told apart. Where
no carriage return stands alone, every line but the last ends in a line feed and holds no other.
-/
namespace FormatPreview.Text

theorem charLines_eq_nil {cs : List Char} (none : charLines cs = []) : cs = [] := by
  have whole := flatten_charLines cs
  rw [none] at whole
  exact whole.symm

theorem charLines_cons {c : Char} (inner : ¬ (c = '\n' ∨ c = '\r')) {line : List Char}
    {more : List (List Char)} {rest : List Char} (cut : charLines rest = line :: more) :
    charLines (c :: rest) = (c :: line) :: more := by
  rw [charLines.eq_3 _ _ (fun _ back _ => inner (.inr back)), if_neg inner, cut]

theorem charLines_of_mem {cs line : List Char} (mem : line ∈ charLines cs) :
    charLines line = [line] := by
  fun_induction charLines cs generalizing line with
  | case1 => simp at mem
  | case2 rest ih =>
    rcases List.mem_cons.1 mem with rfl | mem
    · rfl
    · exact ih mem
  | case3 c rest _ ended ih =>
    rcases List.mem_cons.1 mem with rfl | mem
    · simp [charLines, ended]
    · exact ih mem
  | case4 c rest _ inner empty ih =>
    obtain rfl := List.mem_singleton.1 mem
    simp [charLines, inner]
  | case5 c rest _ inner first more cut ih =>
    rcases List.mem_cons.1 mem with rfl | mem
    · exact charLines_cons inner (ih (by simp [cut]))
    · exact ih (by simp [cut, mem])

/-- A terminated line ends where the next begins. -/
theorem charLines_append {line rest : List Char} (one : charLines line = [line])
    (ended : line.getLast? = some '\n' ∨ line.getLast? = some '\r')
    (apart : rest.head? ≠ some '\n') : charLines (line ++ rest) = line :: charLines rest := by
  fun_induction charLines line with
  | case1 => simp at one
  | case2 after ih =>
    obtain rfl := charLines_eq_nil (List.cons.inj one).2
    simp [charLines]
  | case3 c after _ stop ih =>
    obtain rfl := charLines_eq_nil (List.cons.inj one).2
    rw [List.singleton_append, charLines.eq_3, if_pos stop]
    rintro rest' rfl rfl
    simp at apart
  | case4 c after _ inner empty ih =>
    obtain rfl := charLines_eq_nil empty
    simp_all
  | case5 c after _ inner first more cut ih =>
    obtain ⟨same, rfl⟩ := List.cons.inj one
    obtain rfl := (List.cons.inj same).2
    have some : first ≠ [] := by
      rintro rfl
      simp [charLines] at cut
    rw [List.getLast?_cons_of_ne_nil some] at ended
    exact charLines_cons inner (ih cut ended)

theorem charLines_close {line : List Char} (one : charLines line = [line])
    (ended : ¬ (line.getLast? = some '\n' ∨ line.getLast? = some '\r')) :
    charLines (line ++ ['\n']) = [line ++ ['\n']] := by
  fun_induction charLines line with
  | case1 => simp at one
  | case2 after ih =>
    obtain rfl := charLines_eq_nil (List.cons.inj one).2
    simp at ended
  | case3 c after _ stop ih =>
    obtain rfl := charLines_eq_nil (List.cons.inj one).2
    simp [stop] at ended
  | case4 c after _ inner empty ih =>
    obtain rfl := charLines_eq_nil empty
    exact charLines_cons inner (by simp [charLines])
  | case5 c after _ inner first more cut ih =>
    obtain ⟨same, rfl⟩ := List.cons.inj one
    obtain rfl := (List.cons.inj same).2
    have some : first ≠ [] := by
      rintro rfl
      simp [charLines] at cut
    rw [List.getLast?_cons_of_ne_nil some] at ended
    exact charLines_cons inner (ih cut ended)

theorem feed_notMem_dropLast {line : List Char} (one : charLines line = [line]) :
    '\n' ∉ line.dropLast := by
  fun_induction charLines line with
  | case1 => simp at one
  | case2 after ih =>
    obtain rfl := charLines_eq_nil (List.cons.inj one).2
    simp
  | case3 c after _ stop ih =>
    obtain rfl := charLines_eq_nil (List.cons.inj one).2
    simp
  | case4 c after _ inner empty ih =>
    obtain rfl := charLines_eq_nil empty
    simp
  | case5 c after _ inner first more cut ih =>
    obtain ⟨same, rfl⟩ := List.cons.inj one
    obtain rfl := (List.cons.inj same).2
    have some : first ≠ [] := by
      rintro rfl
      simp [charLines] at cut
    have apart : '\n' ≠ c := fun same => inner (.inl same.symm)
    rw [List.dropLast_cons_of_ne_nil some, List.mem_cons, not_or]
    exact ⟨apart, ih cut⟩

/-- A line without its last character is no more than a line. -/
theorem length_charLines_dropLast {line : List Char} (one : charLines line = [line]) :
    (charLines line.dropLast).length ≤ 1 := by
  fun_induction charLines line with
  | case1 => simp at one
  | case2 after ih =>
    obtain rfl := charLines_eq_nil (List.cons.inj one).2
    simp [charLines]
  | case3 c after _ stop ih =>
    obtain rfl := charLines_eq_nil (List.cons.inj one).2
    simp [charLines]
  | case4 c after _ inner empty ih =>
    obtain rfl := charLines_eq_nil empty
    simp [charLines]
  | case5 c after _ inner first more cut ih =>
    obtain ⟨same, rfl⟩ := List.cons.inj one
    obtain rfl := (List.cons.inj same).2
    have some : first ≠ [] := by
      rintro rfl
      simp [charLines] at cut
    have less := ih cut
    rw [List.dropLast_cons_of_ne_nil some]
    cases rest : charLines first.dropLast with
    | nil =>
      rw [charLines_eq_nil rest]
      simp [charLines, inner]
    | cons line more =>
      rw [rest] at less
      rwa [charLines_cons inner rest]

/-- Every carriage return has a line feed after it. -/
def Paired (cs : List Char) : Prop :=
  ∀ before after, cs = before ++ '\r' :: after → after.head? = some '\n'

@[simp] theorem paired_nil : Paired [] := by
  simp [Paired]

theorem paired_cons {c : Char} {rest : List Char} :
    Paired (c :: rest) ↔ (c = '\r' → rest.head? = some '\n') ∧ Paired rest := by
  constructor
  · intro paired
    exact ⟨fun same => paired [] rest (by rw [same, List.nil_append]),
      fun before after cut => paired (c :: before) after (by rw [cut, List.cons_append])⟩
  · rintro ⟨here, there⟩ before after cut
    cases before with
    | nil =>
      obtain ⟨rfl, rfl⟩ := List.cons.inj cut
      exact here rfl
    | cons first before => exact there before after (List.cons.inj cut).2

theorem last_of_paired {cs line : List Char} (paired : Paired cs) (mem : line ∈ charLines cs) :
    line.getLast? ≠ some '\r' := by
  fun_induction charLines cs generalizing line with
  | case1 => simp at mem
  | case2 rest ih =>
    rcases List.mem_cons.1 mem with rfl | mem
    · simp
    · exact ih (paired_cons.1 (paired_cons.1 paired).2).2 mem
  | case3 c rest alone stop ih =>
    rcases List.mem_cons.1 mem with rfl | mem
    · rintro last
      obtain rfl : c = '\r' := by simpa using last
      obtain ⟨rest', rfl⟩ := List.head?_eq_some_iff.1 ((paired_cons.1 paired).1 rfl)
      exact alone rest' rfl rfl
    · exact ih (paired_cons.1 paired).2 mem
  | case4 c rest _ inner empty ih =>
    obtain rfl := List.mem_singleton.1 mem
    intro last
    exact inner (.inr (by simpa using last))
  | case5 c rest _ inner first more cut ih =>
    rcases List.mem_cons.1 mem with rfl | mem
    · have some : first ≠ [] := by
        rintro rfl
        have empty : [] ∈ charLines rest := by simp [cut]
        simpa [charLines] using charLines_of_mem empty
      rw [List.getLast?_cons_of_ne_nil some]
      exact ih (paired_cons.1 paired).2 (by simp [cut])
    · exact ih (paired_cons.1 paired).2 (by simp [cut, mem])

def Plain (text : String) : Prop := ∀ c ∈ text.toList, ¬ (c = '\n' ∨ c = '\r')

theorem Plain.append {first second : String} (left : Plain first) (right : Plain second) :
    Plain (first ++ second) := by
  intro c mem
  rw [String.toList_append] at mem
  exact (List.mem_append.1 mem).elim (left c) (right c)

theorem isDigit_of_mem_toString {n : Nat} {c : Char} (mem : c ∈ (toString n).toList) :
    c.isDigit = true := by
  rw [Nat.toString_eq_ofList_toDigits, String.toList_ofList] at mem
  exact Nat.isDigit_of_mem_toDigits (by decide) (by decide) mem

theorem charLines_plain {body : List Char} (plain : ∀ c ∈ body, ¬ (c = '\n' ∨ c = '\r')) :
    charLines (body ++ ['\n']) = [body ++ ['\n']] := by
  induction body with
  | nil => simp [charLines]
  | cons c body ih =>
    exact charLines_cons (plain c (by simp)) (ih fun c mem => plain c (by simp [mem]))

theorem terminated_iff (line : String) :
    terminated line = true ↔
      line.toList.getLast? = some '\n' ∨ line.toList.getLast? = some '\r' := by
  unfold terminated
  cases line.toList.getLast? <;> simp

def IsLine (line : String) : Prop := charLines line.toList = [line.toList]

theorem isLine_of_mem {text line : String} (mem : line ∈ lines text) : IsLine line := by
  obtain ⟨cs, inside, rfl⟩ := List.mem_map.1 mem
  rw [IsLine, String.toList_ofList]
  exact charLines_of_mem inside

theorem join_lines (text : String) : String.join (lines text) = text := by
  rw [← String.toList_inj, String.toList_join, lines, List.flatMap_map]
  simp [List.flatMap_def, flatten_charLines]

/-- A line that can stand in a patch: it is whole, and no line feed that it begins with could belong
to the line before it. -/
structure Separate (line : String) : Prop where
  whole : IsLine line
  ended : terminated line = true
  apart : line.toList.head? ≠ some '\n'

theorem lines_join {texts : List String} (separate : ∀ text ∈ texts, Separate text) :
    lines (String.join texts) = texts := by
  induction texts with
  | nil => rfl
  | cons text rest ih =>
    have here := separate text (by simp)
    have apart : (String.join rest).toList.head? ≠ some '\n' := by
      cases rest with
      | nil => simp
      | cons next rest =>
        have there := separate next (by simp)
        rw [String.join_cons, String.toList_append, List.head?_append]
        cases chars : next.toList with
        | nil => simpa [IsLine, chars, charLines] using there.whole
        | cons c cs => simpa [chars] using there.apart
    have further := ih fun text mem => separate text (by simp [mem])
    rw [lines, String.join_cons, String.toList_append,
      charLines_append here.whole ((terminated_iff text).1 here.ended) apart, List.map_cons,
      String.ofList_toList]
    exact congrArg _ further

end FormatPreview.Text
