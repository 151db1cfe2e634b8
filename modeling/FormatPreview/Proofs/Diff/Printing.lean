import FormatPreview.Diff.Patch
import FormatPreview.Proofs.Diff.Reading
import FormatPreview.Proofs.Text.Line

/-!
Printed hunks are read back. Reading fails exactly when a header counts other than what follows it,
whatever the lines hold: no marked line looks like a header or like the remark.
-/
namespace FormatPreview.Diff

namespace Reading

theorem number?_append (n : Nat) {c : Char} (rest : List Char) (stop : c.isDigit = false) :
    number? (Nat.toDigits 10 n ++ c :: rest) = some (n, c :: rest) := by
  have digits : ∀ d ∈ Nat.toDigits 10 n, d.isDigit = true := fun d mem =>
    Nat.isDigit_of_mem_toDigits (by decide) (by decide) mem
  have front : (Nat.toDigits 10 n ++ c :: rest).takeWhile Char.isDigit = Nat.toDigits 10 n := by
    rw [List.takeWhile_append_of_pos digits, List.takeWhile_cons_of_neg (by simp [stop]),
      List.append_nil]
  have back : (Nat.toDigits 10 n ++ c :: rest).dropWhile Char.isDigit = c :: rest := by
    rw [List.dropWhile_append_of_pos digits, List.dropWhile_cons_of_neg (by simp [stop])]
  unfold number?
  rw [front, back]
  split
  · next none => exact absurd none Nat.toDigits_ne_nil
  · rw [Nat.ofDigitChars_ten_toDigits]

theorem range?_append (s : Span) {c : Char} (rest : List Char) (stop : c.isDigit = false)
    (apart : c ≠ ',') :
    range? ((range s.start s.stop).toList ++ c :: rest) = some (s, c :: rest) := by
  obtain ⟨start, length⟩ := s
  have count : Span.stop ⟨start, length⟩ - start = length := Nat.add_sub_cancel_left _ _
  simp only [range, count]
  by_cases one : length = 1
  · simp [one, range?, number?_append, stop, apart]
  · by_cases none : length = 0
    · subst none
      have zero : number? ('0' :: c :: rest) = some (0, c :: rest) := number?_append 0 rest stop
      simp [range?, number?_append, zero]
    · simp [one, none, range?, number?_append, stop]

end Reading

def Edit.Kind.mark : Edit.Kind → String
  | .kept => " "
  | .deleted => "-"
  | .inserted => "+"

/-- The lines of a patch for a marked line. -/
def printedLine (line : Edit.Kind × String) : List String :=
  if Text.terminated line.2 then [line.1.mark ++ line.2]
  else [line.1.mark ++ line.2 ++ "\n", Reading.remark]

theorem join_printedLine (kind : Edit.Kind) (line : String) :
    String.join (printedLine (kind, line)) = marked kind.mark line := by
  unfold printedLine marked
  split <;> simp [Reading.remark, *, String.append_assoc]

theorem plain_repr (n : Nat) : Text.Plain (toString n) := by
  intro c mem
  have digit := Text.isDigit_of_mem_toString mem
  rintro (rfl | rfl) <;> simp at digit

theorem plain_range (start stop : Nat) : Text.Plain (range start stop) := by
  simp only [range]
  split
  · exact plain_repr _
  · split
    · exact (plain_repr _).append (by simp [Text.Plain])
    · exact ((plain_repr _).append (by simp [Text.Plain])).append (plain_repr _)

namespace Section

def header (s : Section) : String :=
  "@@ -" ++ Diff.range s.old.start s.old.stop ++ " +" ++ Diff.range s.new.start s.new.stop ++ " @@\n"

def printed (s : Section) : List String := s.header :: s.lines.flatMap printedLine

/-- The header counts the lines that follow it. -/
def Counted (s : Section) : Prop :=
  s.old.length = (s.shown .old).length ∧ s.new.length = (s.shown .new).length

instance (s : Section) : Decidable s.Counted := inferInstanceAs (Decidable (_ ∧ _))

theorem header?_header (s : Section) : Reading.header? s.header = some (s.old, s.new) := by
  have text : s.header.toList = '@' :: '@' :: ' ' :: '-' ::
      ((Diff.range s.old.start s.old.stop).toList ++ ' ' :: '+' ::
        ((Diff.range s.new.start s.new.stop).toList ++ ' ' :: ['@', '@', '\n'])) := by
    simp [header]
  simp [Reading.header?, text, Reading.range?_append]

/-- The header without its line feed. -/
def ranges (s : Section) : String :=
  "@@ -" ++ Diff.range s.old.start s.old.stop ++ " +" ++ Diff.range s.new.start s.new.stop ++ " @@"

theorem header_eq (s : Section) : s.header = s.ranges ++ "\n" := by
  simp [header, ranges, String.append_assoc]

theorem plain_ranges (s : Section) : Text.Plain s.ranges :=
  ((((show Text.Plain "@@ -" by simp [Text.Plain]).append (plain_range _ _)).append
    (by simp [Text.Plain])).append (plain_range _ _)).append (by simp [Text.Plain])

theorem separate_header (s : Section) : Text.Separate s.header := by
  have text : s.header.toList = s.ranges.toList ++ ['\n'] := by
    rw [header_eq, String.toList_append]
    rfl
  refine ⟨?_, (Text.terminated_iff _).2 (.inl ?_), by simp [header]⟩
  · rw [Text.IsLine, text]
    exact Text.charLines_plain s.plain_ranges
  · rw [text, List.getLast?_concat]

end Section

theorem mark_chars (kind : Edit.Kind) :
    ∃ c, kind.mark.toList = [c] ∧ ¬ (c = '\n' ∨ c = '\r') := by
  cases kind <;> exact ⟨_, rfl, by decide⟩

theorem separate_printedLine {line : Edit.Kind × String} (whole : Text.IsLine line.2) :
    ∀ text ∈ printedLine line, Text.Separate text := by
  obtain ⟨c, mark, inner⟩ := mark_chars line.1
  have chars : (line.1.mark ++ line.2).toList = c :: line.2.toList := by simp [mark]
  have one : Text.IsLine (line.1.mark ++ line.2) := by
    rw [Text.IsLine, chars]
    exact Text.charLines_cons inner whole
  have some : line.2.toList ≠ [] := by
    intro none
    simp [Text.IsLine, none, Text.charLines] at whole
  have last : (line.1.mark ++ line.2).toList.getLast? = line.2.toList.getLast? := by
    rw [chars, List.getLast?_cons_of_ne_nil some]
  have apart : c ≠ '\n' := fun same => inner (.inl same)
  unfold printedLine
  split
  · next ended =>
    rw [Text.terminated_iff, ← last] at ended
    simpa using ⟨one, (Text.terminated_iff _).2 ended, by simp [mark, apart]⟩
  · next ended =>
    rw [Text.terminated_iff, ← last] at ended
    have closed : (line.1.mark ++ line.2 ++ "\n").toList =
        (line.1.mark ++ line.2).toList ++ ['\n'] := by
      simp
    simp only [List.mem_cons, List.not_mem_nil, or_false, forall_eq_or_imp, forall_eq]
    refine ⟨⟨?_, (Text.terminated_iff _).2 (.inl ?_), by simp [mark, apart]⟩, ?_⟩
    · rw [Text.IsLine, closed]
      exact Text.charLines_close one ended
    · rw [closed, List.getLast?_concat]
    · exact ⟨by simp [Text.IsLine, Reading.remark, Text.charLines], by decide, by decide⟩

theorem separate_printed {s : Section} (whole : ∀ line ∈ s.lines, Text.IsLine line.2) :
    ∀ text ∈ s.printed, Text.Separate text := by
  intro text mem
  rcases List.mem_cons.1 mem with rfl | mem
  · exact s.separate_header
  · obtain ⟨line, shown, mem⟩ := List.mem_flatMap.1 mem
    exact separate_printedLine (whole line shown) text mem

/-- What the lines of a patch say of a hunk, once remarks are taken back. -/
def Section.texts (s : Section) : List String := s.header :: s.lines.map fun l => l.1.mark ++ l.2

namespace Reading

theorem resolve_cons (line : String) {rest : List String} (apart : rest.head? ≠ some remark) :
    resolve (line :: rest) = line :: resolve rest := by
  cases rest with
  | nil => rfl
  | cons next rest => exact if_neg fun same => apart (congrArg some same)

theorem header_ne_remark (s : Section) : s.header ≠ remark := by
  intro same
  have chars := congrArg String.toList same
  simp [Section.header, remark] at chars

theorem mark_ne_remark (kind : Edit.Kind) (line : String) : kind.mark ++ line ≠ remark := by
  intro same
  have chars := congrArg String.toList same
  cases kind <;> simp [Edit.Kind.mark, remark] at chars

theorem head_printedLine (line : Edit.Kind × String) (rest : List String) :
    (printedLine line ++ rest).head? ≠ some remark := by
  unfold printedLine
  split
  · simpa using mark_ne_remark _ _
  · simpa [String.append_assoc] using mark_ne_remark _ _

theorem head_lines (lines : List (Edit.Kind × String)) {rest : List String}
    (apart : rest.head? ≠ some remark) :
    (lines.flatMap printedLine ++ rest).head? ≠ some remark := by
  cases lines with
  | nil => exact apart
  | cons line lines =>
    rw [List.flatMap_cons, List.append_assoc]
    exact head_printedLine _ _

theorem head_printed (sections : List Section) :
    (sections.flatMap Section.printed).head? ≠ some remark := by
  cases sections with
  | nil => simp
  | cons s rest => simpa [Section.printed] using header_ne_remark s

theorem resolve_printedLine (line : Edit.Kind × String) {rest : List String}
    (apart : rest.head? ≠ some remark) :
    resolve (printedLine line ++ rest) = (line.1.mark ++ line.2) :: resolve rest := by
  unfold printedLine
  split
  · exact resolve_cons _ apart
  · simp [resolve]

theorem resolve_lines (lines : List (Edit.Kind × String)) {rest : List String}
    (apart : rest.head? ≠ some remark) :
    resolve (lines.flatMap printedLine ++ rest) =
      lines.map (fun l => l.1.mark ++ l.2) ++ resolve rest := by
  induction lines with
  | nil => rfl
  | cons line lines ih =>
    rw [List.flatMap_cons, List.append_assoc, resolve_printedLine line (head_lines lines apart), ih,
      List.map_cons, List.cons_append]

theorem resolve_printed (sections : List Section) :
    resolve (sections.flatMap Section.printed) = sections.flatMap Section.texts := by
  induction sections with
  | nil => rfl
  | cons s rest ih =>
    have apart := head_printed rest
    rw [List.flatMap_cons, Section.printed, List.cons_append,
      resolve_cons _ (head_lines s.lines apart), resolve_lines _ apart, ih]
    rfl

theorem marked?_mark (line : Edit.Kind × String) :
    marked? (line.1.mark ++ line.2) = some line := by
  obtain ⟨kind, text⟩ := line
  cases kind <;> simp [marked?, Edit.Kind.mark]

theorem marked?_header (s : Section) : marked? s.header = none := by
  simp [marked?, Section.header]

theorem header?_mark (line : Edit.Kind × String) :
    header? (line.1.mark ++ line.2) = none := by
  obtain ⟨kind, text⟩ := line
  cases kind <;> simp [header?, Edit.Kind.mark]

theorem length_shownLines (side : Side) (line : Edit.Kind × String)
    (lines : List (Edit.Kind × String)) :
    (shownLines side (line :: lines)).length =
      (line.1.shown side).toNat + (shownLines side lines).length := by
  cases shown : line.1.shown side <;> simp [shownLines, shown, Nat.add_comm]

theorem owed_iff (shown : Bool) (count length : Nat) :
    ((shown → count ≠ 0) ∧ count - shown.toNat = length) ↔ count = shown.toNat + length := by
  cases shown
  · simp
  · simp only [Bool.toNat_true, forall_const]
    omega

/-- Marked lines are read as far as the counts go, which has to be to the end of them. -/
theorem sections?_lines (lines : List (Edit.Kind × String)) {rest : List String}
    (stop : ∀ old new, ¬ (old = 0 ∧ new = 0) → sections? old new rest = none) (old new : Nat) :
    sections? old new (lines.map (fun l => l.1.mark ++ l.2) ++ rest) =
      if old = (shownLines .old lines).length ∧ new = (shownLines .new lines).length then
        (sections? 0 0 rest).map fun (more, sections) => (lines ++ more, sections)
      else none := by
  induction lines generalizing old new with
  | nil =>
    by_cases zero : old = 0 ∧ new = 0
    · obtain ⟨rfl, rfl⟩ := zero
      simp [shownLines]
    · simp [shownLines, zero, stop old new zero]
  | cons line lines ih =>
    simp only [List.map_cons, List.cons_append, sections?, length_shownLines]
    by_cases zero : old = 0 ∧ new = 0
    · have some : line.1.shown .old = true ∨ line.1.shown .new = true := by
        cases line.1 <;> decide
      rw [if_pos zero, header?_mark, if_neg]
      rcases some with shown | shown <;> rw [shown, Bool.toNat_true] <;> omega
    · simp only [zero, if_false, marked?_mark, ih, ← owed_iff]
      by_cases owed : (line.1.shown .old → old ≠ 0) ∧ (line.1.shown .new → new ≠ 0)
      · by_cases counts : old - (line.1.shown .old).toNat = (shownLines .old lines).length ∧
            new - (line.1.shown .new).toNat = (shownLines .new lines).length
        · rw [if_pos owed, if_pos counts, if_pos ⟨⟨owed.1, counts.1⟩, owed.2, counts.2⟩]
          cases sections? 0 0 rest <;> rfl
        · rw [if_pos owed, if_neg counts, if_neg fun all => counts ⟨all.1.2, all.2.2⟩]
          rfl
      · rw [if_neg owed, if_neg fun all => owed ⟨all.1.1, all.2.1⟩]

theorem sections?_texts (sections : List Section) :
    sections? 0 0 (sections.flatMap Section.texts) =
      if ∀ s ∈ sections, s.Counted then some ([], sections) else none := by
  induction sections with
  | nil => rfl
  | cons s more ih =>
    have stop : ∀ old new, ¬ (old = 0 ∧ new = 0) →
        sections? old new (more.flatMap Section.texts) = none := by
      intro old new owed
      cases more with
      | nil => exact if_neg owed
      | cons next more =>
        rw [List.flatMap_cons, Section.texts, List.cons_append, sections?, if_neg owed,
          marked?_header]
    rw [List.flatMap_cons, Section.texts, List.cons_append, sections?, if_pos ⟨rfl, rfl⟩,
      s.header?_header]
    simp only [sections?_lines _ stop, ih]
    by_cases counted : s.Counted
    · have lengths := counted
      rw [Section.Counted, Section.shown, Section.shown] at lengths
      simp [lengths, counted]
    · have lengths := counted
      rw [Section.Counted, Section.shown, Section.shown] at lengths
      simp [lengths, counted]

/-- Hunks whose lines are whole are read as they were printed, if their headers count right. -/
theorem patch?_printed {sections : List Section}
    (whole : ∀ s ∈ sections, ∀ line ∈ s.lines, Text.IsLine line.2) :
    patch? (String.join (sections.flatMap Section.printed)) =
      if ∀ s ∈ sections, s.Counted then some sections else none := by
  have separate : ∀ text ∈ sections.flatMap Section.printed, Text.Separate text := by
    intro text mem
    obtain ⟨s, inside, mem⟩ := List.mem_flatMap.1 mem
    exact separate_printed (whole s inside) text mem
  rw [patch?, Text.lines_join separate, resolve_printed, sections?_texts]
  split <;> rfl

end Reading

end FormatPreview.Diff
