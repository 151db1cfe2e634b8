import FormatPreview.Proofs.Diff.Excerpt
import FormatPreview.Proofs.Diff.Row

/-!
Patches as tools read them that know no other line end than a line feed. A patch is in the unified
format for them when each header counts the rows under it and no row holds more than one line of the
texts. The lines of a patch are rows of it, save that a line which ends in a lone carriage return
runs on into the next. So the format is kept exactly when the headers count right and no such line is
shown before the last.
-/
namespace FormatPreview.Diff

/-- A hunk cut at line feeds: the ranges of its header, and the rows under it. -/
structure Listing where
  old : Span
  new : Span
  rows : List String

def Listing.ranges (l : Listing) : String := Section.ranges ⟨l.old, l.new, []⟩

/-- Each row has a mark or is the remark, the header counts them, and none is more than a line. -/
structure Listing.Unified (l : Listing) : Prop where
  marked : ∀ row ∈ l.rows, row.toList.head? ∈ [some ' ', some '-', some '+'] ∨
    row = "\\ No newline at end of file"
  old : l.rows.countP (·.toList.head? ∈ [some ' ', some '-']) = l.old.length
  new : l.rows.countP (·.toList.head? ∈ [some ' ', some '+']) = l.new.length
  single : ∀ row ∈ l.rows, (Text.lines row).length ≤ 1

/-- The pieces of hunks, with what follows the last line feed. -/
def Listing.pieces (listings : List Listing) (last : List String) : List String :=
  listings.flatMap (fun l => l.ranges :: l.rows) ++ last

/-- A patch that is in the unified format where line feeds alone end a line: two rows with the names,
and then hunks. What follows the last line feed is either empty or the last row. -/
def Unified (name patch : String) : Prop :=
  ∃ (listings : List Listing) (last : List String),
    Text.pieces patch = ("--- a/" ++ name) :: ("+++ b/" ++ name) :: Listing.pieces listings last ∧
    (last = [] ∨ last = [""]) ∧ ∀ l ∈ listings, l.Unified

/-! The pieces of printed lines. -/

/-- Each text but the last ends in a line feed. -/
def Stopped (texts : List String) : Prop :=
  ∀ text ∈ texts.dropLast, text.toList.getLast? = some '\n'

theorem feed_notMem_of_whole {text : String} (whole : Text.IsLine text) :
    '\n' ∉ (bare text).toList :=
  feed_notMem_bare (Text.feed_notMem_dropLast whole)

theorem bare_of_not_fed {text : String} (other : ¬ text.toList.getLast? = some '\n') :
    bare text = text := if_neg other

/-- Lines that run into none after them are the pieces of their text. -/
theorem pieces_join_bare {texts : List String} (some : texts ≠ [])
    (whole : ∀ text ∈ texts, Text.IsLine text) (stopped : Stopped texts) :
    ∃ last, (last = [] ∨ last = [""]) ∧
      Text.pieces (String.join texts) = texts.map bare ++ last := by
  induction texts with
  | nil => exact absurd rfl some
  | cons text rest ih =>
    obtain ⟨here, later⟩ := List.forall_mem_cons.1 whole
    have inner := feed_notMem_of_whole here
    by_cases feed : text.toList.getLast? = .some '\n'
    · have cut := Text.pieces_feed inner (String.join rest)
      rw [bare_append feed] at cut
      rw [String.join_cons, cut]
      cases rest with
      | nil => exact ⟨[""], .inr rfl, rfl⟩
      | cons next rest =>
        obtain ⟨last, ended, pieces⟩ := ih (by simp) later fun text mem =>
          stopped text (by rw [List.dropLast_cons_of_ne_nil (by simp)]; exact .tail _ mem)
        exact ⟨last, ended, by rw [pieces]; rfl⟩
    · cases rest with
      | nil =>
        rw [bare_of_not_fed feed] at inner
        exact ⟨[], .inl rfl, by simp [Text.pieces_plain inner, bare_of_not_fed feed]⟩
      | cons next rest =>
        exact absurd
          (stopped text (by rw [List.dropLast_cons_of_ne_nil (by simp)]; exact .head _)) feed

theorem ne_nil_of_isLine {text : String} (whole : Text.IsLine text) : text.toList ≠ [] := by
  intro none
  simp [Text.IsLine, none, Text.charLines] at whole

/-- A text that can stand after another begins its first piece. -/
theorem exists_piece {text : String} (separate : Text.Separate text) (rest : List String) :
    ∃ c first more, c ≠ '\n' ∧
      Text.charPieces (String.join (text :: rest)).toList = (c :: first) :: more := by
  obtain ⟨c, cs, chars⟩ := List.exists_cons_of_ne_nil (ne_nil_of_isLine separate.whole)
  have apart : c ≠ '\n' := fun same => separate.apart (by rw [chars, same]; rfl)
  rw [String.join_cons, String.toList_append, chars, List.cons_append, Text.charPieces,
    if_neg apart]
  cases Text.charPieces (cs ++ (String.join rest).toList) with
  | nil => exact ⟨c, [], [], apart, rfl⟩
  | cons first more => exact ⟨c, first, more, apart, rfl⟩

/-- A line that runs into the next is in a piece of more than one line. -/
theorem stopped_of_single {texts : List String} (separate : ∀ text ∈ texts, Text.Separate text)
    (headed : ∀ text ∈ texts, text.toList.head? = some '@' → text.toList.getLast? = some '\n')
    (single : ∀ piece ∈ Text.pieces (String.join texts),
      piece.toList.head? = some '@' ∨ (Text.lines piece).length ≤ 1) : Stopped texts := by
  induction texts with
  | nil => simp [Stopped]
  | cons text rest ih =>
    obtain ⟨here, later⟩ := List.forall_mem_cons.1 separate
    obtain ⟨header, headers⟩ := List.forall_mem_cons.1 headed
    cases rest with
    | nil => simp [Stopped]
    | cons next rest =>
      by_cases feed : text.toList.getLast? = some '\n'
      · have cut := Text.pieces_feed (feed_notMem_of_whole here.whole) (String.join (next :: rest))
        rw [bare_append feed] at cut
        rw [String.join_cons, cut] at single
        have stopped := ih later headers fun piece mem => single piece (.tail _ mem)
        intro other mem
        rw [List.dropLast_cons_of_ne_nil (by simp)] at mem
        rcases List.mem_cons.1 mem with rfl | mem
        · exact feed
        · exact stopped other mem
      · exfalso
        have ended := (Text.terminated_iff text).1 here.ended
        have inner := feed_notMem_of_whole here.whole
        rw [bare_of_not_fed feed] at inner
        obtain ⟨c, first, more, apart, cut⟩ := exists_piece (List.forall_mem_cons.1 later).1 rest
        have piece : String.ofList (text.toList ++ c :: first) ∈
            Text.pieces (String.join (text :: next :: rest)) := by
          rw [Text.pieces, String.join_cons, String.toList_append, Text.charPieces_append inner cut]
          exact .head _
        rcases single _ piece with header' | short
        · rw [String.toList_ofList,
            List.head?_append_of_ne_nil _ (ne_nil_of_isLine here.whole)] at header'
          exact feed (header header')
        · have apart : (c :: first).head? ≠ some '\n' := by simpa using apart
          rw [Text.lines, String.toList_ofList,
            Text.charLines_append here.whole ended apart] at short
          have none : Text.charLines (c :: first) = [] := by simpa using short
          simpa using Text.charLines_eq_nil none

/-! The rows of printed hunks. -/

theorem bare_append_right (first : String) {text : String} (some : text.toList ≠ []) :
    bare (first ++ text) = first ++ bare text := by
  have last : (first ++ text).toList.getLast? = text.toList.getLast? := by
    rw [String.toList_append, List.getLast?_append_of_ne_nil _ some]
  unfold bare
  rw [last]
  split
  · rw [← String.toList_inj, String.toList_ofList, String.toList_append, String.toList_append,
      String.toList_ofList, List.dropLast_append_of_ne_nil some]
  · rfl

theorem bare_printedLine {line : Edit.Kind × String} (whole : Text.IsLine line.2) :
    (printedLine line).map bare = (lineRows line).map (·.text) := by
  have some := ne_nil_of_isLine whole
  have remark : bare Reading.remark = "\\ No newline at end of file" := by decide
  have feed : bare "\n" = "" := by decide
  unfold printedLine lineRows
  by_cases ended : Text.terminated line.2 = true
  · simp [ended, bare_append_right _ some]
  · have other : ¬ line.2.toList.getLast? = .some '\n' := fun feed =>
      ended ((Text.terminated_iff _).2 (.inl feed))
    simp [ended, bare_append_right, feed, remark, bare_of_not_fed other, String.append_assoc]

/-- The hunk that a section stands for, cut at line feeds. -/
def Section.listing (s : Section) : Listing :=
  ⟨s.old, s.new, (s.lines.flatMap lineRows).map (·.text)⟩

theorem bare_printed {s : Section} (whole : ∀ line ∈ s.lines, Text.IsLine line.2) :
    s.printed.map bare = s.listing.ranges :: s.listing.rows := by
  have header : bare s.header = s.ranges := by
    have feed : bare "\n" = "" := by decide
    rw [s.header_eq, bare_append_right _ (by decide), feed, String.append_empty]
  rw [Section.printed, List.map_cons, header, List.map_flatMap, Section.listing, List.map_flatMap]
  exact congrArg _ (List.flatMap_congr fun line mem => bare_printedLine (whole line mem))

theorem isLine_marked (kind : Edit.Kind) {text : String} (whole : Text.IsLine text) :
    Text.IsLine (kind.mark ++ text) := by
  obtain ⟨c, mark, inner⟩ := mark_chars kind
  have chars : (kind.mark ++ text).toList = c :: text.toList := by simp [mark]
  rw [Text.IsLine, chars]
  exact Text.charLines_cons inner whole

theorem length_lines_bare {text : String} (whole : Text.IsLine text) :
    (Text.lines (bare text)).length ≤ 1 := by
  unfold bare
  split
  · rw [Text.lines, String.toList_ofList, List.length_map]
    exact Text.length_charLines_dropLast whole
  · rw [Text.lines, whole]
    exact Nat.le_refl 1

theorem countP_rows_shown (side : Side) (lines : List (Edit.Kind × String)) :
    ((lines.flatMap lineRows).map (·.text)).countP
        (·.toList.head? ∈ [some ' ', side.changed.mark.toList.head?]) =
      (shownLines side lines).length := by
  induction lines with
  | nil => rfl
  | cons line lines ih =>
    rw [List.flatMap_cons, List.map_append, List.countP_append, ih, Reading.length_shownLines]
    congr 1
    obtain ⟨kind, text⟩ := line
    unfold lineRows
    cases kind <;> cases side <;> split <;>
      simp [Edit.Kind.mark, Side.changed, Edit.Kind.shown]

theorem marked_listing (s : Section) : ∀ row ∈ s.listing.rows,
    row.toList.head? ∈ [some ' ', some '-', some '+'] ∨ row = "\\ No newline at end of file" := by
  intro row mem
  obtain ⟨r, among, rfl⟩ := List.mem_map.1 mem
  obtain ⟨line, _, among⟩ := List.mem_flatMap.1 among
  rcases eq_of_mem_lineRows among with rfl | rfl
  · left
    cases line.1 <;> simp [Edit.Kind.mark]
  · exact .inr rfl

theorem unified_listing_iff {s : Section} (whole : ∀ line ∈ s.lines, Text.IsLine line.2) :
    s.listing.Unified ↔ s.Counted := by
  have old := countP_rows_shown .old s.lines
  have new := countP_rows_shown .new s.lines
  constructor
  · intro unified
    exact ⟨unified.old.symm.trans old, unified.new.symm.trans new⟩
  · intro counted
    refine ⟨marked_listing s, old.trans counted.1.symm, new.trans counted.2.symm, fun row mem => ?_⟩
    obtain ⟨r, among, rfl⟩ := List.mem_map.1 mem
    obtain ⟨line, inside, among⟩ := List.mem_flatMap.1 among
    rcases eq_of_mem_lineRows among with rfl | rfl
    · have one := isLine_marked line.1 (whole line inside)
      rw [← bare_append_right _ (ne_nil_of_isLine (whole line inside))]
      exact length_lines_bare one
    · decide

/-! Hunks cut at line feeds are told apart by their headers. -/

theorem Listing.ranges_inj {l k : Listing} (same : l.ranges = k.ranges) :
    l.old = k.old ∧ l.new = k.new := by
  have first := Section.header?_header ⟨l.old, l.new, []⟩
  have second := Section.header?_header ⟨k.old, k.new, []⟩
  rw [Section.header_eq] at first second
  change Reading.header? (l.ranges ++ "\n") = _ at first
  change Reading.header? (k.ranges ++ "\n") = _ at second
  rw [same, second] at first
  simpa [eq_comm] using first

theorem Listing.head_ranges (l : Listing) : l.ranges.toList.head? = some '@' := by
  simp [ranges, Section.ranges]

/-- What can stand under a header: it is neither a header nor empty. -/
def isRow (row : String) : Bool := row.toList.head? ≠ some '@' ∧ row ≠ ""

theorem isRow_of_marked {row : String} (marked : row.toList.head? ∈ [some ' ', some '-', some '+'] ∨
    row = "\\ No newline at end of file") : isRow row = true := by
  rcases marked with marked | rfl
  · have apart : row.toList.head? ≠ some '@' := fun header => by simp [header] at marked
    have some : row ≠ "" := by
      rintro rfl
      simp at marked
    simp [isRow, apart, some]
  · decide

theorem Listing.head_pieces (listings : List Listing) {last : List String}
    (ended : last = [] ∨ last = [""]) :
    ∀ row ∈ (pieces listings last).head?, isRow row = false := by
  cases listings with
  | nil => rcases ended with rfl | rfl <;> simp [pieces, isRow]
  | cons l listings => simp [pieces, isRow, l.head_ranges]

/-- Rows up to where something else stands. -/
theorem takeWhile_rows {rows rest : List String} (row : ∀ r ∈ rows, isRow r = true)
    (stop : ∀ r ∈ rest.head?, isRow r = false) : (rows ++ rest).takeWhile isRow = rows := by
  rw [List.takeWhile_append_of_pos row]
  cases rest with
  | nil => simp
  | cons r rest => simp [stop r rfl]

theorem Listing.pieces_cons_ne (l : Listing) (listings : List Listing) (last : List String)
    {ended : List String} (none : ended = [] ∨ ended = [""]) :
    pieces (l :: listings) last ≠ pieces [] ended := by
  intro same
  have header := l.head_ranges
  have first := congrArg List.head? same
  rcases none with rfl | rfl
  · simp [pieces] at first
  · have empty : l.ranges = "" := by simpa [pieces] using first
    rw [empty] at header
    cases header

theorem Listing.pieces_inj {ls ks : List Listing} {last last' : List String}
    (row : ∀ l ∈ ls, ∀ r ∈ l.rows, isRow r = true) (row' : ∀ k ∈ ks, ∀ r ∈ k.rows, isRow r = true)
    (ended : last = [] ∨ last = [""]) (ended' : last' = [] ∨ last' = [""])
    (same : pieces ls last = pieces ks last') : ls = ks := by
  induction ls generalizing ks with
  | nil =>
    cases ks with
    | nil => rfl
    | cons k ks => exact absurd same.symm (pieces_cons_ne k ks last' ended)
  | cons l ls ih =>
    cases ks with
    | nil => exact absurd same (pieces_cons_ne l ls last ended')
    | cons k ks =>
      obtain ⟨here, later⟩ := List.forall_mem_cons.1 row
      obtain ⟨here', later'⟩ := List.forall_mem_cons.1 row'
      simp only [pieces, List.flatMap_cons, List.cons_append, List.append_assoc] at same
      obtain ⟨ranges, same⟩ := List.cons.inj same
      change l.rows ++ pieces ls last = k.rows ++ pieces ks last' at same
      have rows := congrArg (List.takeWhile isRow) same
      rw [takeWhile_rows here (head_pieces ls ended), takeWhile_rows here' (head_pieces ks ended')]
        at rows
      rw [rows, List.append_cancel_left_eq] at same
      obtain ⟨old, new⟩ := ranges_inj ranges
      rw [ih later later' same, show l = k from by cases l; cases k; simp_all]

/-! Printed hunks. -/

variable {sections : List Section}

theorem isLine_printed (whole : ∀ s ∈ sections, ∀ line ∈ s.lines, Text.IsLine line.2) :
    ∀ text ∈ sections.flatMap Section.printed, Text.Separate text := by
  intro text mem
  obtain ⟨s, inside, mem⟩ := List.mem_flatMap.1 mem
  exact separate_printed (whole s inside) text mem

theorem head_of_printedLine {line : Edit.Kind × String} :
    ∀ text ∈ printedLine line, text.toList.head? ≠ some '@' := by
  obtain ⟨kind, content⟩ := line
  unfold printedLine
  cases kind <;> split <;> simp [Edit.Kind.mark, Reading.remark]

theorem stopped_header (s : Section) : s.header.toList.getLast? = some '\n' := by
  rw [s.header_eq]
  simp

theorem header_of_printed : ∀ text ∈ sections.flatMap Section.printed,
    text.toList.head? = some '@' → text.toList.getLast? = some '\n' := by
  intro text mem header
  obtain ⟨s, _, mem⟩ := List.mem_flatMap.1 mem
  rcases List.mem_cons.1 mem with rfl | mem
  · exact stopped_header s
  · obtain ⟨line, _, mem⟩ := List.mem_flatMap.1 mem
    exact absurd header (head_of_printedLine text mem)

/-- Where no line runs on, the pieces of printed hunks are their listings. -/
theorem pieces_printed (some : sections ≠ [])
    (whole : ∀ s ∈ sections, ∀ line ∈ s.lines, Text.IsLine line.2)
    (stopped : Stopped (sections.flatMap Section.printed)) :
    ∃ last, (last = [] ∨ last = [""]) ∧
      Text.pieces (String.join (sections.flatMap Section.printed)) =
        Listing.pieces (sections.map Section.listing) last := by
  have separate := isLine_printed whole
  have printed : sections.flatMap Section.printed ≠ [] := by
    obtain ⟨s, rest, rfl⟩ := List.exists_cons_of_ne_nil some
    simp [Section.printed]
  obtain ⟨last, ended, pieces⟩ :=
    pieces_join_bare printed (fun text mem => (separate text mem).whole) stopped
  refine ⟨last, ended, pieces.trans (congrArg (· ++ last) ?_)⟩
  rw [List.map_flatMap, List.flatMap_map]
  exact List.flatMap_congr fun s mem => bare_printed (whole s mem)

/-- A piece under no header is a row of a hunk or empty. -/
theorem single_of_mem {listings : List Listing} {last : List String}
    (unified : ∀ l ∈ listings, l.Unified) (ended : last = [] ∨ last = [""]) :
    ∀ piece ∈ Listing.pieces listings last,
      piece.toList.head? = some '@' ∨ (Text.lines piece).length ≤ 1 := by
  intro piece mem
  rcases List.mem_append.1 mem with mem | mem
  · obtain ⟨l, inside, mem⟩ := List.mem_flatMap.1 mem
    rcases List.mem_cons.1 mem with rfl | mem
    · exact .inl l.head_ranges
    · exact .inr ((unified l inside).single piece mem)
  · rcases ended with rfl | rfl
    · simp at mem
    · rw [List.mem_singleton.1 mem]
      exact .inr (by decide)

theorem unified_iff_stopped {name patch : String} (some : sections ≠ [])
    (whole : ∀ s ∈ sections, ∀ line ∈ s.lines, Text.IsLine line.2) (label : '\n' ∉ name.toList)
    (text : patch = "--- a/" ++ name ++ "\n+++ b/" ++ name ++ "\n" ++
      String.join (sections.flatMap Section.printed)) :
    Unified name patch ↔
      (∀ s ∈ sections, s.Counted) ∧ Stopped (sections.flatMap Section.printed) := by
  have rows : Text.pieces patch = ("--- a/" ++ name) :: ("+++ b/" ++ name) ::
      Text.pieces (String.join (sections.flatMap Section.printed)) := by
    have parts : patch = ("--- a/" ++ name) ++ "\n" ++ (("+++ b/" ++ name) ++ "\n" ++
        String.join (sections.flatMap Section.printed)) := by
      have feed : "\n+++ b/" = "\n" ++ "+++ b/" := rfl
      rw [text, feed]
      simp only [String.append_assoc]
    rw [parts, Text.pieces_feed (by simpa using label), Text.pieces_feed (by simpa using label)]
  have listed : ∀ s ∈ sections, (s.listing.Unified ↔ s.Counted) :=
    fun s mem => unified_listing_iff (whole s mem)
  constructor
  · rintro ⟨listings, last, pieces, ended, unified⟩
    rw [rows] at pieces
    have pieces := (List.cons.inj (List.cons.inj pieces).2).2
    have stopped : Stopped (sections.flatMap Section.printed) := by
      apply stopped_of_single (isLine_printed whole) header_of_printed
      rw [pieces]
      exact single_of_mem unified ended
    obtain ⟨last', ended', pieces'⟩ := pieces_printed some whole stopped
    have same : sections.map Section.listing = listings := by
      apply Listing.pieces_inj _ _ ended' ended (pieces'.symm.trans pieces)
      · intro l mem row inside
        obtain ⟨s, _, rfl⟩ := List.mem_map.1 mem
        exact isRow_of_marked (marked_listing s row inside)
      · exact fun l mem row inside => isRow_of_marked ((unified l mem).marked row inside)
    refine ⟨fun s mem => (listed s mem).1 (unified _ ?_), stopped⟩
    exact same ▸ List.mem_map_of_mem mem
  · rintro ⟨counted, stopped⟩
    obtain ⟨last, ended, pieces⟩ := pieces_printed some whole stopped
    refine ⟨sections.map Section.listing, last, by rw [rows, pieces], ended, fun l mem => ?_⟩
    obtain ⟨s, inside, rfl⟩ := List.mem_map.1 mem
    exact (listed s inside).2 (counted s inside)

/-! Which lines run on. -/

/-- All but the last of what a list is made of: what is made of all but its last item, and all but
the last of what is made of that. -/
theorem forall_dropLast_flatMap {α β : Type} {f : α → List β} {p : β → Prop} {xs : List α}
    (some : ∀ x ∈ xs, f x ≠ []) : (∀ y ∈ (xs.flatMap f).dropLast, p y) ↔
      (∀ x ∈ xs.dropLast, ∀ y ∈ f x, p y) ∧ ∀ x ∈ xs.getLast?, ∀ y ∈ (f x).dropLast, p y := by
  rcases List.eq_nil_or_concat xs with rfl | ⟨before, x, rfl⟩
  · simp
  · rw [List.concat_eq_append] at *
    rw [List.flatMap_append, List.flatMap_singleton,
      List.dropLast_append_of_ne_nil (some x (by simp)), List.dropLast_concat,
      List.getLast?_concat, List.forall_mem_append, List.forall_mem_flatMap]
    simp

theorem stopped_printedLine {line : Edit.Kind × String} (whole : Text.IsLine line.2) :
    (∀ text ∈ printedLine line, text.toList.getLast? = some '\n') ↔
      line.2.toList.getLast? ≠ some '\r' := by
  have some := ne_nil_of_isLine whole
  have last : (line.1.mark ++ line.2).toList.getLast? = line.2.toList.getLast? := by
    rw [String.toList_append, List.getLast?_append_of_ne_nil _ some]
  have remark : Reading.remark.toList.getLast? = .some '\n' := by decide
  unfold printedLine
  split
  · next ended =>
    rw [List.forall_mem_singleton, last]
    rcases (Text.terminated_iff _).1 ended with feed | back
    · simp [feed]
    · simp [back]
  · next ended =>
    have apart : line.2.toList.getLast? ≠ .some '\r' := fun back =>
      ended ((Text.terminated_iff _).2 (.inr back))
    simp [remark, apart]

theorem stopped_dropLast (line : Edit.Kind × String) :
    ∀ text ∈ (printedLine line).dropLast, text.toList.getLast? = some '\n' := by
  unfold printedLine
  split <;> simp

theorem printedLine_ne_nil (line : Edit.Kind × String) : printedLine line ≠ [] := by
  unfold printedLine
  split <;> simp

/-- A line runs on where it ends in a lone carriage return and is not the last that is shown. -/
theorem stopped_iff (some : ∀ s ∈ sections, s.lines ≠ [])
    (whole : ∀ s ∈ sections, ∀ line ∈ s.lines, Text.IsLine line.2) :
    Stopped (sections.flatMap Section.printed) ↔
      ∀ line ∈ (sections.flatMap (·.lines)).dropLast, line.2.toList.getLast? ≠ .some '\r' := by
  have printed : ∀ s ∈ sections, s.printed ≠ [] := fun _ _ => List.cons_ne_nil _ _
  have all (s : Section) (mem : s ∈ sections) :
      (∀ text ∈ s.printed, text.toList.getLast? = .some '\n') ↔
        ∀ line ∈ s.lines, line.2.toList.getLast? ≠ .some '\r' := by
    rw [Section.printed, List.forall_mem_cons, List.forall_mem_flatMap]
    simp only [stopped_header, true_and]
    exact forall₂_congr fun line inside => stopped_printedLine (whole s mem line inside)
  have most (s : Section) (mem : s ∈ sections) :
      (∀ text ∈ s.printed.dropLast, text.toList.getLast? = .some '\n') ↔
        ∀ line ∈ s.lines.dropLast, line.2.toList.getLast? ≠ .some '\r' := by
    obtain ⟨line, shown⟩ := List.exists_mem_of_ne_nil _ (some s mem)
    have below : s.lines.flatMap printedLine ≠ [] := fun none =>
      printedLine_ne_nil line (List.flatMap_eq_nil_iff.1 none line shown)
    rw [Section.printed, List.dropLast_cons_of_ne_nil below, List.forall_mem_cons,
      forall_dropLast_flatMap fun line _ => printedLine_ne_nil line]
    rw [and_iff_right (stopped_header s), and_iff_left fun line _ => stopped_dropLast line]
    exact forall₂_congr fun line inside =>
      stopped_printedLine (whole s mem line (List.mem_of_mem_dropLast inside))
  rw [Stopped, forall_dropLast_flatMap printed, forall_dropLast_flatMap some]
  exact and_congr (forall₂_congr fun s mem => all s (List.mem_of_mem_dropLast mem))
    (forall₂_congr fun s mem => most s (List.mem_of_getLast? mem))

end FormatPreview.Diff

namespace FormatPreview.Comparison

open Diff

/-- Where line feeds alone end a line, a patch is in the unified format exactly when each header
counts the lines of its hunk and none but the last line shown ends in a lone carriage return. Headers
count right in every hunk with context on both ends, and in all of them where the script is anchored;
texts without a lone carriage return show no line that ends in one. -/
theorem patch_unified_iff (name content formatted : String)
    (differ : content ≠ formatted) (label : '\n' ∉ name.toList) :
    let c : Comparison := ⟨name, content, formatted⟩
    let sections := readings (Text.lines content) (Text.lines formatted)
    c.patch = "--- a/" ++ name ++ "\n+++ b/" ++ name ++ "\n" ++
      String.join (sections.flatMap Section.printed) ∧
    (Unified name c.patch ↔ (∀ s ∈ sections, s.Counted) ∧
      ∀ line ∈ (sections.flatMap (·.lines)).dropLast, line.2.toList.getLast? ≠ some '\r') ∧
    (∀ s ∈ sections, 0 < leading s.lines → 0 < trailing s.lines → s.Counted) ∧
    (Anchored (Text.lines content) (Text.lines formatted) → ∀ s ∈ sections, s.Counted) ∧
    (Text.Paired content.toList → Text.Paired formatted.toList →
      ∀ line ∈ sections.flatMap (·.lines), line.2.toList.getLast? ≠ some '\r') := by
  intro c sections
  have differs : c.differs = true := by simpa [c, Comparison.differs] using differ
  have text : c.patch = "--- a/" ++ name ++ "\n+++ b/" ++ name ++ "\n" ++
      String.join (sections.flatMap Section.printed) := by
    rw [Comparison.patch, if_pos differs, patch_eq name differ, hunkText_eq]
  obtain ⟨all, es, _, grouped, same, context, _⟩ :=
    excerpts_hunks (Text.lines content) (Text.lines formatted) (hunks_ne_nil differ)
  have excerpt (s : Section) (mem : s ∈ sections) : ∃ e ∈ es, e.hunk = s := by
    have mem : s ∈ es.map (·.hunk) := same ▸ mem
    simpa using mem
  have some : ∀ s ∈ sections, s.lines ≠ [] := by
    intro s mem
    obtain ⟨e, inside, rfl⟩ := excerpt s mem
    obtain ⟨line, shown, _⟩ := grouped.change e inside
    exact List.ne_nil_of_mem shown
  have hunk : sections ≠ [] := by
    intro none
    exact hunks_ne_nil differ (List.map_eq_nil_iff.1 none)
  have whole : ∀ s ∈ sections, ∀ line ∈ s.lines, Text.IsLine line.2 :=
    fun s mem => isLine_of_reading mem
  refine ⟨text, ?_, fun s mem => ?_, counted_of_anchored, fun old new line mem => ?_⟩
  · rw [unified_iff_stopped hunk whole label text, stopped_iff some whole]
  · obtain ⟨e, inside, rfl⟩ := excerpt s mem
    exact fun front back => (context e inside front back).counted
  · obtain ⟨s, inside, shown⟩ := List.mem_flatMap.1 mem
    exact (fed_of_reading old new inside line shown).fed

theorem patch_unified_iff_last_return :
    let c : Comparison := ⟨"x", "a\nb\r\n", "a\nc\r"⟩
    (c.content ≠ c.formatted ∧ '\n' ∉ c.path.toList) ∧
      c.patch = "--- a/x\n+++ b/x\n@@ -1,2 +1,2 @@\n a\n-b\r\n+c\r" ∧
      Unified c.path c.patch := by
  intro c
  have differ : c.content ≠ c.formatted := by decide
  have label : '\n' ∉ c.path.toList := by decide
  have read : readings (Text.lines c.content) (Text.lines c.formatted) =
      [⟨⟨0, 2⟩, ⟨0, 2⟩, [(.kept, "a\n"), (.deleted, "b\r\n"), (.inserted, "c\r")]⟩] := by cbv
  have unified := (patch_unified_iff c.path c.content c.formatted differ label).2.1
  refine ⟨⟨differ, label⟩, by cbv, unified.2 ?_⟩
  rw [read]
  decide

/-- Two lines of the patch stand in one piece of it, since the first ends in a lone carriage
return. -/
theorem lone_return_runs_on :
    let c : Comparison := ⟨"x", "a\rb\n", "a\rc\n"⟩
    (c.content ≠ c.formatted ∧ '\n' ∉ c.path.toList ∧ '\r' ∉ c.path.toList) ∧
      c.patch = "--- a/x\n+++ b/x\n@@ -1,2 +1,2 @@\n a\r-b\n+c\n" ∧
      ¬ Unified c.path c.patch := by
  intro c
  have text : c.patch = "--- a/x\n+++ b/x\n@@ -1,2 +1,2 @@\n a\r-b\n+c\n" := by cbv
  refine ⟨by decide, text, ?_⟩
  rintro ⟨listings, last, pieces, ended, unified⟩
  rw [text] at pieces
  have cut : Text.pieces "--- a/x\n+++ b/x\n@@ -1,2 +1,2 @@\n a\r-b\n+c\n" =
      ["--- a/x", "+++ b/x", "@@ -1,2 +1,2 @@", " a\r-b", "+c", ""] := by cbv
  rw [cut] at pieces
  have below := (List.cons.inj (List.cons.inj pieces).2).2
  have piece : " a\r-b" ∈ Listing.pieces listings last := by
    rw [← below]
    decide
  have single := single_of_mem unified ended _ piece
  revert single
  decide

end FormatPreview.Comparison
