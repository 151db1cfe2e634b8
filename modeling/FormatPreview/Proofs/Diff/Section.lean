import FormatPreview.Proofs.Diff.Hunk
import FormatPreview.Proofs.Diff.Printing

/-!
Hunks as they are read. The lines that a hunk shows of a side are the items between the points that
it leads between. Its header counts as many of them if its first and its last block are recorded at
these points, and then it names the place where they stand.
-/
namespace FormatPreview.Diff

def Cut.on (p : Cut) : Side → Nat
  | .old => p.old
  | .new => p.new

def Block.span (b : Block) : Side → Span
  | .old => b.old
  | .new => b.new

def Side.items {α : Type} (as bs : List α) : Side → List α
  | .old => as
  | .new => bs

/-- Blocks recorded to begin and to end at two points. -/
def Recorded (blocks : List Block) (p q : Cut) : Prop :=
  (∀ b ∈ blocks.head?, b.front = p) ∧ ∀ b ∈ blocks.getLast?, b.back = q

def Block.lines (old new : List String) (b : Block) : List (Edit.Kind × String) :=
  if b.changed then
    (b.old.of old).map (Edit.Kind.deleted, ·) ++ (b.new.of new).map (Edit.Kind.inserted, ·)
  else (b.old.of old).map (Edit.Kind.kept, ·)

/-- The ranges and marked lines that the text of a hunk stands for. -/
def Hunk.reading (old new : List String) (h : Hunk) : Section :=
  let front := (h.head?.map Block.front).getD ⟨0, 0⟩
  let back := (h.getLast?.map Block.back).getD ⟨0, 0⟩
  ⟨⟨front.old, back.old - front.old⟩, ⟨front.new, back.new - front.new⟩,
    h.flatMap (Block.lines old new)⟩

variable {as bs : List String} {p q m : Cut} {b : Block} {h : Hunk}

theorem range_stop (start stop : Nat) : range start (start + (stop - start)) = range start stop := by
  simp only [range, Nat.add_sub_cancel_left]

theorem join_marked (kind : Edit.Kind) (items : List String) :
    String.join ((items.map (kind, ·)).flatMap printedLine) =
      String.join (items.map (marked kind.mark)) := by
  induction items with
  | nil => rfl
  | cons line items ih =>
    rw [List.map_cons, List.flatMap_cons, String.join_append, join_printedLine, ih, List.map_cons,
      String.join_cons]

theorem join_lines (old new : List String) (b : Block) :
    String.join ((b.lines old new).flatMap printedLine) = body old new b := by
  unfold Block.lines body
  split
  · rw [List.flatMap_append, String.join_append, join_marked, join_marked]
    rfl
  · exact join_marked .kept _

theorem exists_ends (some : h ≠ []) :
    ∃ b c, h.head? = .some b ∧ h.getLast? = .some c := by
  obtain ⟨b, head⟩ := Option.ne_none_iff_exists'.1 (mt List.head?_eq_none_iff.1 some)
  obtain ⟨c, last⟩ := Option.ne_none_iff_exists'.1 (mt List.getLast?_eq_none_iff.1 some)
  exact ⟨b, c, head, last⟩

theorem join_printed (some : h ≠ []) :
    String.join (h.reading as bs).printed = header h ++ String.join (h.map (body as bs)) := by
  obtain ⟨first, last, front, back⟩ := exists_ends some
  have lines : ∀ blocks : List Block,
      String.join ((blocks.flatMap (Block.lines as bs)).flatMap printedLine) =
        String.join (blocks.map (body as bs)) := by
    intro blocks
    induction blocks with
    | nil => rfl
    | cons b blocks ih =>
      rw [List.flatMap_cons, List.flatMap_append, String.join_append, join_lines, ih,
        List.map_cons, String.join_cons]
  have named : (h.reading as bs).header = header h := by
    simp [Section.header, header, Hunk.reading, front, back, Block.front, Block.back, Span.stop,
      range_stop]
  rw [Section.printed, String.join_cons, named]
  exact congrArg _ (lines h)

theorem Cut.eq_of_on (same : ∀ side, p.on side = q.on side) : p = q := by
  cases p
  cases q
  exact (Cut.mk.injEq ..).symm ▸ ⟨same .old, same .new⟩

theorem Cut.Inside.on (inside : p.Inside as bs) (side : Side) :
    p.on side ≤ (side.items as bs).length := by
  cases side
  · exact inside.1
  · exact inside.2

theorem Block.Leads.on (here : b.Leads as bs p q) (side : Side) :
    q.on side = p.on side + (b.span side).length := by
  cases side <;> rw [here.reach] <;> rfl

theorem Block.Leads.span_of (here : b.Leads as bs p q) (side : Side) :
    (b.span side).of (side.items as bs) =
      Span.of ⟨p.on side, (b.span side).length⟩ (side.items as bs) := by
  have start : (b.span side).length ≠ 0 → (b.span side).start = p.on side := by
    cases side
    · exact here.oldStart
    · exact here.newStart
  by_cases empty : (b.span side).length = 0
  · simp [Span.of, empty]
  · rw [← start empty]

theorem Block.Leads.shown (here : b.Leads as bs p q) (side : Side) :
    shownLines side (b.lines as bs) =
      Span.of ⟨p.on side, (b.span side).length⟩ (side.items as bs) := by
  rw [← here.span_of]
  have all : ∀ (kind : Edit.Kind) (items : List String),
      shownLines side (items.map (kind, ·)) = if kind.shown side then items else [] := by
    intro kind items
    cases shown : kind.shown side <;> simp [shownLines, List.filter_map, Function.comp_def, shown]
  cases changed : b.changed with
  | true =>
    have parts : shownLines side (b.lines as bs) =
        shownLines side ((b.old.of as).map (Edit.Kind.deleted, ·)) ++
          shownLines side ((b.new.of bs).map (Edit.Kind.inserted, ·)) := by
      simp [Block.lines, changed, shownLines]
    rw [parts, all, all]
    cases side <;> simp [Edit.Kind.shown, Block.span, Side.items]
  | false =>
    have same := (here.same changed).2
    rw [Block.lines, if_neg (by simp [changed]), all]
    cases side
    · rfl
    · exact same

/-- The lines that blocks show of a side are the items that they lead over. -/
theorem shown_blocks {blocks : List Block} (route : Route (Block.Leads as bs) p blocks q)
    (side : Side) :
    ∃ count, q.on side = p.on side + count ∧
      shownLines side (blocks.flatMap (Block.lines as bs)) =
        Span.of ⟨p.on side, count⟩ (side.items as bs) := by
  induction route with
  | nil => exact ⟨0, rfl, by simp [shownLines, Span.of]⟩
  | @cons p m q b rest here _ ih =>
    obtain ⟨count, reach, shown⟩ := ih
    have first := here.on side
    refine ⟨(b.span side).length + count, by omega, ?_⟩
    have parts : shownLines side ((b :: rest).flatMap (Block.lines as bs)) =
        shownLines side (b.lines as bs) ++
          shownLines side (rest.flatMap (Block.lines as bs)) := by
      simp [shownLines]
    rw [parts, here.shown, shown, first, Span.of_append]

theorem Block.Leads.on_lt (here : b.Leads as bs p q) (kept : b.changed = false) (side : Side) :
    p.on side < q.on side := by
  have some := here.some
  have length := (here.same kept).1
  have reach := here.on side
  cases side <;> simp only [Block.span] at reach <;> omega

theorem on_le {blocks : List Block} (route : Route (Block.Leads as bs) p blocks q) (side : Side) :
    p.on side ≤ q.on side := by
  obtain ⟨count, reach, _⟩ := shown_blocks route side
  omega

theorem front_of_kept {blocks : List Block} (route : Route (Block.Leads as bs) p blocks q)
    (head : blocks.head? = some b) (kept : b.changed = false) :
    b.front = p ∧ ∀ side, p.on side < q.on side := by
  cases route with
  | nil => simp at head
  | cons here rest =>
    obtain rfl : _ = b := by simpa using head
    exact ⟨(here.ends_of_kept kept).1,
      fun side => Nat.lt_of_lt_of_le (here.on_lt kept side) (on_le rest side)⟩

theorem back_of_kept {blocks : List Block} (route : Route (Block.Leads as bs) p blocks q)
    (last : blocks.getLast? = some b) (kept : b.changed = false) :
    b.back = q ∧ ∀ side, p.on side < q.on side := by
  obtain ⟨before, rfl⟩ := List.getLast?_eq_some_iff.1 last
  obtain ⟨m, first, rest⟩ := route.split
  cases rest with
  | cons here done =>
    cases done
    exact ⟨(here.ends_of_kept kept).2,
      fun side => Nat.lt_of_le_of_lt (on_le first side) (here.on_lt kept side)⟩

variable {first last : Option Block}

theorem Framed.inside (framed : Framed as bs first last p h q) (inside : p.Inside as bs) :
    q.Inside as bs :=
  inside_of_blocks framed.route inside

theorem Framed.shown (framed : Framed as bs first last p h q) (inside : p.Inside as bs)
    (side : Side) :
    ∃ count, q.on side = p.on side + count ∧
      (h.reading as bs).shown side = Span.of ⟨p.on side, count⟩ (side.items as bs) ∧
      ((h.reading as bs).shown side).length = count := by
  obtain ⟨count, reach, shown⟩ := shown_blocks framed.route side
  have within := (framed.inside inside).on side
  refine ⟨count, reach, shown, ?_⟩
  rw [Section.shown, Hunk.reading, shown]
  exact Span.length_of (by omega)

theorem span_reading {b c : Block} (head : h.head? = some b) (last : h.getLast? = some c)
    (side : Side) :
    (h.reading as bs).span side = ⟨b.front.on side, c.back.on side - b.front.on side⟩ := by
  cases side <;> simp [Hunk.reading, head, last, Section.span, Cut.on]

/-- A hunk that is recorded where it leads is counted right and names its place. -/
theorem Framed.counted (framed : Framed as bs first last p h q) (inside : p.Inside as bs)
    (some : h ≠ []) (recorded : Recorded h p q) :
    (h.reading as bs).Counted ∧ ∀ side, ((h.reading as bs).span side).start = p.on side := by
  obtain ⟨b, c, head, last⟩ := exists_ends some
  have span : ∀ side, (h.reading as bs).span side = ⟨p.on side, q.on side - p.on side⟩ := by
    intro side
    rw [span_reading head last, recorded.1 b head, recorded.2 c last]
  have count : ∀ side, ((h.reading as bs).span side).length =
      ((h.reading as bs).shown side).length := by
    intro side
    obtain ⟨count, reach, _, length⟩ := framed.shown inside side
    rw [span, length, reach, Nat.add_sub_cancel_left]
  exact ⟨⟨count .old, count .new⟩, fun side => by rw [span]⟩

/-- A hunk that is counted right and whose lines all stand from the place that it names on is
recorded where it leads. -/
theorem Framed.recorded (framed : Framed as bs first last p h q) (inside : p.Inside as bs)
    (some : h ≠ []) (counted : (h.reading as bs).Counted)
    (stands : ∀ side, ((h.reading as bs).span side).start +
      ((h.reading as bs).shown side).length ≤ (side.items as bs).length) :
    Recorded h p q := by
  obtain ⟨b, c, head, last⟩ := exists_ends some
  have ends : ∀ side, b.front.on side = p.on side ∧ c.back.on side = q.on side := by
    intro side
    obtain ⟨count, reach, _, length⟩ := framed.shown inside side
    have fits := stands side
    have counts : ((h.reading as bs).span side).length = ((h.reading as bs).shown side).length := by
      cases side
      · exact counted.1
      · exact counted.2
    rw [span_reading head last, length] at fits counts
    have front : (b.front.on side = p.on side ∧ p.on side < q.on side) ∨ p.on side = 0 := by
      cases changed : b.changed with
      | true =>
        rw [(framed.front b head changed).1]
        cases side <;> exact .inr rfl
      | false =>
        obtain ⟨rfl, some⟩ := front_of_kept framed.route head changed
        exact .inl ⟨rfl, some side⟩
    have back : (c.back.on side = q.on side ∧ p.on side < q.on side) ∨
        q.on side = (side.items as bs).length := by
      cases changed : c.changed with
      | true =>
        rw [(framed.back c last changed).1]
        cases side <;> exact .inr rfl
      | false =>
        obtain ⟨rfl, some⟩ := back_of_kept framed.route last changed
        exact .inl ⟨rfl, some side⟩
    -- A kept end stands where it is recorded, a changed one where the lists end. The count and the
    -- room after the recorded start leave no other place for either end.
    simp only at fits counts
    omega
  constructor
  · intro b' head'
    obtain rfl : b = b' := by simpa [head] using head'
    exact Cut.eq_of_on fun side => (ends side).1
  · intro c' last'
    obtain rfl : c = c' := by simpa [last] using last'
    exact Cut.eq_of_on fun side => (ends side).2

/-- The first and the last block of the script are recorded where the lists begin and end. -/
def Anchored {α : Type} [DecidableEq α] (as bs : List α) : Prop :=
  Recorded (scriptBlocks as bs) ⟨0, 0⟩ ⟨as.length, bs.length⟩

end FormatPreview.Diff
