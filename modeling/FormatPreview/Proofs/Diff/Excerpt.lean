import FormatPreview.Proofs.Diff.Context
import FormatPreview.Proofs.Diff.Conversion

/-!
The hunks of a patch as excerpts of the whole comparison: all lines of both texts, each of them
kept, deleted or inserted. What the hunks leave out is kept, and they are grouped exactly by the
context around the changes. A header names the place and the number of the lines below it in every
hunk that has context on both ends, and in all of them exactly when the script is anchored.
-/
namespace FormatPreview.Diff

/-- A hunk among all lines, with those before it and after it. -/
structure Excerpt where
  before : List Line
  hunk : Section
  after : List Line

namespace Excerpt

/-- The lines of a side that a hunk shows: after how many they stand, and how many they are. -/
def range (e : Excerpt) (side : Side) : Span :=
  ⟨(shownLines side e.before).length, (e.hunk.shown side).length⟩

/-- The header of a hunk names the place and the number of its lines on both sides. -/
def Placed (e : Excerpt) : Prop := ∀ side, e.hunk.span side = e.range side

/-- A hunk after another, with unchanged lines left out between them. -/
structure Follows (e next : Excerpt) : Prop where
  skipped : ∃ skipped, skipped ≠ [] ∧ Kept skipped ∧
    next.before = e.before ++ e.hunk.lines ++ skipped
  apart : ∀ side, (e.range side).stop < (next.range side).start

end Excerpt

/-- Hunks that show the changes among all lines with so many kept lines around each, and that are
joined when no more than twice as many lie between two changes. -/
structure Excerpts (all : List Line) (excerpts : List Excerpt) : Prop where
  some : excerpts ≠ []
  whole : ∀ e ∈ excerpts, e.before ++ e.hunk.lines ++ e.after = all
  change : ∀ e ∈ excerpts, ∃ line ∈ e.hunk.lines, line.1 ≠ .kept
  front : ∀ e ∈ excerpts, leading e.hunk.lines =
    min context (trailing e.before + leading e.hunk.lines)
  back : ∀ e ∈ excerpts, trailing e.hunk.lines =
    min context (trailing e.hunk.lines + leading e.after)
  inner : ∀ e ∈ excerpts, ∀ run, run <:+: e.hunk.lines → Kept run → run.length ≤ 2 * context
  first : ∀ e ∈ excerpts.head?, Kept e.before
  last : ∀ e ∈ excerpts.getLast?, Kept e.after
  follows : excerpts.IsChain Excerpt.Follows

variable {as bs : List String} {p q m r : Cut} {b : Block} {h : Hunk} {hs : List Hunk}
  {first last : Option Block} {xs ys all : List Line} {e : Excerpt}

/-! The lines up to a point. -/

/-- Lines that show of each side what it has up to a point. -/
def Upto (as bs : List String) (p : Cut) (lines : List Line) : Prop :=
  ∀ side, shownLines side lines = (side.items as bs).take (p.on side)

theorem shownLines_append (side : Side) (xs ys : List Line) :
    shownLines side (xs ++ ys) = shownLines side xs ++ shownLines side ys := by
  simp [shownLines]

theorem shownLines_kept (side : Side) (items : List String) :
    shownLines side (items.map (Edit.Kind.kept, ·)) = items := by
  have shown : Edit.Kind.kept.shown side = true := by cases side <;> rfl
  simp [shownLines, List.filter_map, Function.comp_def, shown]

theorem length_shownLines_kept (side : Side) (kept : Kept xs) :
    (shownLines side xs).length = xs.length := by
  have shown : ∀ line ∈ xs, line.1.shown side = true := by
    intro line mem
    rw [kept line mem]
    cases side <;> rfl
  rw [shownLines, List.filter_eq_self.2 shown, List.length_map]

theorem upto_zero : Upto as bs ⟨0, 0⟩ [] := by
  intro side
  cases side <;> rfl

theorem Upto.length (upto : Upto as bs p xs) (inside : p.Inside as bs) (side : Side) :
    (shownLines side xs).length = p.on side := by
  rw [upto side, List.length_take]
  exact Nat.min_eq_left (inside.on side)

theorem exists_shown (kind : Edit.Kind) : ∃ side, kind.shown side = true := by
  cases kind with
  | kept => exact ⟨.old, rfl⟩
  | deleted => exact ⟨.old, rfl⟩
  | inserted => exact ⟨.new, rfl⟩

/-- Lines that show nothing of either side are none. -/
theorem eq_nil_of_shown (none : ∀ side, shownLines side xs = []) : xs = [] := by
  cases xs with
  | nil => rfl
  | cons line rest =>
    obtain ⟨side, shown⟩ := exists_shown line.1
    have empty := none side
    simp [shownLines, shown] at empty

theorem eq_nil_of_upto_zero (upto : Upto as bs ⟨0, 0⟩ xs) : xs = [] := by
  apply eq_nil_of_shown
  intro side
  rw [upto side]
  cases side <;> rfl

theorem take_append_of (start count : Nat) (items : List String) :
    items.take start ++ Span.of ⟨start, count⟩ items = items.take (start + count) := by
  rw [Span.of, List.take_add]

theorem Upto.append (upto : Upto as bs p xs)
    (shown : ∀ side, ∃ count, q.on side = p.on side + count ∧
      shownLines side ys = Span.of ⟨p.on side, count⟩ (side.items as bs)) :
    Upto as bs q (xs ++ ys) := by
  intro side
  obtain ⟨count, reach, shown⟩ := shown side
  rw [shownLines_append, upto side, shown, take_append_of, reach]

/-- Unchanged items are kept lines. -/
theorem Upto.skip (upto : Upto as bs p xs) (gap : p.Unchanged as bs q) :
    ∃ skipped, Kept skipped ∧ Upto as bs q (xs ++ skipped) := by
  obtain ⟨count, rfl, _, same⟩ := gap
  refine ⟨(Span.of ⟨p.old, count⟩ as).map (Edit.Kind.kept, ·), by simp [Kept], upto.append ?_⟩
  intro side
  refine ⟨count, by cases side <;> rfl, ?_⟩
  rw [shownLines_kept]
  cases side
  · rfl
  · exact same

theorem Upto.hunk (upto : Upto as bs m xs) (framed : Framed as bs first last m h r) :
    Upto as bs r (xs ++ (h.reading as bs).lines) :=
  upto.append (shown_blocks framed.route)

/-! Excerpts from hunks. -/

/-- An excerpt for a hunk, which begins where the lines before it end. -/
structure Shows (as bs : List String) (all : List Line) (h : Hunk) (e : Excerpt) : Prop where
  some : h ≠ []
  hunk : e.hunk = h.reading as bs
  whole : e.before ++ e.hunk.lines ++ e.after = all
  stands : ∃ m r, m.Inside as bs ∧ Upto as bs m e.before ∧
    Framed as bs (scriptBlocks as bs).head? (scriptBlocks as bs).getLast? m h r

/-- Excerpts with nothing but kept lines before, between and after them. -/
structure Joined (done all : List Line) (es : List Excerpt) : Prop where
  first : ∀ e ∈ es.head?, ∃ skipped, Kept skipped ∧ e.before = done ++ skipped
  next : es.IsChain fun e next =>
    ∃ skipped, Kept skipped ∧ next.before = e.before ++ e.hunk.lines ++ skipped
  last : ∀ e ∈ es.getLast?, Kept e.after
  none : es = [] → ∃ rest, Kept rest ∧ all = done ++ rest

theorem exists_excerpts
    (route :
      Route (Hunk.Leads as bs (scriptBlocks as bs).head? (scriptBlocks as bs).getLast?) p hs q)
    (rest : q.Unchanged as bs ⟨as.length, bs.length⟩) (inside : p.Inside as bs)
    (upto : Upto as bs p xs) :
    ∃ all es, (∀ side, shownLines side all = side.items as bs) ∧
      xs <+: all ∧ List.Forall₂ (Shows as bs all) hs es ∧ Joined xs all es := by
  induction route generalizing xs with
  | nil =>
    obtain ⟨skipped, kept, upto⟩ := upto.skip rest
    refine ⟨xs ++ skipped, [], ?_, List.prefix_append _ _, .nil, ?_⟩
    · intro side
      rw [upto side]
      cases side <;> exact List.take_length
    · exact ⟨by simp, .nil, by simp, fun _ => ⟨skipped, kept, rfl⟩⟩
  | @cons p q r h hs here _ ih =>
    obtain ⟨some, m, gap, framed⟩ := here
    obtain ⟨skipped, kept, upto⟩ := upto.skip gap
    obtain ⟨all, es, shown, ⟨after, whole⟩, shows, joined⟩ :=
      ih rest (framed.inside gap.inside) (upto.hunk framed)
    refine ⟨all, ⟨xs ++ skipped, h.reading as bs, after⟩ :: es, shown, ?_, ?_, ?_⟩
    · rw [← whole]
      simp only [List.append_assoc]
      exact List.prefix_append _ _
    · exact .cons ⟨some, rfl, whole, m, _, gap.inside, upto, framed⟩ shows
    · constructor
      · simpa using kept
      · exact joined.next.cons joined.first
      · cases es with
        | nil =>
          obtain ⟨left, kept, same⟩ := joined.none rfl
          obtain rfl : after = left := List.append_cancel_left (whole.trans same)
          simpa using kept
        | cons e es => exact joined.last
      · simp

/-! What is known of one excerpt. -/

theorem Block.Leads.length_of (here : b.Leads as bs p q) (side : Side) :
    ((b.span side).of (side.items as bs)).length = (b.span side).length := by
  have inside := here.inside.on side
  rw [here.on side] at inside
  rw [here.span_of, Span.length_of inside]

theorem Block.Leads.drawn (here : b.Leads as bs p q) : b.Drawn (b.lines as bs) := by
  have old := here.length_of .old
  have new := here.length_of .new
  simp only [Block.span, Side.items] at old new
  constructor
  · intro kept
    simp [Block.lines, kept, Kept, old]
  · intro changed
    constructor
    · intro none
      have lengths := congrArg List.length none
      have some := here.some
      simp only [Block.lines, changed, if_true, List.length_append, List.length_map, old, new,
        List.length_nil] at lengths
      omega
    · simp [Block.lines, changed, or_imp, forall_and]

theorem Framed.drawn (framed : Framed as bs first last m h r) :
    ∀ b ∈ h, b.Drawn (b.lines as bs) := by
  intro b mem
  obtain ⟨_, _, here⟩ := framed.route.exists_step mem
  exact here.drawn

theorem Shows.lines (shows : Shows as bs all h e) :
    e.hunk.lines = h.flatMap (Block.lines as bs) := by
  rw [shows.hunk]
  rfl

theorem Shows.change (shows : Shows as bs all h e) (grouped : h.Grouped) :
    ∃ line ∈ e.hunk.lines, line.1 ≠ .kept := by
  obtain ⟨_, _, _, _, framed⟩ := shows.stands
  obtain ⟨b, mem, changed⟩ := grouped.change
  obtain ⟨some, all⟩ := (framed.drawn b mem).changed changed
  obtain ⟨line, inside⟩ := List.exists_mem_of_ne_nil _ some
  rw [shows.lines]
  exact ⟨line, List.mem_flatMap.2 ⟨b, mem, inside⟩, all line inside⟩

theorem Shows.inner (shows : Shows as bs all h e) (grouped : h.Grouped) {run : List Line}
    (inside : run <:+: e.hunk.lines) (kept : Kept run) : run.length ≤ 2 * context := by
  obtain ⟨_, _, _, _, framed⟩ := shows.stands
  rw [shows.lines] at inside
  exact length_of_infix grouped.alternating framed.drawn grouped.short inside kept

/-- As much context is shown before the first change as there is, up to the limit. -/
theorem Shows.front (shows : Shows as bs all h e) (grouped : h.Grouped)
    (trimmed : ∀ b ∈ h.head?, b.Trimmed (scriptBlocks as bs).head?) :
    leading e.hunk.lines = min context (trailing e.before + leading e.hunk.lines) := by
  obtain ⟨m, r, inside, upto, framed⟩ := shows.stands
  obtain ⟨b, _, head, _⟩ := exists_ends shows.some
  have alone (start : m = ⟨0, 0⟩) : trailing e.before = 0 := by
    subst start
    rw [eq_nil_of_upto_zero upto]
    rfl
  rw [shows.lines]
  cases changed : b.changed with
  | true =>
    rw [leading_flatMap_changed framed.drawn (by simp [head, changed]),
      alone (framed.front b head changed).1]
    rfl
  | false =>
    rw [leading_flatMap_kept grouped.alternating framed.drawn head changed]
    have fits := (trimmed b head).fits changed
    rcases (trimmed b head).full changed with full | whole
    · omega
    · have front := (front_of_kept framed.route head changed).1
      rw [(front_of_kept (leads_scriptBlocks as bs) whole changed).1] at front
      rw [alone front.symm]
      omega

/-- As much context is shown after the last change as there is, up to the limit. -/
theorem Shows.back (shows : Shows as bs all h e)
    (shown : ∀ side, shownLines side all = side.items as bs)
    (grouped : h.Grouped) (trimmed : ∀ b ∈ h.getLast?, b.Trimmed (scriptBlocks as bs).getLast?) :
    trailing e.hunk.lines = min context (trailing e.hunk.lines + leading e.after) := by
  obtain ⟨m, r, inside, upto, framed⟩ := shows.stands
  obtain ⟨_, b, _, last⟩ := exists_ends shows.some
  have alone (stop : r = ⟨as.length, bs.length⟩) : leading e.after = 0 := by
    have none : e.after = [] := by
      apply eq_nil_of_shown
      intro side
      have ended := upto.hunk framed side
      have whole := shown side
      rw [← shows.whole, shownLines_append, shows.hunk, ended, stop] at whole
      cases side <;> simpa [Side.items, Cut.on] using whole
    rw [none]
    rfl
  rw [shows.lines]
  cases changed : b.changed with
  | true =>
    rw [trailing_flatMap_changed framed.drawn (by simp [last, changed]),
      alone (framed.back b last changed).1]
    rfl
  | false =>
    rw [trailing_flatMap_kept grouped.alternating framed.drawn last changed]
    have fits := (trimmed b last).fits changed
    rcases (trimmed b last).full changed with full | whole
    · omega
    · have back := (back_of_kept framed.route last changed).1
      rw [(back_of_kept (leads_scriptBlocks as bs) whole changed).1] at back
      rw [alone back.symm]
      omega

theorem Shows.follows {h' : Hunk} {e' : Excerpt} (shows : Shows as bs all h e)
    (shows' : Shows as bs all h' e') (parted : h.Parted h')
    (next : ∃ skipped, Kept skipped ∧ e'.before = e.before ++ e.hunk.lines ++ skipped) :
    e.Follows e' := by
  obtain ⟨m, r, inside, upto, framed⟩ := shows.stands
  obtain ⟨m', r', inside', upto', framed'⟩ := shows'.stands
  obtain ⟨skipped, kept, before⟩ := next
  have counted (side : Side) : (e.range side).stop + skipped.length = (e'.range side).start := by
    simp only [Excerpt.range, Span.stop, Section.shown, before, shownLines_append,
      List.length_append, length_shownLines_kept side kept]
  have some : 0 < skipped.length := by
    obtain ⟨b, unchanged, long, last, head⟩ := parted
    have back := (back_of_kept framed.route last unchanged).1
    have front := (front_of_kept framed'.route head unchanged).1
    have stop : (e.range .old).stop = r.old := by
      have ended := (upto.hunk framed).length (framed.inside inside) .old
      rw [shownLines_append, List.length_append] at ended
      rw [Excerpt.range, Span.stop, shows.hunk]
      exact ended
    have start : (e'.range .old).start = m'.old := upto'.length inside' .old
    have gap := counted .old
    rw [stop, start, ← back, ← front] at gap
    simp only [Block.back, Block.front, Block.takeFront, Block.takeBack, Block.dropFront,
      Span.stop] at gap
    omega
  constructor
  · exact ⟨skipped, List.ne_nil_of_length_pos some, kept, before⟩
  · intro side
    have gap := counted side
    omega

/-! Headers. -/

theorem Excerpt.Placed.counted (placed : e.Placed) : e.hunk.Counted :=
  ⟨congrArg Span.length (placed .old), congrArg Span.length (placed .new)⟩

/-- A placed hunk stands among the lines of both sides. -/
theorem Excerpt.Placed.stands (placed : e.Placed)
    (whole : e.before ++ e.hunk.lines ++ e.after = all) (side : Side) :
    (e.hunk.span side).start + (e.hunk.shown side).length ≤ (shownLines side all).length := by
  rw [placed side, ← whole, shownLines_append, shownLines_append, List.length_append,
    List.length_append]
  exact Nat.le_add_right _ _

theorem Shows.placed (shows : Shows as bs all h e)
    (recorded : ∀ m r, Framed as bs (scriptBlocks as bs).head? (scriptBlocks as bs).getLast? m h r →
      Recorded h m r) : e.Placed := by
  obtain ⟨m, r, inside, upto, framed⟩ := shows.stands
  obtain ⟨counted, starts⟩ := framed.counted inside shows.some (recorded m r framed)
  intro side
  have start : ((h.reading as bs).span side).start = (shownLines side e.before).length := by
    rw [starts, upto.length inside]
  have length : ((h.reading as bs).span side).length = ((h.reading as bs).shown side).length := by
    cases side
    · exact counted.1
    · exact counted.2
  rw [Excerpt.range, shows.hunk, ← start, ← length]

/-- Context on both ends of a hunk is recorded where it stands. -/
theorem Shows.placed_of_context (shows : Shows as bs all h e) (front : 0 < leading e.hunk.lines)
    (back : 0 < trailing e.hunk.lines) : e.Placed := by
  apply shows.placed
  intro m r framed
  rw [shows.lines] at front back
  constructor
  · intro b head
    cases changed : b.changed with
    | true =>
      rw [leading_flatMap_changed framed.drawn (by simp [Option.mem_def.1 head, changed])] at front
      exact absurd front (Nat.lt_irrefl _)
    | false => exact (front_of_kept framed.route head changed).1
  · intro b last
    cases changed : b.changed with
    | true =>
      rw [trailing_flatMap_changed framed.drawn (by simp [Option.mem_def.1 last, changed])] at back
      exact absurd back (Nat.lt_irrefl _)
    | false => exact (back_of_kept framed.route last changed).1

/-! All hunks of two texts. -/

theorem exists_of_mem {es : List Excerpt} (shows : List.Forall₂ (Shows as bs all) hs es)
    (mem : e ∈ es) : ∃ h ∈ hs, Shows as bs all h e := by
  induction shows with
  | nil => cases mem
  | @cons h f hs es here _ ih =>
    rcases List.mem_cons.1 mem with rfl | later
    · exact ⟨h, by simp, here⟩
    · obtain ⟨g, inside, shows⟩ := ih later
      exact ⟨g, by simp [inside], shows⟩

theorem map_hunk {es : List Excerpt} (shows : List.Forall₂ (Shows as bs all) hs es) :
    es.map (·.hunk) = hs.map (Hunk.reading as bs) := by
  induction shows with
  | nil => rfl
  | cons here _ ih => rw [List.map_cons, List.map_cons, here.hunk, ih]

theorem follows_of_shows {es : List Excerpt} (shows : List.Forall₂ (Shows as bs all) hs es)
    (parted : hs.IsChain Hunk.Parted)
    (next : es.IsChain fun e next =>
      ∃ skipped, Kept skipped ∧ next.before = e.before ++ e.hunk.lines ++ skipped) :
    es.IsChain Excerpt.Follows := by
  induction shows with
  | nil => exact .nil
  | cons here rest ih =>
    cases rest with
    | nil => exact .singleton _
    | cons here' rest =>
      obtain ⟨apart, parted⟩ := List.isChain_cons_cons.1 parted
      obtain ⟨beside, next⟩ := List.isChain_cons_cons.1 next
      exact .cons_cons (here.follows here' apart beside) (ih parted next)

theorem excerpts_hunks (as bs : List String) (some : hunks as bs ≠ []) :
    ∃ all es, (∀ side, shownLines side all = side.items as bs) ∧ Excerpts all es ∧
      es.map (·.hunk) = readings as bs ∧
      (∀ e ∈ es, 0 < leading e.hunk.lines → 0 < trailing e.hunk.lines → e.Placed) ∧
      ((∀ e ∈ es, e.Placed) ↔ Anchored as bs) := by
  obtain ⟨m, route, rest⟩ := leads_hunks as bs
  obtain ⟨all, es, shown, _, shows, joined⟩ :=
    exists_excerpts route rest (inside_zero as bs) upto_zero
  have grouping := grouping_hunks as bs
  have each (e : Excerpt) (mem : e ∈ es) : ∃ h ∈ hunks as bs, Shows as bs all h e :=
    exists_of_mem shows mem
  have same : es.map (·.hunk) = readings as bs := map_hunk shows
  refine ⟨all, es, shown, ?_, same, ?_, ?_, ?_⟩
  · constructor
    · rintro rfl
      exact some (List.forall₂_nil_right_iff.1 shows)
    · intro e mem
      obtain ⟨h, _, here⟩ := each e mem
      exact here.whole
    · intro e mem
      obtain ⟨h, inside, here⟩ := each e mem
      exact here.change (grouping.grouped h inside)
    · intro e mem
      obtain ⟨h, inside, here⟩ := each e mem
      exact here.front (grouping.grouped h inside) (grouping.front h inside)
    · intro e mem
      obtain ⟨h, inside, here⟩ := each e mem
      exact here.back shown (grouping.grouped h inside) (grouping.back h inside)
    · intro e mem run
      obtain ⟨h, inside, here⟩ := each e mem
      exact here.inner (grouping.grouped h inside)
    · intro e head
      obtain ⟨skipped, kept, before⟩ := joined.first e head
      rwa [before]
    · exact joined.last
    · exact follows_of_shows shows grouping.parted joined.next
  · intro e mem
    obtain ⟨h, _, here⟩ := each e mem
    exact here.placed_of_context
  · intro placed
    have read (s : Section) (mem : s ∈ readings as bs) : ∃ e ∈ es, e.hunk = s := by
      rw [← same] at mem
      simpa using mem
    apply anchored_of_stands
    · intro s mem
      obtain ⟨e, inside, rfl⟩ := read s mem
      exact (placed e inside).counted
    · intro s mem side
      obtain ⟨e, inside, rfl⟩ := read s mem
      obtain ⟨h, _, here⟩ := each e inside
      rw [← shown side]
      exact (placed e inside).stands here.whole side
  · intro anchored e mem
    obtain ⟨h, _, here⟩ := each e mem
    exact here.placed fun m r framed => framed.recorded_of anchored.1 anchored.2

/-- The lines of excerpts are lines of the texts. -/
theorem isLine_of_excerpt {content formatted : String}
    (shown : ∀ side, shownLines side all = side.items (Text.lines content) (Text.lines formatted))
    (whole : e.before ++ e.hunk.lines ++ e.after = all) {line : Line} (mem : line ∈ e.hunk.lines) :
    Text.IsLine line.2 := by
  obtain ⟨side, marked⟩ := exists_shown line.1
  have inside : line ∈ all := by simp [← whole, mem]
  have there : line.2 ∈ shownLines side all :=
    List.mem_map_of_mem (List.mem_filter.2 ⟨inside, marked⟩)
  rw [shown] at there
  cases side <;> exact Text.isLine_of_mem there

end FormatPreview.Diff

namespace FormatPreview.Comparison

open Diff

/-- The hunks of a patch show all changes between two texts, with three kept lines around each where
there are as many, and nothing is left out but kept lines. The header of a hunk with context on both
ends names the place and the number of its lines on either side, and all headers do exactly when the
script between the lines of the texts is anchored. -/
theorem patch_groups_changes (name content formatted : String) (differ : content ≠ formatted) :
    let c : Comparison := ⟨name, content, formatted⟩
    let old := Text.lines content
    let new := Text.lines formatted
    ∃ all excerpts,
      c.patch = "--- a/" ++ name ++ "\n+++ b/" ++ name ++ "\n" ++
        String.join ((excerpts.map Excerpt.hunk).flatMap Section.printed) ∧
      (∀ side, shownLines side all = side.items old new) ∧ Excerpts all excerpts ∧
      (∀ e ∈ excerpts, 0 < leading e.hunk.lines → 0 < trailing e.hunk.lines → e.Placed) ∧
      ((∀ e ∈ excerpts, e.Placed) ↔ Anchored old new) := by
  intro c old new
  obtain ⟨all, excerpts, shown, grouped, same, context, placed⟩ :=
    excerpts_hunks old new (hunks_ne_nil differ)
  refine ⟨all, excerpts, ?_, shown, grouped, context, placed⟩
  have differs : c.differs = true := by simpa [c, Comparison.differs] using differ
  rw [Comparison.patch, if_pos differs, patch_eq name differ, hunkText_eq, same]

theorem patch_groups_changes_distant :
    let c : Comparison := ⟨"x", "a\n1\n2\n3\n4\n5\n6\n7\nb\n", "1\n2\n3\n4\n5\n6\n7\nc\n"⟩
    c.content ≠ c.formatted ∧ ∃ all excerpts,
      c.patch = "--- a/x\n+++ b/x\n" ++
        String.join ((excerpts.map Excerpt.hunk).flatMap Section.printed) ∧
      Excerpts all excerpts ∧ (∀ e ∈ excerpts, e.Placed) ∧
      c.patch = "--- a/x\n+++ b/x\n@@ -1,4 +1,3 @@\n-a\n 1\n 2\n 3\n" ++
        "@@ -6,4 +5,4 @@\n 5\n 6\n 7\n-b\n+c\n" := by
  intro c
  have differ : c.content ≠ c.formatted := by decide
  have blocks : scriptBlocks (Text.lines c.content) (Text.lines c.formatted) =
      [⟨true, ⟨0, 1⟩, ⟨0, 0⟩⟩, ⟨false, ⟨1, 7⟩, ⟨0, 7⟩⟩, ⟨true, ⟨8, 1⟩, ⟨7, 1⟩⟩] := by cbv
  have anchored : Anchored (Text.lines c.content) (Text.lines c.formatted) := by
    have old : (Text.lines c.content).length = 9 := by cbv
    have new : (Text.lines c.formatted).length = 8 := by cbv
    rw [Anchored, blocks, old, new]
    constructor <;> rintro b ⟨⟩ <;> rfl
  obtain ⟨all, excerpts, text, _, grouped, _, placed⟩ :=
    patch_groups_changes "x" c.content c.formatted differ
  exact ⟨differ, all, excerpts, text, grouped, placed.2 anchored, by cbv⟩

/-- The insertion has been slid down past the deletion, and its old position leaves out the deleted
line, so that the header ends too early. -/
theorem stale_position_places_nothing :
    let c : Comparison := ⟨"x", "a\na\nb\n", "a\nb\nb\n"⟩
    c.patch = "--- a/x\n+++ b/x\n@@ -1,2 +1,3 @@\n a\n-a\n b\n+b\n" ∧
      ¬ ∃ all excerpts,
        c.patch = "--- a/" ++ c.path ++ "\n+++ b/" ++ c.path ++ "\n" ++
          String.join ((excerpts.map Excerpt.hunk).flatMap Section.printed) ∧
        (∀ side, shownLines side all = side.items (Text.lines c.content) (Text.lines c.formatted)) ∧
        Excerpts all excerpts ∧ ∀ e ∈ excerpts, e.Placed := by
  intro c
  have text : c.patch = "--- a/x\n+++ b/x\n" ++ "@@ -1,2 +1,3 @@\n a\n-a\n b\n+b\n" := by cbv
  refine ⟨text, ?_⟩
  rintro ⟨all, excerpts, named, shown, grouped, placed⟩
  have printed : "@@ -1,2 +1,3 @@\n a\n-a\n b\n+b\n" =
      String.join ((excerpts.map Excerpt.hunk).flatMap Section.printed) :=
    String.append_right_inj _ |>.1 (text.symm.trans named)
  have whole : ∀ s ∈ excerpts.map Excerpt.hunk, ∀ line ∈ s.lines, Text.IsLine line.2 := by
    intro s mem line inside
    obtain ⟨e, member, rfl⟩ := List.mem_map.1 mem
    exact isLine_of_excerpt shown (grouped.whole e member) inside
  have read := Reading.patch?_printed whole
  have unread : Reading.patch? "@@ -1,2 +1,3 @@\n a\n-a\n b\n+b\n" = none := by decide +kernel
  rw [← printed, unread, if_pos (by simpa using fun e mem => (placed e mem).counted)] at read
  cases read

end FormatPreview.Comparison
