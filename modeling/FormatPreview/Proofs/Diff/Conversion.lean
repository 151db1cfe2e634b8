import FormatPreview.Comparison
import FormatPreview.Proofs.Diff.Section
import Mathlib

/-!
Patches turn each text into the other exactly when the script is anchored. Where it is, each hunk
stands where it leads. Where it is not, a hunk at the front or at the back of the lists counts
other lines than it shows, or shows lines past the end.
-/
namespace FormatPreview.Diff

variable {as bs : List String} {p q : Cut} {first last : Option Block} {hs : List Hunk}

theorem Span.of_append_drop {α : Type} (start length : Nat) (items : List α) :
    Span.of ⟨start, length⟩ items ++ items.drop (start + length) = items.drop start := by
  rw [Span.of, ← List.drop_drop, List.take_append_drop]

theorem Cut.Unchanged.on (unchanged : p.Unchanged as bs q) (side : Side) :
    ∃ gap, q.on side = p.on side + gap ∧ q.on side.other = p.on side.other + gap ∧
      Span.of ⟨p.on side, gap⟩ (side.items as bs) =
        Span.of ⟨p.on side.other, gap⟩ (side.other.items as bs) := by
  obtain ⟨gap, rfl, _, same⟩ := unchanged
  cases side
  · exact ⟨gap, rfl, rfl, same⟩
  · exact ⟨gap, rfl, rfl, same.symm⟩

theorem Framed.recorded_of (framed : Framed as bs first last p h q)
    (front : ∀ b ∈ first, b.front = ⟨0, 0⟩) (back : ∀ b ∈ last, b.back = ⟨as.length, bs.length⟩) :
    Recorded h p q := by
  constructor
  · intro b head
    cases changed : b.changed with
    | true =>
      obtain ⟨rfl, given⟩ := framed.front b head changed
      exact front b given
    | false => exact (front_of_kept framed.route head changed).1
  · intro b last
    cases changed : b.changed with
    | true =>
      obtain ⟨rfl, given⟩ := framed.back b last changed
      exact back b given
    | false => exact (back_of_kept framed.route last changed).1

/-- Unchanged items at the end of both lists are the ends of the lists. -/
theorem Cut.Unchanged.drop_eq (rest : p.Unchanged as bs ⟨as.length, bs.length⟩) (side : Side) :
    (side.items as bs).drop (p.on side) = (side.other.items as bs).drop (p.on side.other) := by
  obtain ⟨gap, here, there, same⟩ := rest.on side
  have ends : ∀ side, Cut.on ⟨as.length, bs.length⟩ side = (side.items as bs).length := by
    intro side
    cases side <;> rfl
  rw [ends] at here there
  simpa [Span.of, List.take_of_length_le, here, there] using same

/-- The invariant of applying hunks: before each, what is left of both lists starts at the point
that the hunk leads from. -/
theorem rewrite_hunks (route : Route (Hunk.Leads as bs first last) p hs q)
    (rest : q.Unchanged as bs ⟨as.length, bs.length⟩) (inside : p.Inside as bs)
    (front : ∀ b ∈ first, b.front = ⟨0, 0⟩) (back : ∀ b ∈ last, b.back = ⟨as.length, bs.length⟩)
    (side : Side) :
    rewrite? side (p.on side) ((side.items as bs).drop (p.on side))
      (hs.map (Hunk.reading as bs)) = some ((side.other.items as bs).drop (p.on side.other)) := by
  induction route with
  | nil => rw [List.map_nil, rewrite?, rest.drop_eq]
  | @cons p q r h hs here _ ih =>
    obtain ⟨some, m, gap, framed⟩ := here
    have started := (framed.counted gap.inside some (framed.recorded_of front back)).2 side
    obtain ⟨count, reach, shown, length⟩ := framed.shown gap.inside side
    obtain ⟨count', reach', shown', _⟩ := framed.shown gap.inside side.other
    obtain ⟨skip, apart, apart', same⟩ := gap.on side
    have within := (framed.inside gap.inside).on side
    have rest := ih rest (framed.inside gap.inside)
    have skipped : m.on side - p.on side = skip := by omega
    have there : ((side.items as bs).drop (p.on side)).drop skip =
        (side.items as bs).drop (m.on side) := by
      rw [List.drop_drop, apart]
    have next : ((side.items as bs).drop (m.on side)).drop count =
        (side.items as bs).drop (q.on side) := by
      rw [List.drop_drop, reach]
    have stands : ((h.reading as bs).shown side).isPrefixOf
        ((side.items as bs).drop (m.on side)) = true := by
      rw [shown, List.isPrefixOf_iff_prefix]
      exact List.take_prefix _ _
    have ordered : p.on side ≤ m.on side := by omega
    have fits : skip ≤ ((side.items as bs).drop (p.on side)).length := by
      rw [List.length_drop]
      omega
    simp only [List.map_cons, rewrite?, started, length, skipped, there, next, stands, ordered, fits,
      ← reach, rest, and_self, if_true, Option.map_some, Option.some.injEq]
    calc
      ((side.items as bs).drop (p.on side)).take skip ++ (h.reading as bs).shown side.other ++
          (side.other.items as bs).drop (q.on side.other)
        = Span.of ⟨p.on side.other, skip⟩ (side.other.items as bs) ++
            (Span.of ⟨m.on side.other, count'⟩ (side.other.items as bs) ++
              (side.other.items as bs).drop (q.on side.other)) := by
          rw [List.append_assoc, shown', ← same]
          rfl
      _ = Span.of ⟨p.on side.other, skip⟩ (side.other.items as bs) ++
            (side.other.items as bs).drop (m.on side.other) := by
          rw [reach', Span.of_append_drop]
      _ = (side.other.items as bs).drop (p.on side.other) := by
          rw [apart', Span.of_append_drop]

theorem stands_of_rewrite {side : Side} {position : Nat} {lines : List String}
    {sections : List Section} (done : (rewrite? side position lines sections).isSome) :
    ∀ s ∈ sections, (s.span side).start + (s.shown side).length ≤ position + lines.length := by
  fun_induction rewrite? side position lines sections with
  | case1 => simp
  | case2 position lines s rest start gap here fits ih =>
    obtain ⟨ordered, within, stands⟩ := fits
    have room := (List.isPrefixOf_iff_prefix.1 stands).length_le
    have left : here.length = lines.length - gap := List.length_drop
    intro t mem
    rcases List.mem_cons.1 mem with rfl | mem
    · show start + (t.shown side).length ≤ position + lines.length
      omega
    · have later := ih (by simpa using done) t mem
      rw [List.length_drop] at later
      omega
  | case3 => simp at done

def hunkText (as bs : List String) : String :=
  String.join ((hunks as bs).map fun h => header h ++ String.join (h.map (body as bs)))

def readings (as bs : List String) : List Section := (hunks as bs).map (Hunk.reading as bs)

theorem exists_framed {h : Hunk} (route : Route (Hunk.Leads as bs first last) p hs q)
    (inside : p.Inside as bs) (mem : h ∈ hs) :
    h ≠ [] ∧ ∃ m r, m.Inside as bs ∧ Framed as bs first last m h r := by
  induction route with
  | nil => simp at mem
  | cons here _ ih =>
    obtain ⟨some, m, gap, framed⟩ := here
    rcases List.mem_cons.1 mem with rfl | mem
    · exact ⟨some, m, _, gap.inside, framed⟩
    · exact ih (framed.inside gap.inside) mem

theorem inside_zero (as bs : List String) : (⟨0, 0⟩ : Cut).Inside as bs :=
  ⟨Nat.zero_le _, Nat.zero_le _⟩

theorem exists_framed_hunk {h : Hunk} (mem : h ∈ hunks as bs) :
    h ≠ [] ∧ ∃ m r, m.Inside as bs ∧
      Framed as bs (scriptBlocks as bs).head? (scriptBlocks as bs).getLast? m h r := by
  obtain ⟨_, route, _⟩ := leads_hunks as bs
  exact exists_framed route (inside_zero as bs) mem

theorem hunkText_eq (as bs : List String) :
    hunkText as bs = String.join ((readings as bs).flatMap Section.printed) := by
  have each : ∀ hs ⊆ hunks as bs,
      String.join (hs.map fun h => header h ++ String.join (h.map (body as bs))) =
        String.join ((hs.map (Hunk.reading as bs)).flatMap Section.printed) := by
    intro hs all
    induction hs with
    | nil => rfl
    | cons h hs ih =>
      have some := (exists_framed_hunk (all (List.mem_cons_self ..))).1
      have rest := ih fun _ mem => all (List.mem_cons_of_mem _ mem)
      rw [List.map_cons, List.map_cons, List.flatMap_cons, String.join_cons, String.join_append,
        join_printed some, rest]
  exact each _ fun _ mem => mem

/-- The lines of a hunk are lines of the texts. -/
theorem mem_of_reading {s : Section} (mem : s ∈ readings as bs) :
    ∀ line ∈ s.lines, line.2 ∈ as ∨ line.2 ∈ bs := by
  obtain ⟨h, _, rfl⟩ := List.mem_map.1 mem
  have span : ∀ (span : Span) (items : List String), span.of items ⊆ items := fun span items _ mem =>
    List.mem_of_mem_drop (List.mem_of_mem_take mem)
  intro line shown
  obtain ⟨b, _, shown⟩ := List.mem_flatMap.1 shown
  unfold Block.lines at shown
  split at shown
  · rcases List.mem_append.1 shown with shown | shown
    · obtain ⟨_, mem, rfl⟩ := List.mem_map.1 shown
      exact .inl (span _ _ mem)
    · obtain ⟨_, mem, rfl⟩ := List.mem_map.1 shown
      exact .inr (span _ _ mem)
  · obtain ⟨_, mem, rfl⟩ := List.mem_map.1 shown
    exact .inl (span _ _ mem)

theorem isLine_of_reading {content formatted : String} {s : Section}
    (mem : s ∈ readings (Text.lines content) (Text.lines formatted)) :
    ∀ line ∈ s.lines, Text.IsLine line.2 := fun line shown =>
  (mem_of_reading mem line shown).elim Text.isLine_of_mem Text.isLine_of_mem

theorem patch?_hunkText (content formatted : String) :
    Reading.patch? (hunkText (Text.lines content) (Text.lines formatted)) =
      if ∀ s ∈ readings (Text.lines content) (Text.lines formatted), s.Counted then
        some (readings (Text.lines content) (Text.lines formatted)) else none := by
  rw [hunkText_eq, Reading.patch?_printed fun s mem => isLine_of_reading mem]

/-- The hunks of an anchored script turn each list into the other. -/
theorem rewrite_readings (anchored : Anchored as bs) (side : Side) :
    rewrite? side 0 (side.items as bs) (readings as bs) = some (side.other.items as bs) := by
  obtain ⟨_, route, rest⟩ := leads_hunks as bs
  have zero : ∀ side, Cut.on ⟨0, 0⟩ side = 0 := by
    intro side
    cases side <;> rfl
  simpa [readings, zero] using
    rewrite_hunks route rest (inside_zero as bs) anchored.1 anchored.2 side

theorem counted_of_anchored (anchored : Anchored as bs) : ∀ s ∈ readings as bs, s.Counted := by
  intro s mem
  obtain ⟨h, hunk, rfl⟩ := List.mem_map.1 mem
  obtain ⟨some, m, r, inside, framed⟩ := exists_framed_hunk hunk
  exact (framed.counted inside some (framed.recorded_of anchored.1 anchored.2)).1

/-- Hunks that are counted right and have room in both lists come from an anchored script. -/
theorem anchored_of_stands (counted : ∀ s ∈ readings as bs, s.Counted)
    (stands : ∀ s ∈ readings as bs, ∀ side,
      (s.span side).start + (s.shown side).length ≤ (side.items as bs).length) :
    Anchored as bs := by
  have recorded : ∀ h ∈ hunks as bs, ∃ m r, Recorded h m r ∧
      Framed as bs (scriptBlocks as bs).head? (scriptBlocks as bs).getLast? m h r := by
    intro h mem
    obtain ⟨some, m, r, inside, framed⟩ := exists_framed_hunk mem
    have reading := List.mem_map_of_mem (f := Hunk.reading as bs) mem
    exact ⟨m, r, framed.recorded inside some (counted _ reading) (stands _ reading), framed⟩
  have route := leads_scriptBlocks as bs
  constructor
  · intro b head
    cases changed : b.changed with
    | true =>
      obtain ⟨h, mem, begins⟩ := head_hunks head changed
      obtain ⟨m, r, recorded, framed⟩ := recorded h (List.mem_of_mem_head? mem)
      rw [recorded.1 b begins, (framed.front b begins changed).1]
    | false => exact (front_of_kept route head changed).1
  · intro b last
    cases changed : b.changed with
    | true =>
      obtain ⟨h, mem, ends⟩ := last_hunks last changed
      obtain ⟨m, r, recorded, framed⟩ := recorded h (List.mem_of_getLast? mem)
      rw [recorded.2 b ends, (framed.back b ends changed).1]
    | false => exact (back_of_kept route last changed).1

/-- Hunks that are counted right and stand in both lists come from an anchored script. -/
theorem anchored_of_rewrite (counted : ∀ s ∈ readings as bs, s.Counted)
    (done : ∀ side, (rewrite? side 0 (side.items as bs) (readings as bs)).isSome) :
    Anchored as bs := by
  apply anchored_of_stands counted
  intro s mem side
  simpa using stands_of_rewrite (done side) s mem

theorem converts_iff (content formatted : String) :
    Converts (hunkText (Text.lines content) (Text.lines formatted)) content formatted ↔
      Anchored (Text.lines content) (Text.lines formatted) := by
  constructor
  · rintro ⟨sections, read, forth, back⟩
    rw [patch?_hunkText] at read
    split at read
    · next counted =>
      obtain rfl := Option.some.inj read
      apply anchored_of_rewrite counted
      intro side
      cases side
      · simpa [converted?, Side.items] using congrArg Option.isSome forth
      · simpa [converted?, Side.items] using congrArg Option.isSome back
    · simp at read
  · intro anchored
    refine ⟨_, (patch?_hunkText content formatted).trans (if_pos (counted_of_anchored anchored)),
      ?_, ?_⟩
    · have forth := rewrite_readings anchored .old
      simp only [Side.items, Side.other] at forth
      rw [converted?, forth, Option.map_some, Text.join_lines]
    · have back := rewrite_readings anchored .new
      simp only [Side.items, Side.other] at back
      rw [converted?, back, Option.map_some, Text.join_lines]

theorem eq_of_hunks (none : hunks as bs = []) : as = bs := by
  obtain ⟨m, route, rest⟩ := leads_hunks as bs
  rw [none] at route
  cases route
  simpa [Side.items, Side.other, Cut.on] using rest.drop_eq .old

/-- Texts that differ have a hunk between them. -/
theorem hunks_ne_nil {content formatted : String} (differ : content ≠ formatted) :
    hunks (Text.lines content) (Text.lines formatted) ≠ [] := by
  intro none
  have same := congrArg String.join (eq_of_hunks none)
  rw [Text.join_lines, Text.join_lines] at same
  exact differ same

theorem patch_eq {content formatted : String} (name : String) (differ : content ≠ formatted) :
    patch name content formatted = "--- a/" ++ name ++ "\n+++ b/" ++ name ++ "\n" ++
      hunkText (Text.lines content) (Text.lines formatted) := by
  simp only [patch, List.isEmpty_iff, List.map_eq_nil_iff, hunks_ne_nil differ, if_false]
  rfl

end Diff

namespace Comparison

/-- The patch names the file on both sides, and its hunks turn each text into the other exactly when
the script between the lines of the texts is anchored. -/
theorem patch_converts_iff_anchored (name content formatted : String) :
    let c : Comparison := ⟨name, content, formatted⟩
    (c.path = name ∧ c.content = content ∧ c.formatted = formatted) ∧
      (c.differs = true ↔ content ≠ formatted) ∧ (c.differs = true ↔ c.patch ≠ "") ∧
      (content ≠ formatted → ∃ hunkText,
        c.patch = "--- a/" ++ name ++ "\n+++ b/" ++ name ++ "\n" ++ hunkText ∧
          (Diff.Converts hunkText content formatted ↔
            Diff.Anchored (Text.lines content) (Text.lines formatted))) := by
  intro c
  have differs : c.differs = true ↔ content ≠ formatted := by simp [c, Comparison.differs]
  have text : content ≠ formatted → c.patch = "--- a/" ++ name ++ "\n+++ b/" ++ name ++ "\n" ++
      Diff.hunkText (Text.lines content) (Text.lines formatted) := by
    intro differ
    rw [Comparison.patch, if_pos (differs.2 differ)]
    exact Diff.patch_eq name differ
  refine ⟨⟨rfl, rfl, rfl⟩, differs, ?_, ?_⟩
  · constructor
    · intro differ none
      rw [text (differs.1 differ)] at none
      have chars := congrArg String.toList none
      simp at chars
    · intro some
      by_contra same
      exact some (if_neg same)
  · exact fun differ => ⟨_, text differ, Diff.converts_iff content formatted⟩

/-- The insertion has been slid over the first line, and the deletion after it still names the
second line of the new text. -/
theorem stale_position_converts_nothing :
    let c : Comparison := ⟨"x", "a\nb\n", "b\nb\n"⟩
    c.patch = "--- a/x\n+++ b/x\n@@ -1 +2 @@\n-a\n b\n+b\n" ∧
      ¬ ∃ hunkText, c.patch = "--- a/" ++ c.path ++ "\n+++ b/" ++ c.path ++ "\n" ++ hunkText ∧
        Diff.Converts hunkText c.content c.formatted := by
  intro c
  have text : c.patch = "--- a/x\n+++ b/x\n" ++ "@@ -1 +2 @@\n-a\n b\n+b\n" := by cbv
  refine ⟨text, ?_⟩
  rintro ⟨hunkText, named, sections, read, _⟩
  have same : "@@ -1 +2 @@\n-a\n b\n+b\n" = hunkText :=
    String.append_right_inj _ |>.1 (text.symm.trans named)
  have unread : Diff.Reading.patch? "@@ -1 +2 @@\n-a\n b\n+b\n" = none := by decide +kernel
  rw [← same, unread] at read
  cases read

end Comparison

end FormatPreview
