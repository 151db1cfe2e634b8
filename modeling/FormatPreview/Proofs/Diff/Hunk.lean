import FormatPreview.Proofs.Diff.Block

/-!
Where hunks lead. The hunks of two lists leave out nothing but unchanged items. A hunk begins and
ends with kept items, unless it begins with the first block of the script or ends with the last.
-/
namespace FormatPreview.Diff

variable {α : Type} {as bs : List α} {p q r : Cut} {b : Block}

namespace Block

/-- A part of a kept block, given by what is left out before it and its length. -/
theorem Leads.part (here : b.Leads as bs p q) (kept : b.changed = false) (start length : Nat)
    (some : 0 < length) (within : start + length ≤ b.old.length) :
    Block.Leads as bs (p.ahead start)
      ⟨b.changed, ⟨b.old.start + start, length⟩, ⟨b.new.start + start, length⟩⟩
      (p.ahead (start + length)) := by
  obtain ⟨rfl, same⟩ := here.kept_span kept
  have inside := here.inside
  obtain ⟨rfl, _⟩ := here.ends_of_kept kept
  refine ⟨?_, ?_, by simp only; omega, fun _ => rfl, fun _ => rfl,
    fun _ => ⟨rfl, Span.of_part same within⟩⟩
  · simp only [Cut.ahead, Nat.add_assoc]
  · simp only [Cut.Inside, Cut.ahead] at *
    omega

theorem Leads.takeFront (here : b.Leads as bs p q) (kept : b.changed = false) {count : Nat}
    (some : 0 < count) :
    (b.takeFront count).Leads as bs p (p.ahead (min b.old.length count)) := by
  obtain ⟨length, _⟩ := here.same kept
  have someHere := here.some
  have part := here.part kept 0 (min b.old.length count) (by omega) (by omega)
  simpa [Block.takeFront, ← length, Cut.ahead] using part

theorem Leads.takeBack (here : b.Leads as bs p q) (kept : b.changed = false) {count : Nat}
    (some : 0 < count) :
    (b.takeBack count).Leads as bs (p.ahead (b.old.length - count)) q := by
  obtain ⟨length, _⟩ := here.same kept
  obtain ⟨rfl, _⟩ := here.kept_span kept
  have someHere := here.some
  have part := here.part kept (b.old.length - count)
    (b.old.length - (b.old.length - count)) (by omega) (by omega)
  rw [Nat.add_sub_cancel' (Nat.sub_le _ _)] at part
  simpa [Block.takeBack, dropFront, ← length] using part

theorem Leads.unchanged_part (here : b.Leads as bs p q) (kept : b.changed = false)
    (start stop : Nat) (ordered : start ≤ stop) (within : stop ≤ b.old.length) :
    (p.ahead start).Unchanged as bs (p.ahead stop) := by
  obtain ⟨rfl, same⟩ := here.kept_span kept
  exact .part here.inside same ordered within

end Block

/-- Blocks that lead from a point to another. If they begin or end with a change, they do so where
the lists begin or end, and it is the given block. -/
structure Framed (as bs : List α) (first last : Option Block) (p : Cut) (blocks : List Block)
    (q : Cut) : Prop where
  route : Route (Block.Leads as bs) p blocks q
  front : ∀ b ∈ blocks.head?, b.changed = true → p = ⟨0, 0⟩ ∧ first = some b
  back : ∀ b ∈ blocks.getLast?, b.changed = true → q = ⟨as.length, bs.length⟩ ∧ last = some b

/-- Where a hunk leads: over unchanged items to its blocks, and over these. -/
def Hunk.Leads (as bs : List α) (first last : Option Block) (p : Cut) (h : Hunk) (q : Cut) : Prop :=
  h ≠ [] ∧ ∃ m, p.Unchanged as bs m ∧ Framed as bs first last m h q

variable {first last : Option Block}

theorem inside_of_blocks {blocks : List Block} (route : Route (Block.Leads as bs) p blocks q)
    (inside : p.Inside as bs) : q.Inside as bs := by
  induction route with
  | nil => exact inside
  | cons here _ ih => exact ih here.inside

theorem unchanged_of_kept {blocks : List Block} (route : Route (Block.Leads as bs) p blocks q)
    (inside : p.Inside as bs) (kept : ∀ b ∈ blocks, b.changed = false) : p.Unchanged as bs q := by
  induction route with
  | nil => exact .refl inside
  | cons here _ ih =>
    have rest := ih here.inside fun b mem => kept b (by simp [mem])
    exact (here.unchanged (kept _ (by simp))).trans rest

theorem trimBack_ne_nil (b : Block) (rest : List Block) : trimBack (b :: rest) ≠ [] := by
  cases rest with
  | nil => cases changed : b.changed <;> simp [trimBack, changed]
  | cons next rest => simp [trimBack]

theorem leads_trimFront {blocks : List Block} (route : Route (Block.Leads as bs) ⟨0, 0⟩ blocks q) :
    ∃ m, Cut.Unchanged as bs ⟨0, 0⟩ m ∧ Route (Block.Leads as bs) m (trimFront blocks) q ∧
      ∀ b ∈ (trimFront blocks).head?, b.changed = true → m = ⟨0, 0⟩ := by
  have start : (⟨0, 0⟩ : Cut).Inside as bs := ⟨Nat.zero_le _, Nat.zero_le _⟩
  cases route with
  | nil => exact ⟨_, .refl start, .nil, by simp [trimFront]⟩
  | @cons _ m _ b rest here route =>
    cases changed : b.changed with
    | true => exact ⟨_, .refl start, by simpa [trimFront, changed] using .cons here route, by simp⟩
    | false =>
      refine ⟨_, here.unchanged_part changed 0 _ (Nat.zero_le _) (Nat.sub_le _ context), ?_, ?_⟩
      · simpa [trimFront, changed] using .cons (here.takeBack changed (by decide)) route
      · simp [trimFront, changed, Block.takeBack, Block.dropFront]

theorem leads_trimBack {blocks : List Block} (route : Route (Block.Leads as bs) p blocks q)
    (inside : p.Inside as bs) :
    ∃ m, m.Unchanged as bs q ∧ Route (Block.Leads as bs) p (trimBack blocks) m ∧
      ∀ b ∈ (trimBack blocks).getLast?, b.changed = true → m = q := by
  induction route with
  | nil => exact ⟨_, .refl inside, .nil, by simp [trimBack]⟩
  | @cons p m q b rest here route ih =>
    cases rest with
    | nil =>
      cases route
      cases changed : b.changed with
      | true => exact ⟨_, .refl here.inside, by simpa [trimBack, changed] using .one here, by simp⟩
      | false =>
        have whole := (here.kept_span changed).1
        refine ⟨_, whole ▸ here.unchanged_part changed _ _ (Nat.min_le_left _ context) (Nat.le_refl _),
          ?_, ?_⟩
        · simpa [trimBack, changed] using .one (here.takeFront changed (by decide))
        · simp [trimBack, changed, Block.takeFront]
    | cons next rest =>
      obtain ⟨m', unchanged, route', back⟩ := ih here.inside
      refine ⟨m', unchanged, .cons here route', ?_⟩
      rwa [trimBack, List.getLast?_cons_of_ne_nil (trimBack_ne_nil next rest)]

theorem head_trimFront {blocks : List Block} (changed : b.changed = true) :
    (trimFront blocks).head? = some b ↔ blocks.head? = some b := by
  cases blocks with
  | nil => rfl
  | cons first rest =>
    cases kept : first.changed <;> simp [trimFront, kept, Block.takeBack, Block.dropFront]
    constructor <;> rintro rfl <;> simp_all

theorem head_trimBack {blocks : List Block} (changed : b.changed = true) :
    (trimBack blocks).head? = some b ↔ blocks.head? = some b := by
  fun_cases trimBack blocks with
  | case1 | case2 | case4 => rfl
  | case3 first kept =>
    simp only [List.head?_cons, Option.some.injEq]
    constructor <;> rintro rfl <;> simp_all [Block.takeFront]

theorem last_trimFront {blocks : List Block} (changed : b.changed = true) :
    (trimFront blocks).getLast? = some b ↔ blocks.getLast? = some b := by
  cases blocks with
  | nil => rfl
  | cons first rest =>
    cases rest with
    | nil =>
      cases kept : first.changed <;> simp [trimFront, kept, Block.takeBack, Block.dropFront]
      constructor <;> rintro rfl <;> simp_all
    | cons => cases kept : first.changed <;> simp [trimFront, kept]

theorem last_trimBack {blocks : List Block} (changed : b.changed = true) :
    (trimBack blocks).getLast? = some b ↔ blocks.getLast? = some b := by
  fun_induction trimBack blocks with
  | case1 => rfl
  | case2 => rfl
  | case3 first kept =>
    simp only [List.getLast?_singleton, Option.some.injEq]
    constructor <;> rintro rfl <;> simp_all [Block.takeFront]
  | case4 first next rest ih =>
    rw [List.getLast?_cons_of_ne_nil (trimBack_ne_nil next rest), ih, List.getLast?_cons_cons]

variable {start : Cut} {current rest : List Block}

theorem Framed.of_append_kept {before : List Block} (here : b.Leads as bs p q)
    (kept : b.changed = false) (route : Route (Block.Leads as bs) r before p)
    (front : ∀ c ∈ (before ++ b :: rest).head?, c.changed = true → r = ⟨0, 0⟩ ∧ first = some c) :
    Framed as bs first last r (before ++ [b.takeFront context])
      (p.ahead (min b.old.length context)) := by
  refine ⟨route.append (.one (here.takeFront kept (by decide))), ?_, ?_⟩
  · cases before with
    | nil => simp [Block.takeFront, kept]
    | cons b' before => simpa using front
  · simp [Block.takeFront, kept]

theorem Framed.of_kept_cons (here : b.Leads as bs p q) (kept : b.changed = false)
    (route : Route (Block.Leads as bs) q rest r)
    (back : ∀ c ∈ (b :: rest).getLast?, c.changed = true →
      r = ⟨as.length, bs.length⟩ ∧ last = some c) :
    Framed as bs first last (p.ahead (b.old.length - context)) (b.takeBack context :: rest) r := by
  refine ⟨.cons (here.takeBack kept (by decide)) route, ?_, ?_⟩
  · simp [Block.takeBack, Block.dropFront, kept]
  · cases rest with
    | nil => simp [Block.takeBack, Block.dropFront, kept]
    | cons b' rest => simpa using back

/-- The invariant of grouping: the current hunk and the blocks still to come lead on from it. -/
theorem leads_hunksFrom (gap : start.Unchanged as bs p)
    (framed : Framed as bs first last p (current.reverse ++ rest) q) :
    ∃ m, Route (Hunk.Leads as bs first last) start (hunksFrom current rest) m ∧
      m.Unchanged as bs q := by
  have inside : p.Inside as bs := gap.inside
  fun_induction hunksFrom current rest generalizing start p with
  | case1 current change =>
    rw [List.append_nil] at framed
    have some : current.reverse ≠ [] := by
      rintro none
      simp [List.reverse_eq_nil_iff.1 none] at change
    exact ⟨_, .one ⟨some, _, gap, framed⟩, .refl (inside_of_blocks framed.route inside)⟩
  | case2 current kept =>
    rw [List.append_nil] at framed
    have unchanged := unchanged_of_kept framed.route inside (by simpa using kept)
    exact ⟨_, .nil, gap.trans unchanged⟩
  | case3 current b rest long ih =>
    simp only [Bool.and_eq_true, Bool.not_eq_true', decide_eq_true_eq] at long
    obtain ⟨kept, long⟩ := long
    obtain ⟨m, done, todo⟩ := framed.route.split
    cases todo with
    | cons here todo =>
      have upper : Framed as bs first last p (current.reverse ++ [b.takeFront context])
          (m.ahead (min b.old.length context)) := .of_append_kept here kept done framed.front
      have lower : Framed as bs first last (m.ahead (b.old.length - context))
          (b.takeBack context :: rest) q := by
        apply Framed.of_kept_cons here kept todo
        have back := framed.back
        rwa [List.getLast?_append_of_ne_nil _ (by simp)] at back
      have between := here.unchanged_part kept (min b.old.length context)
        (b.old.length - context) (by omega) (by omega)
      obtain ⟨m', hunks, unchanged⟩ := ih between lower between.inside
      refine ⟨m', .cons ⟨by simp, p, gap, ?_⟩ hunks, unchanged⟩
      rwa [List.reverse_cons]
  | case4 current b rest short ih =>
    exact ih gap (by simpa using framed) inside

theorem head_hunksFrom (head : (current.reverse ++ rest).head? = some b)
    (changed : b.changed = true) :
    ∃ h ∈ (hunksFrom current rest).head?, h.head? = some b := by
  fun_induction hunksFrom current rest with
  | case1 current change => exact ⟨_, rfl, by simpa using head⟩
  | case2 current kept =>
    have mem : b ∈ current := by
      have := List.mem_of_mem_head? head
      simpa using this
    simp only [Bool.not_eq_true, List.any_eq_false] at kept
    simp [kept b mem] at changed
  | case3 current b' rest long ih =>
    refine ⟨_, rfl, ?_⟩
    cases before : current.reverse with
    | nil =>
      obtain rfl : b' = b := by simpa [before] using head
      simp [changed] at long
    | cons c before' => simpa [before] using head
  | case4 current b' rest short ih => exact ih (by simpa using head)

theorem last_hunksFrom (last : (current.reverse ++ rest).getLast? = some b)
    (changed : b.changed = true) :
    ∃ h ∈ (hunksFrom current rest).getLast?, h.getLast? = some b := by
  fun_induction hunksFrom current rest with
  | case1 current change => exact ⟨_, rfl, by simpa using last⟩
  | case2 current kept =>
    have mem : b ∈ current := by
      have := List.mem_of_getLast? last
      simpa using this
    simp only [Bool.not_eq_true, List.any_eq_false] at kept
    simp [kept b mem] at changed
  | case3 current b' rest long ih =>
    cases rest with
    | nil =>
      obtain rfl : b' = b := by simpa using last
      simp [changed] at long
    | cons c rest =>
      obtain ⟨h, mem, end'⟩ := ih (by simpa using last)
      refine ⟨h, ?_, end'⟩
      rw [List.getLast?_cons_of_ne_nil (by rintro none; simp [none] at mem)]
      exact mem
  | case4 current b' rest short ih => exact ih (by simpa using last)

variable [DecidableEq α]

def scriptBlocks (as bs : List α) : List Block := blocks (compact as bs (script as bs))

theorem leads_scriptBlocks (as bs : List α) :
    Route (Block.Leads as bs) ⟨0, 0⟩ (scriptBlocks as bs) ⟨as.length, bs.length⟩ :=
  leads_blocks (leads_compact (leads_script as bs)) ⟨Nat.zero_le _, Nat.zero_le _⟩

theorem leads_hunks (as bs : List α) :
    ∃ m, Route (Hunk.Leads as bs (scriptBlocks as bs).head? (scriptBlocks as bs).getLast?) ⟨0, 0⟩
      (hunks as bs) m ∧ m.Unchanged as bs ⟨as.length, bs.length⟩ := by
  obtain ⟨p, before, route, front⟩ := leads_trimFront (leads_scriptBlocks as bs)
  obtain ⟨q, after, route, back⟩ := leads_trimBack route before.inside
  have framed : Framed as bs (scriptBlocks as bs).head? (scriptBlocks as bs).getLast? p
      ([].reverse ++ trimBack (trimFront (scriptBlocks as bs))) q := by
    refine ⟨route, fun b head changed => ?_, fun b last changed => ?_⟩
    · have head := (head_trimBack changed).1 head
      exact ⟨front b head changed, (head_trimFront changed).1 head⟩
    · have last' := (last_trimBack changed).1 last
      rw [back b last changed]
      exact ⟨rfl, (last_trimFront changed).1 last'⟩
  obtain ⟨m, hunks, rest⟩ := leads_hunksFrom before framed
  exact ⟨m, hunks, rest.trans after⟩

/-- A change at the front of the script begins the first hunk. -/
theorem head_hunks {as bs : List α} (head : (scriptBlocks as bs).head? = some b)
    (changed : b.changed = true) : ∃ h ∈ (hunks as bs).head?, h.head? = some b :=
  head_hunksFrom ((head_trimBack changed).2 ((head_trimFront changed).2 head)) changed

/-- A change at the end of the script ends the last hunk. -/
theorem last_hunks {as bs : List α} (last : (scriptBlocks as bs).getLast? = some b)
    (changed : b.changed = true) : ∃ h ∈ (hunks as bs).getLast?, h.getLast? = some b :=
  last_hunksFrom ((last_trimBack changed).2 ((last_trimFront changed).2 last)) changed

end FormatPreview.Diff
