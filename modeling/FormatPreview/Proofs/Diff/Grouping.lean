import FormatPreview.Proofs.Diff.Hunk

/-!
How hunks are grouped. The blocks of a script are changes and kept runs in turn, and so are those of
a hunk. A hunk has a change, shows no more than one context at either end and no more than two
between its changes, and two neighbours are the ends of one kept run that is longer than that.
-/
namespace FormatPreview.Diff

theorem Route.exists_step {σ : Type} {step : Cut → σ → Cut → Prop} {p q : Cut} {xs : List σ} {s : σ}
    (route : Route step p xs q) (mem : s ∈ xs) : ∃ m r, step m s r := by
  obtain ⟨before, after, rfl⟩ := List.append_of_mem mem
  obtain ⟨m, _, rest⟩ := route.split
  cases rest with
  | cons here _ => exact ⟨m, _, here⟩

/-- Changes and kept runs in turn. -/
def Alternating (blocks : List Block) : Prop := (blocks.map (·.changed)).IsChain (· ≠ ·)

variable {b c : Block} {bl current rest : List Block}

theorem Alternating.left {ys : List Block} (alternating : Alternating (current ++ ys)) :
    Alternating current := by
  rw [Alternating, List.map_append] at alternating
  exact alternating.left_of_append

theorem Alternating.right {xs : List Block} (alternating : Alternating (xs ++ rest)) :
    Alternating rest := by
  rw [Alternating, List.map_append] at alternating
  exact alternating.right_of_append

theorem alternating_congr (same : bl.map (·.changed) = rest.map (·.changed)) :
    Alternating bl ↔ Alternating rest := by
  rw [Alternating, Alternating, same]

theorem alternating_cons_cons :
    Alternating (b :: c :: rest) ↔ b.changed ≠ c.changed ∧ Alternating (c :: rest) := by
  simp [Alternating]

theorem alternating_blocks (edits : List Edit) : Alternating (blocks edits) := by
  rw [Alternating, blocks, List.map_map, List.isChain_map]
  apply (List.isChain_getLast_head_splitBy together edits).imp_of_mem_imp
  rintro run next mem mem' ⟨some, some', apart⟩
  have flag : ∀ run ∈ edits.splitBy together, ∀ e ∈ run,
      (if run.all (·.kind = .kept) then Block.kept run else Block.change run).changed =
        decide (e.kind ≠ .kept) := by
    intro run mem e inside
    rcases uniform_of_chain (List.isChain_of_mem_splitBy mem) with kept | changes
    · rw [if_pos (by simpa using kept)]
      simp [Block.kept, kept e inside]
    · rw [if_neg (by simpa using ⟨e, inside, changes e inside⟩)]
      simp [Block.change, changes e inside]
  have here := flag run mem _ (List.getLast_mem some)
  have there := flag next mem' _ (List.head_mem some')
  simp only [Function.comp_apply]
  rw [here, there]
  simpa [together] using apart

/-! Trimming the ends. -/

@[simp] theorem changed_trimFront (bl : List Block) :
    (trimFront bl).map (·.changed) = bl.map (·.changed) := by
  cases bl with
  | nil => rfl
  | cons b rest =>
    cases kept : b.changed <;> simp [trimFront, kept, Block.takeBack, Block.dropFront]

@[simp] theorem changed_trimBack (bl : List Block) :
    (trimBack bl).map (·.changed) = bl.map (·.changed) := by
  fun_induction trimBack bl with
  | case1 => rfl
  | case2 => rfl
  | case3 => rfl
  | case4 b next rest ih => rw [List.map_cons, ih, ← List.map_cons]

/-- A kept block shows one context, or less if it is all of the given block. -/
structure Block.Trimmed (b : Block) (given : Option Block) : Prop where
  fits : b.changed = false → b.old.length ≤ context
  full : b.changed = false → b.old.length = context ∨ given = some b

theorem Block.trimmed_of_changed (changed : b.changed = true) (given : Option Block) :
    b.Trimmed given := by
  constructor <;> simp [changed]

theorem Block.trimmed_takeBack (b : Block) : (b.takeBack context).Trimmed (some b) := by
  constructor <;> intro _
  · simp only [takeBack, dropFront]
    omega
  · by_cases short : b.old.length ≤ context
    · right
      simp [takeBack, dropFront, Nat.sub_eq_zero_of_le short]
    · left
      simp only [takeBack, dropFront]
      omega

/-- A block that, if it is kept, has as many items on either side. -/
def Block.Even (b : Block) : Prop := b.changed = false → b.new.length = b.old.length

theorem Block.trimmed_takeFront (even : b.Even) : (b.takeFront context).Trimmed (some b) := by
  constructor <;> intro kept
  · exact Nat.min_le_right _ _
  · by_cases short : b.old.length ≤ context
    · have short' : b.new.length ≤ context := even kept ▸ short
      right
      simp [takeFront, Nat.min_eq_left short, Nat.min_eq_left short']
    · left
      simp only [takeFront]
      omega

theorem Block.trimmed_of_full (full : b.old.length = context) {given : Option Block} :
    b.Trimmed given :=
  ⟨fun _ => Nat.le_of_eq full, fun _ => .inl full⟩

theorem Block.length_takeFront (long : 2 * context < b.old.length) :
    (b.takeFront context).old.length = context := by
  simp only [takeFront]
  omega

theorem Block.length_takeBack (long : 2 * context < b.old.length) :
    (b.takeBack context).old.length = context := by
  simp only [takeBack, dropFront]
  omega

theorem Block.Trimmed.of_given {given other : Option Block} (trimmed : b.Trimmed given)
    (same : given = some b → other = some b ∨ b.Trimmed other) : b.Trimmed other := by
  constructor
  · exact trimmed.fits
  · intro kept
    rcases trimmed.full kept with full | whole
    · exact .inl full
    · rcases same whole with whole | trimmed
      · exact .inr whole
      · exact trimmed.full kept

theorem trimmed_trimFront (bl : List Block) : ∀ b ∈ (trimFront bl).head?, b.Trimmed bl.head? := by
  cases bl with
  | nil => simp [trimFront]
  | cons b rest =>
    cases changed : b.changed with
    | true => simpa [trimFront, changed] using b.trimmed_of_changed changed (some b)
    | false => simpa [trimFront, changed] using b.trimmed_takeBack

theorem last_or_trimmed_trimFront (bl : List Block) :
    ∀ b ∈ (trimFront bl).getLast?, bl.getLast? = some b ∨ b.Trimmed bl.getLast? := by
  cases bl with
  | nil => simp [trimFront]
  | cons b rest =>
    cases changed : b.changed with
    | true => simpa [trimFront, changed] using fun c last => .inl last
    | false =>
      cases rest with
      | nil => simpa [trimFront, changed] using .inr b.trimmed_takeBack
      | cons c rest => simpa [trimFront, changed] using fun c last => .inl last

theorem trimmed_trimBack (even : ∀ b ∈ bl, b.Even) :
    ∀ b ∈ (trimBack bl).getLast?, b.Trimmed bl.getLast? := by
  fun_induction trimBack bl with
  | case1 => simp
  | case2 b changed => simpa using b.trimmed_of_changed changed (some b)
  | case3 b kept => simpa using Block.trimmed_takeFront (even b (by simp))
  | case4 b next rest ih =>
    rw [List.getLast?_cons_of_ne_nil (trimBack_ne_nil next rest), List.getLast?_cons_cons]
    exact ih fun c mem => even c (by simp [mem])

theorem head_or_trimmed_trimBack (even : ∀ b ∈ bl, b.Even) :
    ∀ b ∈ (trimBack bl).head?, bl.head? = some b ∨ b.Trimmed bl.head? := by
  fun_cases trimBack bl with
  | case1 => simp
  | case2 b changed => simp
  | case3 b kept => simpa using .inr (Block.trimmed_takeFront (even b (by simp)))
  | case4 b next rest => simp

theorem even_trimFront (even : ∀ b ∈ bl, b.Even) : ∀ b ∈ trimFront bl, b.Even := by
  cases bl with
  | nil => simp [trimFront]
  | cons b rest =>
    cases changed : b.changed with
    | true => simpa [trimFront, changed] using even
    | false =>
      obtain ⟨here, later⟩ := List.forall_mem_cons.1 even
      simp only [trimFront, changed, Bool.false_eq_true, if_false]
      apply List.forall_mem_cons.2 ⟨?_, later⟩
      intro _
      simp only [Block.takeBack, Block.dropFront, here changed]

/-- The ends of a script that has been trimmed on both sides. -/
theorem trimmed_ends (even : ∀ b ∈ bl, b.Even) :
    (∀ b ∈ (trimBack (trimFront bl)).head?, b.Trimmed bl.head?) ∧
      ∀ b ∈ (trimBack (trimFront bl)).getLast?, b.Trimmed bl.getLast? := by
  constructor
  · intro b mem
    rcases head_or_trimmed_trimBack (even_trimFront even) b mem with head | trimmed
    · exact trimmed_trimFront bl b head
    · exact trimmed.of_given fun head => .inr (trimmed_trimFront bl b head)
  · intro b mem
    apply (trimmed_trimBack (even_trimFront even) b mem).of_given
    exact last_or_trimmed_trimFront bl b

/-! Grouping what has been trimmed. -/

structure Hunk.Grouped (h : Hunk) : Prop where
  alternating : Alternating h
  change : ∃ b ∈ h, b.changed = true
  short : ∀ b ∈ h, b.changed = false → b.old.length ≤ 2 * context

/-- Two hunks that show the ends of one kept run. -/
def Hunk.Parted (h h' : Hunk) : Prop :=
  ∃ b : Block, b.changed = false ∧ 2 * context < b.old.length ∧
    h.getLast? = some (b.takeFront context) ∧ h'.head? = some (b.takeBack context)

/-- The blocks of the current hunk and those still to come, on which no end shows too much. -/
structure Groupable (current rest : List Block) : Prop where
  alternating : Alternating (current.reverse ++ rest)
  front : ∀ b ∈ (current.reverse ++ rest).head?, b.changed = false → b.old.length ≤ context
  back : ∀ b ∈ (current.reverse ++ rest).getLast?, b.changed = false → b.old.length ≤ context
  short : ∀ b ∈ current, b.changed = false → b.old.length ≤ 2 * context

theorem Groupable.push (groupable : Groupable current (b :: rest))
    (short : b.changed = false → b.old.length ≤ 2 * context) : Groupable (b :: current) rest := by
  have same : (b :: current).reverse ++ rest = current.reverse ++ b :: rest := by simp
  constructor
  · exact same ▸ groupable.alternating
  · exact same ▸ groupable.front
  · exact same ▸ groupable.back
  · exact List.forall_mem_cons.2 ⟨short, groupable.short⟩

theorem long_iff : (!b.changed && decide (2 * context < b.old.length)) = true ↔
    b.changed = false ∧ 2 * context < b.old.length := by
  simp

theorem Groupable.push_of_not_long (groupable : Groupable current (b :: rest))
    (short : ¬ (!b.changed && decide (2 * context < b.old.length)) = true) :
    Groupable (b :: current) rest := by
  apply groupable.push
  intro kept
  exact Nat.not_lt.1 fun long => short (long_iff.2 ⟨kept, long⟩)

/-- A long kept run stands after a change and before another. -/
theorem Groupable.between (groupable : Groupable current (b :: rest)) (kept : b.changed = false)
    (long : 2 * context < b.old.length) :
    (∃ c ∈ current, c.changed = true) ∧ ∃ c ∈ rest, c.changed = true := by
  constructor
  · cases current with
    | nil =>
      have short := groupable.front b rfl kept
      omega
    | cons c current =>
      refine ⟨c, by simp, ?_⟩
      have apart := groupable.alternating
      rw [List.reverse_cons, List.append_assoc] at apart
      simpa [kept] using (alternating_cons_cons.1 apart.right).1
  · cases rest with
    | nil =>
      have short := groupable.back b (by simp) kept
      omega
    | cons c rest =>
      refine ⟨c, by simp, ?_⟩
      have apart := groupable.alternating.right
      simpa [kept] using (alternating_cons_cons.1 apart).1.symm

theorem Groupable.some (groupable : Groupable current (b :: rest)) (kept : b.changed = false)
    (long : 2 * context < b.old.length) : current.reverse ≠ [] := by
  obtain ⟨⟨c, mem, _⟩, _⟩ := groupable.between kept long
  exact List.ne_nil_of_mem (List.mem_reverse.2 mem)

theorem Groupable.part (groupable : Groupable current (b :: rest)) (kept : b.changed = false)
    (long : 2 * context < b.old.length) :
    Hunk.Grouped (current.reverse ++ [b.takeFront context]) ∧
      Groupable [b.takeBack context] rest := by
  obtain ⟨⟨c, mem, changed⟩, d, mem', _⟩ := groupable.between kept long
  have front := Block.length_takeFront long
  have back := Block.length_takeBack long
  have less : context ≤ 2 * context := by decide
  constructor
  · constructor
    · have alternating := groupable.alternating
      rw [List.append_cons] at alternating
      have same : (current.reverse ++ [b.takeFront context]).map (·.changed) =
          (current.reverse ++ [b]).map (·.changed) := by
        simp [Block.takeFront]
      exact (alternating_congr same).2 alternating.left
    · exact ⟨c, by simp [mem], changed⟩
    · intro e inside kept
      rcases List.mem_append.1 inside with before | here
      · exact groupable.short e (by simpa using before) kept
      · obtain rfl : e = b.takeFront context := by simpa using here
        rwa [front]
  · constructor
    · have same : ([b.takeBack context].reverse ++ rest).map (·.changed) =
          (b :: rest).map (·.changed) := by
        simp [Block.takeBack, Block.dropFront]
      exact (alternating_congr same).2 groupable.alternating.right
    · simpa using fun _ => Nat.le_of_eq back
    · have same := groupable.back
      rw [List.getLast?_append_of_ne_nil _ (by simp)] at same
      rw [List.reverse_singleton, List.singleton_append]
      cases rest with
      | nil => cases mem'
      | cons e rest => simpa only [List.getLast?_cons_cons] using same
    · simpa [back] using fun _ => less

theorem grouped_hunksFrom (groupable : Groupable current rest) :
    ∀ h ∈ hunksFrom current rest, h.Grouped := by
  fun_induction hunksFrom current rest with
  | case1 current change =>
    obtain ⟨c, mem, changed⟩ := List.any_eq_true.1 change
    have alternating := groupable.alternating
    rw [List.append_nil] at alternating
    simpa using ⟨alternating, ⟨c, by simpa using mem, changed⟩, by simpa using groupable.short⟩
  | case2 => simp
  | case3 current b rest long ih =>
    obtain ⟨kept, long⟩ := long_iff.1 long
    obtain ⟨grouped, later⟩ := groupable.part kept long
    rw [List.reverse_cons]
    exact List.forall_mem_cons.2 ⟨grouped, ih later⟩
  | case4 current b rest short ih => exact ih (groupable.push_of_not_long short)

/-- The first hunk begins with the first block. -/
theorem head_eq_hunksFrom (groupable : Groupable current rest) :
    ∀ h ∈ (hunksFrom current rest).head?, h.head? = (current.reverse ++ rest).head? := by
  fun_induction hunksFrom current rest with
  | case1 current change => simp
  | case2 => simp
  | case3 current b rest long ih =>
    obtain ⟨kept, long⟩ := long_iff.1 long
    simp [List.head?_append_of_ne_nil _ (groupable.some kept long)]
  | case4 current b rest short ih => simpa using ih (groupable.push_of_not_long short)

theorem parted_hunksFrom (groupable : Groupable current rest) :
    (hunksFrom current rest).IsChain Hunk.Parted := by
  fun_induction hunksFrom current rest with
  | case1 => exact .singleton _
  | case2 => exact .nil
  | case3 current b rest long ih =>
    obtain ⟨kept, long⟩ := long_iff.1 long
    have later := (groupable.part kept long).2
    apply List.IsChain.cons (ih later)
    intro h next
    exact ⟨b, kept, long, by simp, head_eq_hunksFrom later h next⟩
  | case4 current b rest short ih =>
    exact ih (groupable.push_of_not_long short)

/-- Each hunk begins with the first block or with a whole context. -/
theorem front_hunksFrom (groupable : Groupable current rest) {given : Option Block}
    (front : ∀ b ∈ (current.reverse ++ rest).head?, b.Trimmed given) :
    ∀ h ∈ hunksFrom current rest, ∀ b ∈ h.head?, b.Trimmed given := by
  fun_induction hunksFrom current rest with
  | case1 current change => simpa using front
  | case2 => simp
  | case3 current b rest long ih =>
    obtain ⟨kept, long⟩ := long_iff.1 long
    have some := groupable.some kept long
    refine List.forall_mem_cons.2 ⟨?_, ?_⟩
    · rw [List.head?_append_of_ne_nil _ some] at front
      rwa [List.reverse_cons, List.head?_append_of_ne_nil _ some]
    · apply ih (groupable.part kept long).2
      simpa using Block.trimmed_of_full (Block.length_takeBack long)
  | case4 current b rest short ih =>
    exact ih (groupable.push_of_not_long short) (by simpa using front)

/-- Each hunk ends with the last block or with a whole context. -/
theorem back_hunksFrom (groupable : Groupable current rest) {given : Option Block}
    (back : ∀ b ∈ (current.reverse ++ rest).getLast?, b.Trimmed given) :
    ∀ h ∈ hunksFrom current rest, ∀ b ∈ h.getLast?, b.Trimmed given := by
  fun_induction hunksFrom current rest with
  | case1 current change => simpa using back
  | case2 => simp
  | case3 current b rest long ih =>
    obtain ⟨kept, long⟩ := long_iff.1 long
    obtain ⟨_, c, mem, _⟩ := groupable.between kept long
    refine List.forall_mem_cons.2 ⟨?_, ?_⟩
    · simpa using Block.trimmed_of_full (Block.length_takeFront long)
    · apply ih (groupable.part kept long).2
      have some : rest ≠ [] := List.ne_nil_of_mem mem
      rw [List.append_cons, List.getLast?_append_of_ne_nil _ some] at back
      rwa [List.getLast?_append_of_ne_nil _ some]
  | case4 current b rest short ih =>
    exact ih (groupable.push_of_not_long short) (by simpa using back)

variable {α : Type} [DecidableEq α]

theorem even_scriptBlocks (as bs : List α) : ∀ b ∈ scriptBlocks as bs, b.Even := by
  intro b mem kept
  obtain ⟨p, q, here⟩ := (leads_scriptBlocks as bs).exists_step mem
  exact (here.same kept).1.symm

theorem groupable_script (as bs : List α) :
    Groupable [] (trimBack (trimFront (scriptBlocks as bs))) := by
  obtain ⟨front, back⟩ := trimmed_ends (even_scriptBlocks as bs)
  constructor
  · have same : (trimBack (trimFront (scriptBlocks as bs))).map (·.changed) =
        (scriptBlocks as bs).map (·.changed) := by
      simp
    exact (alternating_congr same).2 (alternating_blocks _)
  · exact fun b head => (front b head).fits
  · exact fun b last => (back b last).fits
  · simp

/-- Hunks as they are grouped. Each of them is, neighbours are parted by a long kept run, and less
than a whole context is shown only where the script has no more. -/
structure Grouping (as bs : List α) (hs : List Hunk) : Prop where
  grouped : ∀ h ∈ hs, h.Grouped
  parted : hs.IsChain Hunk.Parted
  front : ∀ h ∈ hs, ∀ b ∈ h.head?, b.Trimmed (scriptBlocks as bs).head?
  back : ∀ h ∈ hs, ∀ b ∈ h.getLast?, b.Trimmed (scriptBlocks as bs).getLast?

theorem grouping_hunks (as bs : List α) : Grouping as bs (hunks as bs) := by
  have groupable := groupable_script as bs
  obtain ⟨front, back⟩ := trimmed_ends (even_scriptBlocks as bs)
  constructor
  · exact grouped_hunksFrom groupable
  · exact parted_hunksFrom groupable
  · exact front_hunksFrom groupable front
  · exact back_hunksFrom groupable back

end FormatPreview.Diff
