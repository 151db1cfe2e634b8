import FormatPreview.Proofs.Diff.Frontier

/-!
Work arrays that are never cleared give the script that fresh frontiers give: `Workspace.script_eq`,
on which the results about scripts rest. A round of the search reads the cells of the round before it
and no others, save for the cell that each search sets, and it writes the cells of one parity while it
reads those of the other. So whatever the searches before have left in the arrays is never read.
-/
namespace FormatPreview.Diff.Workspace

variable {α : Type} [DecidableEq α] {as bs : List α} {d e i : Nat} {v u : Cells} {f g : Frontier}

/-- An array whose cells of the last round are a frontier. -/
structure Holds (v : Cells) (d : Nat) (f : Frontier) : Prop where
  size : f.size = d
  start : d = 0 → v.get 1 = 0
  cell : ∀ i < d, v.get (2 * (i : Int) + 1 - d) = f.getD i 0

theorem holds_start (v : Cells) : Holds (v.set 1 0) 0 #[] where
  size := rfl
  start _ := by rw [Cells.get_set, if_pos rfl]
  cell _ none := absurd none (Nat.not_lt_zero _)

theorem entry_eq (holds : Holds v d f) (inside : i ≤ d) :
    entry v d (2 * (i : Int) - d) = f.entry d i := by
  have below : 0 < i → v.get (2 * (i : Int) - d - 1) = f.getD (i - 1) 0 := by
    intro some
    rw [← holds.cell (i - 1) (by omega)]
    congr 1
    omega
  have above : i < d → v.get (2 * (i : Int) - d + 1) = f.getD i 0 := by
    intro less
    rw [← holds.cell i less]
    congr 1
    omega
  unfold entry Frontier.entry
  by_cases lowest : i = 0
  · subst lowest
    rw [if_pos (.inl (by omega)), if_pos rfl]
    rcases Nat.eq_zero_or_pos d with rfl | some
    · simpa [Array.getD, holds.size] using holds.start rfl
    · exact above some
  · rw [if_neg lowest]
    by_cases highest : i = d
    · subst highest
      rw [if_neg (by omega), if_pos rfl, below (by omega)]
    · rw [if_neg highest, below (by omega), above (by omega)]
      by_cases less : f.getD (i - 1) 0 < f.getD i 0
      · rw [if_pos (.inr ⟨by omega, less⟩), if_pos less]
      · rw [if_neg (by omega), if_neg less]

/-- The array in a round with `d` edits, when the diagonals with the index `j` and above are done. -/
structure Partway (as bs : List α) (v : Cells) (d : Nat) (f : Frontier) (j : Nat) : Prop where
  prior : Holds v d f
  done : ∀ i, j ≤ i → i ≤ d → v.get (2 * (i : Int) - d) = (f.next as bs d).getD i 0

theorem Holds.partway (holds : Holds v d f) : Partway as bs v d f (d + 1) :=
  ⟨holds, fun _ above below => absurd above (by omega)⟩

theorem Partway.holds (partway : Partway as bs v d f 0) : Holds v (d + 1) (f.next as bs d) where
  size := by simp [Frontier.next]
  start none := absurd none (Nat.succ_ne_zero d)
  cell i inside := by
    rw [← partway.done i (Nat.zero_le _) (Nat.le_of_lt_succ inside)]
    congr 1
    omega

/-- The cell that is written has the parity of the round, and those still to be read have not. -/
theorem Partway.set (partway : Partway as bs v d f (i + 1)) (inside : i ≤ d) :
    Partway as bs (v.set (2 * (i : Int) - d) ((f.next as bs d).getD i 0)) d f i where
  prior := by
    refine ⟨partway.prior.size, fun none => ?_, fun j below => ?_⟩
    · rw [Cells.get_set, if_neg (by omega)]
      exact partway.prior.start none
    · rw [Cells.get_set, if_neg (by omega)]
      exact partway.prior.cell j below
  done j above below := by
    by_cases here : j = i
    · rw [here, Cells.get_set, if_pos rfl]
    · rw [Cells.get_set, if_neg (by omega)]
      exact partway.done j (by omega) below

/-- A round finds the highest diagonal on which the searches meet, or completes its frontier. -/
theorem run_eq (s : Sweep α) (partway : Partway s.old s.new v d f i) (inside : i ≤ d + 1) :
    let reached := fun i => (f.next s.old s.new d).getD i 0
    let met := (List.range i).reverse.find? fun j => s.meets (2 * ((j : Nat) : Int) - d) (reached j)
    ∃ v', (met = none ∧ s.run d i v = (none, v') ∧ Holds v' (d + 1) (f.next s.old s.new d)) ∨
      ∃ j ≤ d, met = some j ∧ s.run d i v = (some (2 * (j : Int) - d, f.entry d j), v') ∧
        v'.get (2 * (j : Int) - d) = reached j := by
  intro reached met
  induction i generalizing v with
  | zero => exact ⟨v, .inl ⟨rfl, rfl, partway.holds⟩⟩
  | succ i ih =>
    have inside : i ≤ d := Nat.le_of_succ_le_succ inside
    have far : advance s.old s.new (entry v d (2 * (i : Int) - d))
        ((entry v d (2 * (i : Int) - d) : Int) - (2 * (i : Int) - d)).toNat = reached i := by
      rw [entry_eq partway.prior inside]
      dsimp only [reached]
      rw [Frontier.getD_next _ _ _ inside, Frontier.across]
      congr 1
      omega
    have next := partway.set inside
    rw [Sweep.run, far]
    dsimp only [met]
    rw [List.range_succ, List.reverse_append, List.reverse_singleton, List.singleton_append,
      List.find?_cons]
    cases meets : s.meets (2 * (i : Int) - d) (reached i) with
    | true =>
      refine ⟨v.set (2 * (i : Int) - d) (reached i), .inr ⟨i, inside, rfl, ?_, ?_⟩⟩
      · rw [if_pos rfl, entry_eq partway.prior inside]
      · rw [Cells.get_set, if_pos rfl]
    | false =>
      rw [if_neg Bool.false_ne_true]
      exact ih next (Nat.le_succ_of_le inside)

omit [DecidableEq α] in
/-- The cells of the other search tell what its frontier tells. -/
theorem meets_iff {s : Sweep α} (holds : Holds s.other e g) (reach : s.reach = e)
    (parity : s.odd = decide (e = d)) (rounds : e = d ∨ e = d + 1) (i far : Nat) :
    s.meets (2 * (i : Int) - d) far =
      match g.reach? ((s.old.length : Int) - s.new.length - (2 * (i : Int) - d)) with
      | some other => decide (s.old.length ≤ far + other)
      | none => false := by
  have odd : (decide (s.across % 2 = 1) = s.odd) ↔ (s.across % 2 = 1 ↔ e = d) := by
    rw [parity, decide_eq_decide]
  unfold Sweep.meets
  rw [reach]
  change _ = match g.reach? (s.across - (2 * (i : Int) - d)) with
    | some other => decide (s.old.length ≤ far + other)
    | none => false
  cases reached : g.reach? (s.across - (2 * (i : Int) - d)) with
  | some other =>
    obtain ⟨j, inside, diagonal, rfl⟩ := reach?_eq_some_iff.1 reached
    rw [holds.size] at inside diagonal
    have cell : s.other.get (s.across - (2 * (i : Int) - d)) = g.getD j 0 := by
      rw [← holds.cell j inside]
      congr 1
      omega
    rw [cell]
    have near : ((2 * (i : Int) - d) - s.across).natAbs < e := by omega
    have alike : decide (s.across % 2 = 1) = s.odd := odd.2 (by omega)
    simp [near, alike]
  | none =>
    have apart : ¬ (decide (s.across % 2 = 1) = s.odd ∧
        ((2 * (i : Int) - d) - s.across).natAbs < e) := by
      rintro ⟨alike, near⟩
      have alike := odd.1 alike
      have found : g.reach? (s.across - (2 * (i : Int) - d)) =
          some (g.getD ((s.across - (2 * (i : Int) - d) + e - 1) / 2).toNat 0) :=
        reach?_eq_some_iff.2 ⟨_, by rw [holds.size]; omega, by rw [holds.size]; omega, rfl⟩
      rw [reached] at found
      cases found
    simp only [decide_eq_false_iff_not]
    exact fun all => apart ⟨all.1, all.2.1⟩

/-- A round of one search ends as the search with frontiers does. -/
theorem round_eq (s : Sweep α) (here : Holds v d f) (there : Holds s.other e g)
    (reach : s.reach = e) (parity : s.odd = decide (e = d)) (rounds : e = d ∨ e = d + 1) :
    let next := f.next s.old s.new d
    let met := meeting? s.old.length s.new.length d next g
    ∃ v', (met = none ∧ s.run d (d + 1) v = (none, v') ∧ Holds v' (d + 1) next) ∨
      ∃ j ≤ d, met = some j ∧ s.run d (d + 1) v = (some (2 * (j : Int) - d, f.entry d j), v') ∧
        v'.get (2 * (j : Int) - d) = next.getD j 0 := by
  have run := run_eq s here.partway (Nat.le_refl (d + 1))
  simp only [meets_iff there reach parity rounds] at run
  exact run

theorem search_eq {rounds : Nat} {w : Workspace} (front : Holds w.front d f)
    (back : Holds w.back d g) :
    (search as bs as.reverse bs.reverse d rounds w).1 =
      searchCut as bs as.reverse bs.reverse f g d rounds := by
  induction rounds generalizing d f g w with
  | zero => rfl
  | succ rounds ih =>
    rw [search, searchCut]
    dsimp only
    obtain ⟨v, ⟨met, run, front'⟩ | ⟨i, inside, met, run, _⟩⟩ :=
      round_eq ⟨as, bs, w.back, true, d⟩ front back rfl (by simp) (.inl rfl)
    · rw [run, met]
      dsimp only
      obtain ⟨v', ⟨met', run', back'⟩ | ⟨i, inside, met', run', cell⟩⟩ :=
        round_eq ⟨as.reverse, bs.reverse, v, false, d + 1⟩ back front' rfl (by simp) (.inr rfl)
      · simp only [List.length_reverse] at met'
        rw [run', met']
        exact ih front' back'
      · simp only [List.length_reverse] at met'
        change v'.get _ = (g.next as.reverse bs.reverse d).getD i 0 at cell
        rw [run', met']
        dsimp only
        rw [cell, Frontier.across]
        congr 3
        omega
    · rw [run, met]
      dsimp only
      rw [Frontier.across]
      congr 2
      omega

theorem middleCut?_eq (as bs : List α) (w : Workspace) :
    (middleCut? as bs w).1 = Diff.middleCut? as bs :=
  search_eq (holds_start w.front) (holds_start w.back)

/-- Whatever the arrays hold, the script is the one that fresh frontiers give. -/
theorem scriptAt_eq (as bs : List α) (old new : Nat) (w : Workspace) :
    (scriptAt as bs old new w).1 = Diff.scriptAt as bs old new := by
  fun_induction Diff.scriptAt as bs old new generalizing w with
  | case1 as bs old new front as' bs' back n m middle first second =>
    have found := middleCut?_eq (as'.take n) (bs'.take m) w
    rw [scriptAt]
    dsimp only [middle, n, m, as', bs', back, front] at *
    congr 2
    split_ifs
    · rfl
    · rfl
    · rfl
    · rw [found]
      generalize @Diff.middleCut? α _ _ _ = cut?
      cases cut? with
      | none => rfl
      | some cut =>
        dsimp only
        split_ifs with proper
        · exact congrArg₂ (· ++ ·) (first cut proper _) (second cut proper _)
        · rfl

/-- The program's script is the one that fresh frontiers give. -/
theorem script_eq (as bs : List α) : script as bs = Diff.scriptAt as bs 0 0 :=
  scriptAt_eq as bs 0 0 ⟨.zero, .zero⟩

end FormatPreview.Diff.Workspace
