import FormatPreview.Diff.Hunk
import FormatPreview.Proofs.Diff.Compaction
import Mathlib.Data.List.SplitBy

/-!
Where blocks lead. A block runs over the items that its edits run over. Its recorded start is where
it stands on each side that it has items on; on a side without items it may be recorded elsewhere.
-/
namespace FormatPreview.Diff

variable {α : Type} {as bs : List α} {p q r : Cut}

/-- The point so many items further on both sides. -/
def Cut.ahead (p : Cut) (count : Nat) : Cut := ⟨p.old + count, p.new + count⟩

def Cut.Inside (as bs : List α) (p : Cut) : Prop := p.old ≤ as.length ∧ p.new ≤ bs.length

/-- The items between two points are the same on both sides. -/
def Cut.Unchanged (as bs : List α) (p q : Cut) : Prop :=
  ∃ gap, q = p.ahead gap ∧ q.Inside as bs ∧
    Span.of ⟨p.old, gap⟩ as = Span.of ⟨p.new, gap⟩ bs

theorem Cut.Unchanged.refl (inside : p.Inside as bs) : p.Unchanged as bs p :=
  ⟨0, rfl, inside, by simp [Span.of]⟩

theorem Cut.Unchanged.inside (unchanged : p.Unchanged as bs q) : q.Inside as bs := by
  obtain ⟨_, _, inside, _⟩ := unchanged
  exact inside

theorem Cut.Unchanged.trans (first : p.Unchanged as bs q) (second : q.Unchanged as bs r) :
    p.Unchanged as bs r := by
  obtain ⟨gap, rfl, _, same⟩ := first
  obtain ⟨gap', rfl, inside, same'⟩ := second
  refine ⟨gap + gap', by simp only [Cut.ahead, Nat.add_assoc], inside, ?_⟩
  rw [← Span.of_append, ← Span.of_append, same]
  exact congrArg _ same'

/-- Any stretch of an unchanged one is unchanged. -/
theorem Cut.Unchanged.part {length start stop : Nat} (inside : (p.ahead length).Inside as bs)
    (same : Span.of ⟨p.old, length⟩ as = Span.of ⟨p.new, length⟩ bs) (ordered : start ≤ stop)
    (within : stop ≤ length) : (p.ahead start).Unchanged as bs (p.ahead stop) := by
  refine ⟨stop - start, ?_, ?_, Span.of_part same (by omega)⟩
  · simp only [ahead, Cut.mk.injEq]
    omega
  · simp only [Inside, ahead] at *
    omega

namespace Block

def front (b : Block) : Cut := ⟨b.old.start, b.new.start⟩

def back (b : Block) : Cut := ⟨b.old.stop, b.new.stop⟩

structure Leads (as bs : List α) (p : Cut) (b : Block) (q : Cut) : Prop where
  reach : q = ⟨p.old + b.old.length, p.new + b.new.length⟩
  inside : q.Inside as bs
  some : 0 < b.old.length + b.new.length
  oldStart : b.old.length ≠ 0 → b.old.start = p.old
  newStart : b.new.length ≠ 0 → b.new.start = p.new
  same : b.changed = false → b.old.length = b.new.length ∧ b.old.of as = b.new.of bs

variable {b : Block}

theorem Leads.ends_of_kept (here : b.Leads as bs p q) (kept : b.changed = false) :
    b.front = p ∧ b.back = q := by
  obtain ⟨length, _⟩ := here.same kept
  have some := here.some
  have oldStart := here.oldStart (by omega)
  have newStart := here.newStart (by omega)
  rw [here.reach, front, back, Span.stop, Span.stop, oldStart, newStart]
  exact ⟨rfl, rfl⟩

/-- A kept block leads over as many items that are the same on both sides. -/
theorem Leads.kept_span (here : b.Leads as bs p q) (kept : b.changed = false) :
    q = p.ahead b.old.length ∧
      Span.of ⟨p.old, b.old.length⟩ as = Span.of ⟨p.new, b.old.length⟩ bs := by
  obtain ⟨length, same⟩ := here.same kept
  obtain ⟨rfl, _⟩ := here.ends_of_kept kept
  refine ⟨?_, ?_⟩
  · rw [here.reach, ← length, Cut.ahead]
  · rw [front, same, length]

theorem Leads.unchanged (here : b.Leads as bs p q) (kept : b.changed = false) :
    p.Unchanged as bs q :=
  have ⟨reach, same⟩ := here.kept_span kept
  ⟨_, reach, here.inside, same⟩

end Block

namespace Edit

variable {e : Edit}

theorem Leads.reach (here : e.Leads as bs p q) :
    q = ⟨p.old + e.old.length, p.new + e.new.length⟩ := by
  cases e <;> obtain ⟨rfl, rfl, _⟩ := here <;> rfl

theorem Leads.inside (here : e.Leads as bs p q) (inside : p.Inside as bs) : q.Inside as bs := by
  cases e with
  | keep old new length =>
    obtain ⟨_, rfl, _, oldInside, newInside, _⟩ := here
    exact ⟨oldInside, newInside⟩
  | delete old length new =>
    obtain ⟨_, rfl, _, oldInside⟩ := here
    exact ⟨oldInside, inside.2⟩
  | insert old new length =>
    obtain ⟨_, rfl, _, newInside⟩ := here
    exact ⟨inside.1, newInside⟩

theorem Leads.some (here : e.Leads as bs p q) : 0 < e.old.length + e.new.length := by
  cases e <;> obtain ⟨_, _, some, _⟩ := here <;> simp only [Edit.old, Edit.new] <;> omega

theorem Leads.oldStart (here : e.Leads as bs p q) (shown : e.kind ≠ .inserted) :
    e.old.start = p.old := by
  cases e with
  | keep => exact (congrArg Cut.old here.1).symm
  | delete => exact here.1.symm
  | insert => exact absurd rfl shown

theorem Leads.newStart (here : e.Leads as bs p q) (shown : e.kind ≠ .deleted) :
    e.new.start = p.new := by
  cases e with
  | keep => exact (congrArg Cut.new here.1).symm
  | delete => exact absurd rfl shown
  | insert => exact here.1.symm

theorem Leads.unchanged (here : e.Leads as bs p q) (kept : e.kind = .kept) :
    p.Unchanged as bs q := by
  cases e with
  | keep old new length =>
    obtain ⟨rfl, rfl, _, oldInside, newInside, same⟩ := here
    exact ⟨length, rfl, ⟨oldInside, newInside⟩, same⟩
  | delete | insert => cases kept

theorem length_of_kept (kept : e.kind = .kept) : e.new.length = e.old.length := by
  cases e <;> first | rfl | cases kept

theorem new_length_of_deleted (deleted : e.kind = .deleted) : e.new.length = 0 := by
  cases e <;> first | rfl | cases deleted

theorem old_length_of_inserted (inserted : e.kind = .inserted) : e.old.length = 0 := by
  cases e <;> first | rfl | cases inserted

end Edit

theorem leads_inside {edits : List Edit} (route : Leads as bs p edits q)
    (inside : p.Inside as bs) : q.Inside as bs := by
  induction route with
  | nil => exact inside
  | cons here _ ih => exact ih (here.inside inside)

namespace Block

theorem oldLength_cons (e : Edit) (edits : List Edit) :
    oldLength (e :: edits) = e.old.length + oldLength edits := rfl

theorem newLength_cons (e : Edit) (edits : List Edit) :
    newLength (e :: edits) = e.new.length + newLength edits := rfl

theorem leads_kept_run {edits : List Edit} (route : Diff.Leads as bs p edits q)
    (inside : p.Inside as bs) (kept : ∀ e ∈ edits, e.kind = .kept) :
    q = ⟨p.old + oldLength edits, p.new + oldLength edits⟩ ∧ p.Unchanged as bs q := by
  induction route with
  | nil => exact ⟨rfl, .refl inside⟩
  | @cons p m q e rest here route ih =>
    have keptHere := kept e (by simp)
    obtain ⟨reach, unchanged⟩ := ih (here.inside inside) fun e mem => kept e (by simp [mem])
    have first := here.unchanged keptHere
    refine ⟨?_, first.trans unchanged⟩
    obtain ⟨gap, rfl, _⟩ := first
    have length := congrArg Cut.old here.reach
    simp only [oldLength_cons, Cut.ahead] at *
    rw [reach, Cut.mk.injEq]
    omega

theorem leads_kept {edits : List Edit} (route : Diff.Leads as bs p edits q)
    (inside : p.Inside as bs) (kept : ∀ e ∈ edits, e.kind = .kept) (some : edits ≠ []) :
    (Block.kept edits).Leads as bs p q := by
  obtain ⟨reach, gap, reach', _, same⟩ := leads_kept_run route inside kept
  obtain rfl : gap = oldLength edits := by
    rw [reach, Cut.ahead, Cut.mk.injEq] at reach'
    omega
  cases route with
  | nil => exact absurd rfl some
  | cons here route =>
    have oldStart := here.oldStart (by simp [kept])
    have newStart := here.newStart (by simp [kept])
    refine ⟨reach, leads_inside (.cons here route) inside, ?_, fun _ => oldStart,
      fun _ => newStart, fun _ => ⟨rfl, ?_⟩⟩
    · have some := here.some
      rw [Edit.length_of_kept (kept _ (by simp))] at some
      simp only [Block.kept, oldLength_cons]
      omega
    · simpa [Block.kept, oldStart, newStart] using same

/-- What a run of deletions and insertions runs over. -/
theorem leads_change_run {edits : List Edit} (route : Diff.Leads as bs p edits q)
    (changes : ∀ e ∈ edits, e.kind ≠ .kept) :
    q = ⟨p.old + oldLength (edits.filter (·.kind = .deleted)),
        p.new + newLength (edits.filter (·.kind = .inserted))⟩ ∧
      (∀ e ∈ (edits.filter (·.kind = .deleted)).head?, e.old.start = p.old) ∧
      ∀ e ∈ (edits.filter (·.kind = .inserted)).head?, e.new.start = p.new := by
  induction route with
  | nil => simp [oldLength, newLength]
  | @cons p m q e rest here route ih =>
    obtain ⟨reach, oldStart, newStart⟩ := ih fun e mem => changes e (by simp [mem])
    obtain rfl := here.reach
    cases kind : e.kind with
    | kept => exact absurd kind (changes e (by simp))
    | deleted =>
      have none := Edit.new_length_of_deleted kind
      have start := here.oldStart (by simp [kind])
      simp_all [oldLength_cons, Nat.add_assoc]
    | inserted =>
      have none := Edit.old_length_of_inserted kind
      have start := here.newStart (by simp [kind])
      simp_all [newLength_cons, Nat.add_assoc]

theorem leads_change {edits : List Edit} (route : Diff.Leads as bs p edits q)
    (inside : p.Inside as bs) (changes : ∀ e ∈ edits, e.kind ≠ .kept) (some : edits ≠ []) :
    (Block.change edits).Leads as bs p q := by
  obtain ⟨reach, oldStart, newStart⟩ := leads_change_run route changes
  refine ⟨reach, leads_inside route inside, ?_, fun length => ?_, fun length => ?_, nofun⟩
  · cases route with
    | nil => exact absurd rfl some
    | @cons _ _ _ e rest here route =>
      have some := here.some
      simp only [Block.change]
      cases kind : e.kind with
      | kept => exact absurd kind (changes e (by simp))
      | deleted =>
        rw [Edit.new_length_of_deleted kind] at some
        simp only [List.filter_cons, kind, decide_true, if_true, oldLength_cons]
        omega
      | inserted =>
        rw [Edit.old_length_of_inserted kind] at some
        simp only [List.filter_cons, kind, decide_true, if_true, newLength_cons]
        omega
  · simp only [Block.change] at length ⊢
    cases deletions : edits.filter (·.kind = .deleted) with
    | nil => simp [deletions, oldLength] at length
    | cons e _ => exact oldStart e (by simp [deletions])
  · simp only [Block.change] at length ⊢
    cases insertions : edits.filter (·.kind = .inserted) with
    | nil => simp [insertions, newLength] at length
    | cons e _ => exact newStart e (by simp [insertions])

end Block

/-- Whether two edits belong to one block. -/
def together (a b : Edit) : Bool := decide (a.kind = .kept) == decide (b.kind = .kept)

/-- The edits of a run are either all kept or all changes. -/
theorem uniform_of_chain {run : List Edit} (chain : run.IsChain fun a b => together a b) :
    (∀ e ∈ run, e.kind = .kept) ∨ ∀ e ∈ run, e.kind ≠ .kept := by
  induction run with
  | nil => simp
  | cons e run ih =>
    cases run with
    | nil => simpa using em (e.kind = .kept)
    | cons e' run =>
      obtain ⟨alike, chain⟩ := List.isChain_cons_cons.1 chain
      have alike : e.kind = .kept ↔ e'.kind = .kept := by simpa [together] using alike
      rcases ih chain with kept | changes
      · exact .inl (List.forall_mem_cons.2 ⟨alike.2 (kept e' (by simp)), kept⟩)
      · exact .inr (List.forall_mem_cons.2 ⟨mt alike.1 (changes e' (by simp)), changes⟩)

theorem leads_runs {runs : List (List Edit)} (route : Leads as bs p runs.flatten q)
    (inside : p.Inside as bs) (some : [] ∉ runs)
    (uniform : ∀ run ∈ runs, (∀ e ∈ run, e.kind = .kept) ∨ ∀ e ∈ run, e.kind ≠ .kept) :
    Route (Block.Leads as bs) p
      (runs.map fun run => if run.all (·.kind = .kept) then Block.kept run else Block.change run) q := by
  induction runs generalizing p with
  | nil =>
    cases route
    exact .nil
  | cons run runs ih =>
    obtain ⟨m, first, rest⟩ := route.split
    have someRun : run ≠ [] := fun none => some (by simp [none])
    refine .cons (q := m) ?_ (ih rest (leads_inside first inside) (by simp_all) (by simp_all))
    rcases uniform run (by simp) with kept | changes
    · dsimp only
      rw [if_pos (by simpa using kept)]
      exact Block.leads_kept first inside kept someRun
    · have some : ¬ run.all (·.kind = .kept) := by
        intro kept
        obtain ⟨e, mem⟩ := List.exists_mem_of_ne_nil run someRun
        simp only [List.all_eq_true, decide_eq_true_eq] at kept
        exact changes e mem (kept e mem)
      dsimp only
      rw [if_neg some]
      exact Block.leads_change first inside changes someRun

theorem leads_blocks {edits : List Edit} (route : Leads as bs p edits q)
    (inside : p.Inside as bs) : Route (Block.Leads as bs) p (blocks edits) q := by
  apply leads_runs (by rwa [List.flatten_splitBy]) inside (List.nil_notMem_splitBy _ _)
  intro run mem
  exact uniform_of_chain (List.isChain_of_mem_splitBy mem)

end FormatPreview.Diff
