/-!
Finite maps with text keys, kept as entries in strictly increasing key order. The order is part of
the type, so two dictionaries that answer every look-up alike are equal: `ext_get?`.
-/
namespace FormatPreview

structure Dictionary (β : Type) where
  entries : List (String × β)
  ordered : entries.Pairwise (fun a b => a.1 < b.1)

namespace Dictionary

variable {β : Type}

def empty : Dictionary β := ⟨[], .nil⟩

instance : Inhabited (Dictionary β) := ⟨empty⟩

def insertEntry (key : String) (value : β) : List (String × β) → List (String × β)
  | [] => [(key, value)]
  | (k, v) :: rest =>
    if key < k then (key, value) :: (k, v) :: rest
    else if key = k then (key, value) :: rest
    else (k, v) :: insertEntry key value rest

theorem mem_insertEntry {key : String} {value : β} {entries : List (String × β)} {e : String × β}
    (h : e ∈ insertEntry key value entries) : e = (key, value) ∨ e ∈ entries := by
  fun_induction insertEntry key value entries with grind

private theorem lt_of_not {a b : String} (h : ¬a < b) (ne : a ≠ b) : b < a := by
  rcases Std.lt_trichotomy a b with l | e | g
  · exact absurd l h
  · exact absurd e ne
  · exact g

theorem pairwise_insertEntry {key : String} {value : β} {entries : List (String × β)}
    (h : entries.Pairwise (fun a b => a.1 < b.1)) :
    (insertEntry key value entries).Pairwise (fun a b => a.1 < b.1) := by
  fun_induction insertEntry key value entries with
  | case1 => simp
  | case2 k v rest less =>
    obtain ⟨above, sorted⟩ := List.pairwise_cons.1 h
    refine List.pairwise_cons.2 ⟨fun e he => ?_, h⟩
    rcases List.mem_cons.1 he with rfl | he
    · exact less
    · exact String.lt_trans less (above e he)
  | case3 v rest _ => simpa using h
  | case4 k v rest less ne ih =>
    obtain ⟨above, sorted⟩ := List.pairwise_cons.1 h
    refine List.pairwise_cons.2 ⟨fun e he => ?_, ih sorted⟩
    rcases mem_insertEntry he with rfl | he
    · exact lt_of_not less ne
    · exact above e he

def insert (d : Dictionary β) (key : String) (value : β) : Dictionary β :=
  ⟨insertEntry key value d.entries, pairwise_insertEntry d.ordered⟩

def get? (d : Dictionary β) (key : String) : Option β := d.entries.lookup key

/-- Entries put in one after the other. Of two with one key the later stays. -/
def insertAll (d : Dictionary β) (entries : List (String × β)) : Dictionary β :=
  entries.foldl (fun d e => d.insert e.1 e.2) d

def ofList (entries : List (String × β)) : Dictionary β := empty.insertAll entries

/-- The entries of both, those of the upper one where both have a key. -/
def overlay (top base : Dictionary β) : Dictionary β := base.insertAll top.entries

@[simp] theorem get?_empty (k : String) : (empty : Dictionary β).get? k = none := rfl

theorem lookup_insertEntry (key : String) (value : β) (entries : List (String × β)) (k : String) :
    (insertEntry key value entries).lookup k = if k = key then some value else entries.lookup k := by
  fun_induction insertEntry key value entries with grind

theorem get?_insert (d : Dictionary β) (key : String) (value : β) (k : String) :
    (d.insert key value).get? k = if k = key then some value else d.get? k :=
  lookup_insertEntry key value d.entries k

theorem lookup_eq_none_of_lt {entries : List (String × β)} {k : String}
    (h : ∀ e ∈ entries, k < e.1) : entries.lookup k = none := by
  induction entries with
  | nil => rfl
  | cons e rest ih =>
    obtain ⟨key, value⟩ := e
    have ne : (k == key) = false := by
      refine beq_false_of_ne fun eq => String.lt_irrefl k ?_
      simpa [eq] using h (key, value) (by simp)
    rw [List.lookup_cons, ne]
    exact ih fun e' he => h e' (List.mem_cons_of_mem _ he)

private theorem lookup_head_or_lt {k : String} {v : β} {rest : List (String × β)} {key : String}
    (above : ∀ e ∈ rest, k < e.1) (found : ((k, v) :: rest).lookup key ≠ none) : ¬key < k := by
  intro less
  refine found (lookup_eq_none_of_lt fun e he => ?_)
  rcases List.mem_cons.1 he with rfl | he
  · exact less
  · exact String.lt_trans less (above e he)

theorem ext_lookup {a b : List (String × β)} (ha : a.Pairwise (fun x y => x.1 < y.1))
    (hb : b.Pairwise (fun x y => x.1 < y.1)) (h : ∀ k, a.lookup k = b.lookup k) : a = b := by
  induction a generalizing b with
  | nil =>
    cases b with
    | nil => rfl
    | cons e rest => obtain ⟨k, v⟩ := e; simpa using h k
  | cons e rest ih =>
    obtain ⟨k, v⟩ := e
    obtain ⟨above, sorted⟩ := List.pairwise_cons.1 ha
    cases b with
    | nil => simpa using h k
    | cons e' rest' =>
      obtain ⟨k', v'⟩ := e'
      obtain ⟨above', sorted'⟩ := List.pairwise_cons.1 hb
      have less : ¬k < k' := lookup_head_or_lt above' (by rw [← h k]; simp)
      have more : ¬k' < k := lookup_head_or_lt above (by rw [h k']; simp)
      obtain rfl : k = k' := by
        rcases Std.lt_trichotomy k k' with l | e | g
        · exact absurd l less
        · exact e
        · exact absurd g more
      obtain rfl : v = v' := by simpa using h k
      congr 1
      refine ih sorted sorted' fun key => ?_
      by_cases same : key = k
      · subst same
        rw [lookup_eq_none_of_lt above, lookup_eq_none_of_lt above']
      · have ne : (key == k) = false := beq_false_of_ne same
        simpa [List.lookup_cons, ne] using h key

theorem ext_get? {a b : Dictionary β} (h : ∀ k, a.get? k = b.get? k) : a = b := by
  obtain ⟨xs, hx⟩ := a
  obtain ⟨ys, hy⟩ := b
  obtain rfl : xs = ys := ext_lookup hx hy h
  rfl

/-- A key not among the new entries keeps its value. -/
theorem get?_insertAll (entries : List (String × β)) (d : Dictionary β) (k : String) :
    (d.insertAll entries).get? k = (entries.reverse.lookup k).or (d.get? k) := by
  induction entries generalizing d with
  | nil => rfl
  | cons e rest ih =>
    obtain ⟨key, value⟩ := e
    have step := ih (d.insert key value)
    rw [insertAll, List.foldl_cons, ← insertAll, step, get?_insert, List.reverse_cons]
    grind

end Dictionary

end FormatPreview
