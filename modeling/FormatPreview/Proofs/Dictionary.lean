import Mathlib.Data.List.Nodup
import FormatPreview.Dictionary

/-!
Entries whose keys differ. Their order does not show in a look-up, so each entry is found under its
key, and entries that answer every look-up alike are the same up to order.
-/
namespace FormatPreview.Dictionary

variable {β : Type} {entries others : List (String × β)}

theorem nodup_keys (ordered : entries.Pairwise (fun a b => a.1 < b.1)) :
    (entries.map Prod.fst).Nodup := by
  rw [List.Nodup, List.pairwise_map]
  exact ordered.imp String.ne_of_lt

theorem lookup_eq_some_iff (distinct : (entries.map Prod.fst).Nodup) (key : String) (value : β) :
    entries.lookup key = some value ↔ (key, value) ∈ entries := by
  induction entries with
  | nil => simp
  | cons e rest ih =>
    obtain ⟨k, v⟩ := e
    obtain ⟨fresh, distinct⟩ := List.nodup_cons.1 distinct
    by_cases same : key = k
    · subst same
      have absent : (key, value) ∉ rest := fun mem =>
        fresh (List.mem_map.2 ⟨(key, value), mem, rfl⟩)
      simp [absent, eq_comm]
    · have apart : (key == k) = false := beq_false_of_ne same
      simp [List.lookup_cons, apart, same, ih distinct]

theorem lookup_eq_none_iff (distinct : (entries.map Prod.fst).Nodup) (key : String) :
    entries.lookup key = none ↔ key ∉ entries.map Prod.fst := by
  simp [Option.eq_none_iff_forall_ne_some, lookup_eq_some_iff distinct]

theorem lookup_perm (distinct : (entries.map Prod.fst).Nodup) (perm : entries.Perm others)
    (key : String) : entries.lookup key = others.lookup key := by
  have distinct' : (others.map Prod.fst).Nodup := (perm.map _).nodup_iff.1 distinct
  apply Option.ext
  intro value
  rw [lookup_eq_some_iff distinct, lookup_eq_some_iff distinct', perm.mem_iff]

theorem lookup_filter (distinct : (entries.map Prod.fst).Nodup) (p : String × β → Bool)
    (key : String) :
    (entries.filter p).lookup key = (entries.lookup key).filter fun value => p (key, value) := by
  have distinct' : ((entries.filter p).map Prod.fst).Nodup :=
    distinct.sublist (List.filter_sublist.map _)
  apply Option.ext
  intro value
  rw [lookup_eq_some_iff distinct', List.mem_filter, Option.filter_eq_some_iff,
    lookup_eq_some_iff distinct]

theorem perm_of_lookup (distinct : (entries.map Prod.fst).Nodup)
    (distinct' : (others.map Prod.fst).Nodup)
    (same : ∀ key, entries.lookup key = others.lookup key) : entries.Perm others := by
  refine (List.perm_ext_iff_of_nodup (.of_map _ distinct) (.of_map _ distinct')).2 ?_
  rintro ⟨key, value⟩
  rw [← lookup_eq_some_iff distinct, ← lookup_eq_some_iff distinct', same]

theorem get?_eq_some_iff (d : Dictionary β) (key : String) (value : β) :
    d.get? key = some value ↔ (key, value) ∈ d.entries :=
  lookup_eq_some_iff (nodup_keys d.ordered) key value

theorem get?_eq_none_iff (d : Dictionary β) (key : String) :
    d.get? key = none ↔ key ∉ d.entries.map Prod.fst :=
  lookup_eq_none_iff (nodup_keys d.ordered) key

theorem get?_ofList (distinct : (entries.map Prod.fst).Nodup) (key : String) :
    (ofList entries).get? key = entries.lookup key := by
  have last := lookup_perm distinct entries.reverse_perm.symm key
  simp [ofList, get?_insertAll, ← last]

theorem get?_overlay (top base : Dictionary β) (key : String) :
    (top.overlay base).get? key = (top.get? key).or (base.get? key) := by
  have last := lookup_perm (nodup_keys top.ordered) top.entries.reverse_perm.symm key
  rw [overlay, get?_insertAll, ← last]
  rfl

/-! Laying dictionaries over one another, look-up by look-up. -/

theorem overlay_assoc (top middle base : Dictionary β) :
    (top.overlay middle).overlay base = top.overlay (middle.overlay base) := by
  apply ext_get?
  intro key
  simp only [get?_overlay, Option.or_assoc]

@[simp] theorem overlay_empty (top : Dictionary β) : top.overlay empty = top := by
  apply ext_get?
  intro key
  rw [get?_overlay, get?_empty, Option.or_none]

@[simp] theorem empty_overlay (base : Dictionary β) : empty.overlay base = base := rfl

/-- What a dictionary has already can be laid under it once more. -/
theorem overlay_absorb (top base : Dictionary β) :
    (top.overlay base).overlay top = top.overlay base := by
  apply ext_get?
  intro key
  simp only [get?_overlay]
  cases top.get? key <;> simp

/-- Entries in any order make the dictionary that has them in key order. -/
theorem ofList_perm (d : Dictionary β) (perm : entries.Perm d.entries) : ofList entries = d := by
  have distinct : (entries.map Prod.fst).Nodup :=
    (perm.map _).nodup_iff.2 (nodup_keys d.ordered)
  apply ext_get?
  intro key
  rw [get?_ofList distinct, lookup_perm distinct perm, get?]

end FormatPreview.Dictionary
