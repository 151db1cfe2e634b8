/-!
Directory trees. A place is the list of names that lead to it, the nearest one first, so that the
directory above a place is its tail and the root is its own parent. The directories above an entry
are entries too. No child is deeper than the tree: `length_of_mem_children`.

Names are texts, and the root can be listed and entered. A link to a file is a file; links to
directories do not come up, and reading fails for lack of rights alone.
-/
namespace FormatPreview

/-- What may be done with a directory. -/
structure Rights where
  /-- Its names can be listed. -/
  listed : Bool
  /-- Names can be looked up in it. -/
  entered : Bool
deriving DecidableEq

def Rights.all : Rights := ⟨true, true⟩

inductive Entry where
  /-- A regular file, with its content if it can be read. -/
  | file (content : Option (List UInt8))
  | directory (rights : Rights)
  /-- A pipe, a socket, a device or a link that leads nowhere. -/
  | other
deriving DecidableEq

abbrev Place := List String

structure Tree where
  entries : List (Place × Entry)

namespace Tree

def empty : Tree := ⟨[]⟩

def get? (t : Tree) : Place → Option Entry
  | [] => some (.directory .all)
  | place => t.entries.lookup place

/-- The rights to a directory. Nothing else has any. -/
def rights? (t : Tree) (place : Place) : Option Rights :=
  match t.get? place with
  | some (.directory rights) => some rights
  | _ => none

def isDirectory (t : Tree) (place : Place) : Bool := (t.rights? place).isSome

def listed (t : Tree) (place : Place) : Bool := (t.rights? place).any (·.listed)

def entered (t : Tree) (place : Place) : Bool := (t.rights? place).any (·.entered)

def isFile (t : Tree) (place : Place) : Bool :=
  match t.get? place with
  | some (.file _) => true
  | _ => false

def content? (t : Tree) (place : Place) : Option (List UInt8) :=
  match t.get? place with
  | some (.file content) => content
  | _ => none

/-- The tree with one more entry, unless there is one in its place. -/
def addEntry (t : Tree) (place : Place) (e : Entry) : Tree :=
  if (t.get? place).isSome then t else ⟨(place, e) :: t.entries⟩

def addDirectories (t : Tree) : Place → Tree
  | [] => t
  | name :: above => (t.addDirectories above).addEntry (name :: above) (.directory .all)

/-- The tree with one more entry and the directories above it. -/
def add (t : Tree) (place : Place) (e : Entry) : Tree :=
  (t.addDirectories place.tail).addEntry place e

def ofList (entries : List (Place × Entry)) : Tree :=
  entries.foldl (fun t e => t.add e.1 e.2) empty

def namesBelow (t : Tree) (place : Place) : List String :=
  t.entries.filterMap fun e =>
    match e.1 with
    | name :: above => if above = place then some name else none
    | [] => none

/-- The names in a directory, in the order in which a search takes them. -/
def children (t : Tree) (place : Place) : List String :=
  (t.namesBelow place).mergeSort fun a b => decide (a ≤ b)

def depth (t : Tree) : Nat := (t.entries.map fun e => e.1.length).foldl max 0

theorem le_foldl_max (ns : List Nat) (start n : Nat) (h : n ∈ ns ∨ n ≤ start) :
    n ≤ ns.foldl max start := by
  induction ns generalizing start with
  | nil => simpa using h
  | cons first rest ih =>
    refine ih _ ?_
    rcases h with h | h
    · rcases List.mem_cons.1 h with rfl | h
      · exact .inr (by omega)
      · exact .inl h
    · exact .inr (by omega)

theorem mem_entries_of_mem_children {t : Tree} {place : Place} {name : String}
    (h : name ∈ t.children place) : ∃ e, (name :: place, e) ∈ t.entries := by
  obtain ⟨⟨found, e⟩, mem, eq⟩ := List.mem_filterMap.1 (List.mem_mergeSort.1 h)
  cases found with
  | nil => simp at eq
  | cons first above =>
    simp only [Option.ite_none_right_eq_some, Option.some.injEq] at eq
    obtain ⟨rfl, rfl⟩ := eq
    exact ⟨e, mem⟩

/-- A child is no deeper than the tree. -/
theorem length_of_mem_children {t : Tree} {place : Place} {name : String}
    (h : name ∈ t.children place) : place.length < t.depth := by
  obtain ⟨e, mem⟩ := mem_entries_of_mem_children h
  refine le_foldl_max _ 0 _ (.inl ?_)
  exact List.mem_map.2 ⟨(name :: place, e), mem, by simp⟩

end Tree

end FormatPreview
