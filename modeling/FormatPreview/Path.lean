/-!
Paths by their components. Repeated separators and dots after the first component make no
difference, so `src//a.js`, `src/./a.js` and `src/a.js/` are one path. `./a.js` and `a.js` are two.
-/
namespace FormatPreview

inductive Component where
  | root
  | current
  | parent
  | name (value : String)
deriving DecidableEq

namespace Component

/-- The order of kinds: a path from the root comes first, names come last. -/
def rank : Component → Nat
  | .root => 0
  | .current => 1
  | .parent => 2
  | .name _ => 3

def before (a b : Component) : Bool :=
  match a, b with
  | .name x, .name y => x < y
  | a, b => a.rank < b.rank

end Component

namespace Path

def segments : List Char → List (List Char)
  | [] => [[]]
  | c :: rest =>
    if c = '/' then [] :: segments rest
    else match segments rest with
      | [] => [[c]]
      | segment :: more => (c :: segment) :: more

def component? (segment : List Char) : Option Component :=
  if segment = [] ∨ segment = ['.'] then none
  else if segment = ['.', '.'] then some .parent
  else some (.name (String.ofList segment))

def components (path : String) : List Component :=
  let parts := segments path.toList
  let first : List Component :=
    match path.toList.head?, parts.head? with
    | some '/', _ => [.root]
    | _, some ['.'] => [.current]
    | _, _ => []
  first ++ parts.filterMap component?

/-- Whether two spellings are one path. -/
def same (a b : String) : Bool := components a = components b

def listBefore : List Component → List Component → Bool
  | [], [] => false
  | [], _ :: _ => true
  | _ :: _, [] => false
  | a :: as, b :: bs => a.before b || (a = b && listBefore as bs)

def before (a b : String) : Bool := listBefore (components a) (components b)

end Path

end FormatPreview
