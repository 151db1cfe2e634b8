/-!
Two ways to cut a text at its line ends. `lines` keeps each terminator with its line and knows three
of them; `pieces` cuts at line feeds alone and drops them, so a text that ends in one has an empty
last piece. Joining gives back the text in both cases.
-/
namespace FormatPreview.Text

/-- The lines of a text, each with its terminator: a line feed, a carriage return with a line feed
after it, or a lone carriage return. A text that ends in a terminator has no empty last line. -/
def charLines : List Char → List (List Char)
  | [] => []
  | '\r' :: '\n' :: rest => ['\r', '\n'] :: charLines rest
  | c :: rest =>
    if c = '\n' ∨ c = '\r' then [c] :: charLines rest
    else match charLines rest with
      | [] => [[c]]
      | line :: more => (c :: line) :: more

def charPieces : List Char → List (List Char)
  | [] => [[]]
  | c :: rest =>
    if c = '\n' then [] :: charPieces rest
    else match charPieces rest with
      | [] => [[c]]
      | piece :: more => (c :: piece) :: more

theorem flatten_charLines (cs : List Char) : (charLines cs).flatten = cs := by
  fun_induction charLines cs with
  | case1 => rfl
  | case2 rest ih => simp [ih]
  | case3 c rest _ h ih => simp [ih]
  | case4 c rest _ h empty ih =>
    rw [empty] at ih
    simp [← ih]
  | case5 c rest _ h line more cons ih =>
    rw [cons] at ih
    simp [← ih]

def lines (s : String) : List String := (charLines s.toList).map String.ofList

def pieces (s : String) : List String := (charPieces s.toList).map String.ofList

/-- Whether a line carries a terminator. Only the last line of a text can lack one. -/
def terminated (line : String) : Bool :=
  match line.toList.getLast? with
  | some c => c = '\n' || c = '\r'
  | none => false

def joinWith (separator : String) (texts : List String) : String :=
  separator.intercalate texts

end FormatPreview.Text
