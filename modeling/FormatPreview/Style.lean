/-!
Terminal styles. A styled text stands between the code of its style and the reset code. A reset
inside the text would end the style too early, so the code of the style is repeated after it.
-/
namespace FormatPreview

inductive Style where
  | bold
  | red
  | green
  | yellow
  | cyan
deriving DecidableEq

namespace Style

def code : Style → List Char
  | .bold => ['1']
  | .red => ['3', '1']
  | .green => ['3', '2']
  | .yellow => ['3', '3']
  | .cyan => ['3', '6']

def escape : Char := '\x1b'

def start (s : Style) : List Char := escape :: '[' :: (s.code ++ ['m'])

def reset : List Char := [escape, '[', '0', 'm']

/-- The text with the start of the style after each reset in it. -/
def resume (s : Style) : List Char → List Char
  | '\x1b' :: '[' :: '0' :: 'm' :: rest => reset ++ s.start ++ s.resume rest
  | c :: rest => c :: s.resume rest
  | [] => []

def paint (s : Style) (on : Bool) (text : String) : String :=
  if on then String.ofList (s.start ++ s.resume text.toList ++ reset) else text

end Style

end FormatPreview
