import FormatPreview.Json.Basic
import FormatPreview.Text.Utf8

/-!
The tokens of a JSON text. A string token keeps what is written between the quotes, so a text with a
string that means no text, such as one with half a surrogate pair, still has tokens.
-/
namespace FormatPreview.Json

/-- A sign of a string as written: a character, a UTF-16 unit by its number, or a broken place. -/
inductive Glyph where
  | char (c : Char)
  | unit (code : Nat)
  | broken
deriving DecidableEq

/-- The characters that the signs of a string mean. Two surrogates in a row, the high one first,
make one character; any other surrogate makes the string meaningless. -/
def glyphChars? : List Glyph → Option (List Char)
  | [] => some []
  | .char c :: rest => (glyphChars? rest).map (c :: ·)
  | .broken :: _ => none
  | .unit high :: .unit low :: rest =>
    if 0xD800 ≤ high ∧ high < 0xDC00 then
      if 0xDC00 ≤ low ∧ low < 0xE000 then
        (glyphChars? rest).map
          (Char.ofNat (0x10000 + (high - 0xD800) * 0x400 + (low - 0xDC00)) :: ·)
      else none
    else if 0xDC00 ≤ high ∧ high < 0xE000 then none
    else (glyphChars? (.unit low :: rest)).map (Char.ofNat high :: ·)
  | .unit code :: rest =>
    if 0xD800 ≤ code ∧ code < 0xE000 then none
    else (glyphChars? rest).map (Char.ofNat code :: ·)

def glyphText? (glyphs : List Glyph) : Option String := (glyphChars? glyphs).map String.ofList

inductive Token where
  | openList
  | closeList
  | openRecord
  | closeRecord
  | comma
  | colon
  | null
  | bool (value : Bool)
  | number (numeral : Numeral)
  | text (glyphs : List Glyph)
deriving DecidableEq

def hexValue? (c : Char) : Option Nat :=
  if isDigit c then some (digitValue c)
  else if 'a' ≤ c ∧ c ≤ 'f' then some (c.toNat - 'a'.toNat + 10)
  else if 'A' ≤ c ∧ c ≤ 'F' then some (c.toNat - 'A'.toNat + 10)
  else none

def unit? (a b c d : Char) : Option Nat := do
  let a ← hexValue? a
  let b ← hexValue? b
  let c ← hexValue? c
  let d ← hexValue? d
  return ((a * 16 + b) * 16 + c) * 16 + d

/-- The character that a letter after a backslash stands for. -/
def unescape? (c : Char) : Option Char :=
  match c with
  | '"' => some '"'
  | '\\' => some '\\'
  | '/' => some '/'
  | 'b' => some '\x08'
  | 'f' => some '\x0c'
  | 'n' => some '\n'
  | 'r' => some '\r'
  | 't' => some '\t'
  | _ => none

/-- The signs of a string up to its closing quote, and what follows the quote. -/
def stringBody? : List (Option Char) → Option (List Glyph × List (Option Char))
  | [] => none
  | some '"' :: rest => some ([], rest)
  | some '\\' :: some 'u' :: some a :: some b :: some c :: some d :: rest =>
    match unit? a b c d with
    | some code => (stringBody? rest).map fun found => (.unit code :: found.1, found.2)
    | none => none
  | some '\\' :: some e :: rest =>
    match unescape? e with
    | some c => (stringBody? rest).map fun found => (.char c :: found.1, found.2)
    | none => none
  | some c :: rest =>
    if c < ' ' ∨ c = '\\' then none
    else (stringBody? rest).map fun found => (.char c :: found.1, found.2)
  | none :: rest => (stringBody? rest).map fun found => (.broken :: found.1, found.2)

theorem length_of_stringBody? {input : List (Option Char)}
    {found : List Glyph × List (Option Char)} (h : stringBody? input = some found) :
    found.2.length < input.length := by
  fun_induction stringBody? input generalizing found with grind [Option.map_eq_some_iff]

def isSpace (c : Char) : Bool := c = ' ' || c = '\n' || c = '\r' || c = '\t'

/-- Characters of which a numeral consists. -/
def isNumeric (c : Char) : Bool := isDigit c || c = '-' || c = '+' || c = '.' || c = 'e' || c = 'E'

def isWordLetter (c : Char) : Bool := 'a' ≤ c && c ≤ 'z'

def punctuation? (c : Char) : Option Token :=
  match c with
  | '[' => some .openList
  | ']' => some .closeList
  | '\x7b' => some .openRecord
  | '\x7d' => some .closeRecord
  | ',' => some .comma
  | ':' => some .colon
  | _ => none

def word? (cs : List Char) : Option Token :=
  if cs = "null".toList then some .null
  else if cs = "true".toList then some (.bool true)
  else if cs = "false".toList then some (.bool false)
  else none

/-- The longest run of characters with a property, and what follows it. -/
def run (p : Char → Bool) : List (Option Char) → List Char × List (Option Char)
  | some c :: rest =>
    if p c then
      let (cs, rest) := run p rest
      (c :: cs, rest)
    else ([], some c :: rest)
  | rest => ([], rest)

theorem length_run (p : Char → Bool) (input : List (Option Char)) :
    (run p input).2.length ≤ input.length := by
  fun_induction run p input with grind

/-- The tokens of a text. A run of numeral characters is one numeral and a run of small letters one
word, so two of them need a sign or a blank between. -/
def tokens? : List (Option Char) → Option (List Token)
  | [] => some []
  | none :: _ => none
  | some c :: rest =>
    if isSpace c then tokens? rest
    else if c = '"' then
      match _read : stringBody? rest with
      | some found => (tokens? found.2).map (.text found.1 :: ·)
      | none => none
    else match punctuation? c with
      | some token => (tokens? rest).map (token :: ·)
      | none =>
        if isNumeric c ∧ c ≠ 'e' then
          match Numeral.ofChars? (c :: (run isNumeric rest).1) with
          | some numeral => (tokens? (run isNumeric rest).2).map (.number numeral :: ·)
          | none => none
        else match word? (c :: (run isWordLetter rest).1) with
          | some token => (tokens? (run isWordLetter rest).2).map (token :: ·)
          | none => none
termination_by input => input.length
decreasing_by
  all_goals simp only [List.length_cons]
  · omega
  · have := length_of_stringBody? _read; omega
  · omega
  · have := length_run isNumeric rest; omega
  · have := length_run isWordLetter rest; omega

end FormatPreview.Json
