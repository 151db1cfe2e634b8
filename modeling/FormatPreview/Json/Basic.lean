import FormatPreview.Dictionary
import FormatPreview.Json.Numeral

/-!
JSON values, and their text without blanks. Members stand in the order of the list; values that come
from a reader have them in key order, each key once.
-/
namespace FormatPreview

inductive Json where
  | null
  | bool (value : Bool)
  | number (value : Json.Number)
  | text (value : String)
  | list (items : List Json)
  | record (members : List (String × Json))
deriving Inhabited

namespace Json

/-- A record with its members in key order, the last of each key. -/
def ofMembers (members : List (String × Json)) : Json :=
  .record (Dictionary.ofList members).entries

def ofNat (n : Nat) : Json := .number (.integer n)

def hexDigit (n : Nat) : Char :=
  if n < 10 then Char.ofNat ('0'.toNat + n) else Char.ofNat ('a'.toNat + (n - 10))

/-- How a character is written in a string. Quotes, backslashes and control characters below a space
are escaped, all else stands for itself. -/
def escape (c : Char) : List Char :=
  match c with
  | '"' => ['\\', '"']
  | '\\' => ['\\', '\\']
  | '\x08' => ['\\', 'b']
  | '\x0c' => ['\\', 'f']
  | '\n' => ['\\', 'n']
  | '\r' => ['\\', 'r']
  | '\t' => ['\\', 't']
  | c => if c < ' ' then ['\\', 'u', '0', '0', hexDigit (c.toNat / 16), hexDigit (c.toNat % 16)] else [c]

def quoted (s : String) : List Char := '"' :: (s.toList.flatMap escape ++ ['"'])

mutual

def chars : Json → List Char
  | .null => "null".toList
  | .bool true => "true".toList
  | .bool false => "false".toList
  | .number n => n.text.toList
  | .text s => quoted s
  | .list items => '[' :: itemChars items ++ [']']
  | .record members => '\x7b' :: memberChars members ++ ['\x7d']

def itemChars : List Json → List Char
  | [] => []
  | [item] => chars item
  | item :: next :: rest => chars item ++ ',' :: itemChars (next :: rest)

def memberChars : List (String × Json) → List Char
  | [] => []
  | [(key, value)] => quoted key ++ ':' :: chars value
  | (key, value) :: next :: rest =>
    quoted key ++ ':' :: (chars value ++ ',' :: memberChars (next :: rest))

end

def print (j : Json) : String := String.ofList j.chars

def member? (j : Json) (key : String) : Option Json :=
  match j with
  | .record members => members.lookup key
  | _ => none

end Json

end FormatPreview
