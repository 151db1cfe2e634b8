import FormatPreview.Json.Token

/-!
JSON documents as trees of what is written: numerals, strings sign by sign, members in their order
with repetitions. A document is read from tokens by a machine that goes through them once and keeps
the containers that are still open; the value of a document is what it means to a reader that gives
up on meaningless strings, numerals out of range and deep nesting.
-/
namespace FormatPreview.Json

inductive Document where
  | null
  | bool (value : Bool)
  | number (numeral : Numeral)
  | text (glyphs : List Glyph)
  | list (items : List Document)
  | record (members : List (List Glyph × Document))
deriving Inhabited

namespace Document

/-- An open container that waits for a value. What it holds already is listed from the last. -/
inductive Frame where
  | list (items : List Document)
  | record (members : List (List Glyph × Document)) (key : List Glyph)

/-- What the tokens so far call for, within the containers that are open, innermost first. -/
inductive State where
  | value (frames : List Frame)
  | firstItem (frames : List Frame)
  | afterItem (items : List Document) (frames : List Frame)
  | firstKey (frames : List Frame)
  | nextKey (members : List (List Glyph × Document)) (frames : List Frame)
  | colon (members : List (List Glyph × Document)) (key : List Glyph) (frames : List Frame)
  | afterMember (members : List (List Glyph × Document)) (frames : List Frame)
  | finished (document : Document)

/-- A value is complete: it goes into the innermost container. -/
def State.fill (d : Document) : List Frame → State
  | [] => .finished d
  | .list items :: frames => .afterItem (d :: items) frames
  | .record members key :: frames => .afterMember ((key, d) :: members) frames

def State.beginValue? (frames : List Frame) : Token → Option State
  | .null => some (.fill .null frames)
  | .bool b => some (.fill (.bool b) frames)
  | .number n => some (.fill (.number n) frames)
  | .text glyphs => some (.fill (.text glyphs) frames)
  | .openList => some (.firstItem frames)
  | .openRecord => some (.firstKey frames)
  | _ => none

def State.step? (s : State) (t : Token) : Option State :=
  match s, t with
  | .value frames, t => beginValue? frames t
  | .firstItem frames, .closeList => some (.fill (.list []) frames)
  | .firstItem frames, t => beginValue? (.list [] :: frames) t
  | .afterItem items frames, .comma => some (.value (.list items :: frames))
  | .afterItem items frames, .closeList => some (.fill (.list items.reverse) frames)
  | .firstKey frames, .closeRecord => some (.fill (.record []) frames)
  | .firstKey frames, .text key => some (.colon [] key frames)
  | .nextKey members frames, .text key => some (.colon members key frames)
  | .colon members key frames, .colon => some (.value (.record members key :: frames))
  | .afterMember members frames, .comma => some (.nextKey members frames)
  | .afterMember members frames, .closeRecord => some (.fill (.record members.reverse) frames)
  | _, _ => none

def ofTokens? (tokens : List Token) : Option Document :=
  match tokens.foldlM State.step? (.value []) with
  | some (.finished d) => some d
  | _ => none

def ofSymbols? (symbols : List (Option Char)) : Option Document :=
  (tokens? symbols).bind ofTokens?

def ofBytes? (bytes : List UInt8) : Option Document := ofSymbols? (Text.symbols bytes)

mutual

/-- The value of a document with at most so many containers inside one another. -/
def value? (levels : Nat) (d : Document) : Option Json :=
  match d with
  | .null => some .null
  | .bool b => some (.bool b)
  | .number n => n.value?.map .number
  | .text glyphs => (glyphText? glyphs).map .text
  | .list items =>
    match levels with
    | 0 => none
    | levels + 1 => (itemValues? levels items).map .list
  | .record members =>
    match levels with
    | 0 => none
    | levels + 1 => (memberValues? levels members).map ofMembers

def itemValues? (levels : Nat) : List Document → Option (List Json)
  | [] => some []
  | d :: rest => do
    let value ← value? levels d
    let values ← itemValues? levels rest
    return value :: values

def memberValues? (levels : Nat) : List (List Glyph × Document) → Option (List (String × Json))
  | [] => some []
  | (glyphs, d) :: rest => do
    let key ← glyphText? glyphs
    let value ← value? levels d
    let values ← memberValues? levels rest
    return (key, value) :: values

end

end Document

/-- The containers that a reader enters before it gives up. -/
def maxLevels : Nat := 127

def ofBytes? (bytes : List UInt8) : Option Json :=
  (Document.ofBytes? bytes).bind (Document.value? maxLevels)

end FormatPreview.Json
