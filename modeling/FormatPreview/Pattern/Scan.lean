import FormatPreview.Pattern.Brace
import FormatPreview.Text.Utf8

/-!
Braces found by byte positions. The bytes of a pattern are scanned for the brace that closes a group
and for its commas, and the pattern is then cut between the positions found. What such a scan could
stumble over is named, and stops it: a depth below zero, a cut with its bounds the wrong way round or
within a character, and a pattern to expand next that is no shorter than the one before.
-/
namespace FormatPreview.Pattern

inductive Fault where
  | depthBelowZero
  | boundsReversed
  | withinCharacter
  | notShorter
deriving DecidableEq

/-- The bytes that characters take. -/
def width : List Char → Nat
  | [] => 0
  | c :: rest => c.utf8Size + width rest

def bytes (text : List Char) : List UInt8 := Text.encode (String.ofList text)

/-- The byte positions of opening braces, for a text that starts at a position. -/
def openings (place : Nat) : List Char → List Nat
  | [] => []
  | c :: rest =>
    let later := openings (place + c.utf8Size) rest
    if c = '\x7b' then place :: later else later

/-- The byte positions of the commas at depth one, and of the brace that closes. -/
structure Bounds where
  commas : List Nat
  close : Nat
deriving DecidableEq

/-- The bounds found from a position on, where so many braces are open. -/
def scan (place depth : Nat) : List UInt8 → Except Fault (Option Bounds)
  | [] => .ok none
  | b :: rest =>
    if b = '\x7b'.toUInt8 then scan (place + 1) (depth + 1) rest
    else if b = '\x7d'.toUInt8 then
      match depth with
      | 0 => .error .depthBelowZero
      | 1 => .ok (some ⟨[], place⟩)
      | depth + 2 => scan (place + 1) (depth + 1) rest
    else if b = ','.toUInt8 ∧ depth = 1 then
      (scan (place + 1) depth rest).map (·.map fun found => ⟨place :: found.commas, found.close⟩)
    else scan (place + 1) depth rest

/-- A text cut at a byte position, if that lies between characters. -/
def cutAt? (position : Nat) : List Char → Option (List Char × List Char)
  | [] => if position = 0 then some ([], []) else none
  | c :: rest =>
    if position = 0 then some ([], c :: rest)
    else if position < c.utf8Size then none
    else (cutAt? (position - c.utf8Size) rest).map fun found => (c :: found.1, found.2)

/-- The characters between two byte positions. -/
def slice (text : List Char) (start stop : Nat) : Except Fault (List Char) :=
  if stop < start then .error .boundsReversed
  else match cutAt? stop text with
    | none => .error .withinCharacter
    | some (front, _) =>
      match cutAt? start front with
      | none => .error .withinCharacter
      | some (_, middle) => .ok middle

/-- What stands between neighbouring bounds, each put in the place of the group. -/
def alternatives (pattern before after : List Char) (left : Nat) :
    List Nat → Except Fault (List (List Char))
  | [] => .ok []
  | right :: more => do
    let part ← slice pattern (left + 1) right
    let rest ← alternatives pattern before after right more
    return (before ++ part ++ after) :: rest

/-- What a pattern is expanded to by the group that an opening brace begins, if it begins one. -/
def expandAt? (pattern : List Char) (opening : Nat) : Except Fault (Option (List (List Char))) := do
  match ← scan opening 0 ((bytes pattern).drop opening) with
  | none => return none
  | some found =>
    if found.commas = [] then return none
    let before ← slice pattern 0 opening
    let after ← slice pattern (found.close + 1) (width pattern)
    some <$> alternatives pattern before after opening (found.commas ++ [found.close])

/-- What the first opening brace that begins a group makes of a pattern. -/
def expandFirst? (pattern : List Char) : List Nat → Except Fault (Option (List (List Char)))
  | [] => .ok none
  | opening :: more => do
    match ← expandAt? pattern opening with
    | some expanded => return some expanded
    | none => expandFirst? pattern more

/-- The patterns that a pattern is expanded to in one step, unless it stands for itself. -/
def expandOnce? (pattern : List Char) : Except Fault (Option (List (List Char))) :=
  expandFirst? pattern (openings 0 pattern)

def scanWords (pattern : List Char) : Except Fault (List (List Char)) :=
  match expandOnce? pattern with
  | .error fault => .error fault
  | .ok none => .ok [pattern]
  | .ok (some expanded) => do
    let words ← expanded.mapM fun next =>
      if _shorter : width next < width pattern then scanWords next else .error .notShorter
    return words.flatten
termination_by width pattern

end FormatPreview.Pattern
