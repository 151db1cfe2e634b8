/-!
Decoding of bytes as UTF-8. The bytes are read as a sequence of symbols: a character, or `none` for
bytes that belong to no character. A character that is broken off counts once, with all the bytes
that could still have begun it, so the replacement text has one mark for each broken place.
-/
namespace FormatPreview.Text

/-- A character of which some bytes are still owed. The next byte lies from `low` to `high`. -/
structure Begun where
  bits : Nat
  owed : Nat
  low : UInt8
  high : UInt8

/-- What the first byte of a character announces. The bounds leave out overlong forms, surrogates
and numbers past U+10FFFF, all of which show in the second byte. -/
def Begun.ofLead? (b : UInt8) : Option Begun :=
  if 0xC2 ≤ b && b ≤ 0xDF then some ⟨b.toNat - 0xC0, 1, 0x80, 0xBF⟩
  else if b = 0xE0 then some ⟨0, 2, 0xA0, 0xBF⟩
  else if b = 0xED then some ⟨0xD, 2, 0x80, 0x9F⟩
  else if 0xE1 ≤ b && b ≤ 0xEF then some ⟨b.toNat - 0xE0, 2, 0x80, 0xBF⟩
  else if b = 0xF0 then some ⟨0, 3, 0x90, 0xBF⟩
  else if 0xF1 ≤ b && b ≤ 0xF3 then some ⟨b.toNat - 0xF0, 3, 0x80, 0xBF⟩
  else if b = 0xF4 then some ⟨4, 3, 0x80, 0x8F⟩
  else none

def Begun.accepts (p : Begun) (b : UInt8) : Bool := p.low ≤ b && b ≤ p.high

def Begun.push (p : Begun) (b : UInt8) : Begun :=
  ⟨p.bits * 64 + (b.toNat - 0x80), p.owed - 1, 0x80, 0xBF⟩

/-- The symbols that are complete after a byte read between characters, and what it begins. -/
def beginSymbol (b : UInt8) : List (Option Char) × Option Begun :=
  if b < 0x80 then ([some (Char.ofNat b.toNat)], none)
  else match Begun.ofLead? b with
    | some p => ([], some p)
    | none => ([none], none)

/-- One byte further. A byte that cannot continue the character begun breaks it off and is read
again as a first byte. -/
def nextSymbol (state : Option Begun) (b : UInt8) : List (Option Char) × Option Begun :=
  match state with
  | none => beginSymbol b
  | some p =>
    if p.accepts b then
      let p := p.push b
      if p.owed = 0 then ([some (Char.ofNat p.bits)], none) else ([], some p)
    else
      let (found, state) := beginSymbol b
      (none :: found, state)

def symbolsFrom : Option Begun → List UInt8 → List (Option Char)
  | none, [] => []
  | some _, [] => [none]
  | state, b :: rest =>
    let (found, state) := nextSymbol state b
    found ++ symbolsFrom state rest

def symbols (bytes : List UInt8) : List (Option Char) := symbolsFrom none bytes

/-- The text that the bytes encode, if they encode one. -/
def decode? (bytes : List UInt8) : Option String :=
  ((symbols bytes).mapM id).map String.ofList

def decodeLossy (bytes : List UInt8) : String :=
  String.ofList ((symbols bytes).map (·.getD '\uFFFD'))

def encode (text : String) : List UInt8 := text.toUTF8.toList

end FormatPreview.Text
