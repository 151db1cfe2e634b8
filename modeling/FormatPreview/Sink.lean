import FormatPreview.Text.Utf8

/-!
Where a report goes. A sink takes pieces of bytes one after the other, and may fail at any of them:
what it does can depend on all the pieces before. A piece that it fails at may be taken in part.
-/
namespace FormatPreview

structure SinkError where
  message : String
deriving DecidableEq

/-- A failed write: how many bytes were taken nevertheless, and the error. -/
structure WriteFailure where
  kept : Nat
  error : SinkError

structure Sink where
  failure? : (pieces : List (List UInt8)) → (bytes : List UInt8) → Option WriteFailure
  pieces : List (List UInt8)

namespace Sink

/-- A sink that takes so many bytes in all, or any number of them. -/
def empty (room : Option Nat) : Sink where
  failure? pieces bytes :=
    room.bind fun room =>
      let left := room - pieces.flatten.length
      if bytes.length ≤ left then none else some ⟨left, ⟨"disk full"⟩⟩
  pieces := []

def write (s : Sink) (text : String) : Sink × Except SinkError Unit :=
  let bytes := Text.encode text
  match s.failure? s.pieces bytes with
  | none => ({ s with pieces := s.pieces ++ [bytes] }, .ok ())
  | some failure =>
    ({ s with pieces := s.pieces ++ [bytes.take failure.kept] }, .error failure.error)

def writeAll (s : Sink) : List String → Sink × Except SinkError Unit
  | [] => (s, .ok ())
  | text :: rest =>
    match s.write text with
    | (s, .ok ()) => s.writeAll rest
    | (s, .error e) => (s, .error e)

def text (s : Sink) : String := Text.decodeLossy s.pieces.flatten

end Sink

end FormatPreview
