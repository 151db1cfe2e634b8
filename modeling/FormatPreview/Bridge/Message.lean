import FormatPreview.Json.Document
import FormatPreview.Options

/-!
What the bridge to the formatter's process says and hears: a request is one JSON object on the
process's input, a reply one JSON value on its output. A reply has a flag for success, a value and
an error text; it may be an object, whose unknown members are passed over unread, or the list of the
three in this order. A member that occurs twice, or one of the wrong type, makes it no reply.
-/
namespace FormatPreview.Bridge

inductive Request where
  | resolveConfig (path : String)
  | format (content : String) (options : Options)

def Request.toJson (package : String) : Request → Json
  | .resolveConfig path =>
    .record [("op", .text "resolveConfig"), ("module", .text package), ("path", .text path)]
  | .format content options =>
    .record [("op", .text "format"), ("module", .text package), ("content", .text content),
      ("options", options.written)]

def Request.bytes (package : String) (r : Request) : List UInt8 :=
  Text.encode (r.toJson package).print

structure Reply where
  ok : Bool
  value : Json
  error : Option String

namespace Reply

open Json

def flag? : Document → Option Bool
  | .bool b => some b
  | _ => none

/-- The value of a reply. The reply around it counts as a container. -/
def value? (d : Document) : Option Json := d.value? (maxLevels - 1)

/-- An error text, which may be left open by `null`. -/
def error? : Document → Option (Option String)
  | .null => some none
  | .text glyphs => (glyphText? glyphs).map some
  | _ => none

/-- The members of a reply found so far. -/
structure Fields where
  ok : Option Bool
  value : Option Json
  error : Option (Option String)

def Fields.add? (f : Fields) (member : List Glyph × Document) : Option Fields := do
  match ← glyphText? member.1 with
  | "ok" => if f.ok.isSome then none else return { f with ok := some (← flag? member.2) }
  | "value" => if f.value.isSome then none else return { f with value := some (← value? member.2) }
  | "error" => if f.error.isSome then none else return { f with error := some (← error? member.2) }
  | _ => return f

/-- The reply with what was found. Without a flag it is none. -/
def Fields.reply? (f : Fields) : Option Reply :=
  f.ok.map fun ok => ⟨ok, f.value.getD .null, f.error.getD none⟩

def ofDocument? : Document → Option Reply
  | .record members => do (← members.foldlM Fields.add? ⟨none, none, none⟩).reply?
  | .list [ok] => do return ⟨← flag? ok, .null, none⟩
  | .list [ok, value] => do return ⟨← flag? ok, ← value? value, none⟩
  | .list [ok, value, error] => do return ⟨← flag? ok, ← value? value, ← error? error⟩
  | _ => none

def ofBytes? (bytes : List UInt8) : Option Reply := (Document.ofBytes? bytes).bind ofDocument?

end Reply

end FormatPreview.Bridge
