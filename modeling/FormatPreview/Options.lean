import FormatPreview.Json.Basic
import FormatPreview.Text.Quoted

/-!
Formatting options. The few that this library acts on have fields; every other option is handed on
to the engine as it came. Options are read from JSON and written to it; whether a batch shall be
compared is read but never written. Layers of options are laid over one another key by key.
-/
namespace FormatPreview

structure Options where
  compares : Bool
  parser : Option String
  filepath : Option String
  extra : Dictionary Json

/-- What a value of the wrong type should have been. -/
inductive Expected where
  | boolean
  | text
  | options
deriving DecidableEq

def Expected.name : Expected → String
  | .boolean => "a boolean"
  | .text => "a string"
  | .options => "struct FormatOptions"

structure TypeMismatch where
  found : Json
  expected : Expected

/-- A value as messages name it. Containers go by their kind alone. -/
def Json.described : Json → String
  | .null => "null"
  | .bool b => "boolean `" ++ (if b then "true" else "false") ++ "`"
  | .number (.integer n) => "integer `" ++ toString n ++ "`"
  | .number (.float negative magnitude) =>
    "floating point `" ++ (if negative then "-" else "") ++
      (Decimal.shortest .double magnitude).pointed ++ "`"
  | .text s => "string " ++ Text.quoted s
  | .list _ => "sequence"
  | .record _ => "map"

def TypeMismatch.message (e : TypeMismatch) : String :=
  "invalid type: " ++ e.found.described ++ ", expected " ++ e.expected.name

namespace Options

def unset : Options := ⟨false, none, none, .empty⟩

instance : Inhabited Options := ⟨unset⟩

def comparing : Options := { unset with compares := true }

def withParser (o : Options) (parser : String) : Options := { o with parser := some parser }

/-- One more option for the engine, whatever its key. -/
def withExtra (o : Options) (key : String) (value : Json) : Options :=
  { o with extra := o.extra.insert key value }

/-- The options of a layer, and those of the base where the layer leaves them unset. Whether to
compare is up to the layer alone. -/
def overlay (layer base : Options) : Options where
  compares := layer.compares
  parser := layer.parser.or base.parser
  filepath := layer.filepath.or base.filepath
  extra := layer.extra.overlay base.extra

/-- The members in the order in which they are written. A key of the engine's own options that is
also one of the fields is written a second time. -/
def members (o : Options) : List (String × Json) :=
  (o.parser.map fun s => ("parser", Json.text s)).toList ++
    (o.filepath.map fun s => ("filepath", Json.text s)).toList ++ o.extra.entries

def written (o : Options) : Json := .record o.members

/-- The options as a value, with one member for each key. -/
def toJson (o : Options) : Json := .ofMembers o.members

def boolean : Json → Except TypeMismatch Bool
  | .bool b => .ok b
  | found => .error ⟨found, .boolean⟩

def text : Json → Except TypeMismatch (Option String)
  | .null => .ok none
  | .text s => .ok (some s)
  | found => .error ⟨found, .text⟩

def readMember (o : Options) (member : String × Json) : Except TypeMismatch Options :=
  match member with
  | ("diffCheck", value) => (boolean value).map fun b => { o with compares := b }
  | ("parser", value) => (text value).map fun s => { o with parser := s }
  | ("filepath", value) => (text value).map fun s => { o with filepath := s }
  | (key, value) => .ok (o.withExtra key value)

/-- The options that a value stands for. The first member of the wrong type is the error. -/
def ofJson : Json → Except TypeMismatch Options
  | .record members => members.foldlM readMember unset
  | found => .error ⟨found, .options⟩

end Options

end FormatPreview
