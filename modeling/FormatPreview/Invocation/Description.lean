import FormatPreview.Bridge.Replies
import FormatPreview.Invocation
import FormatPreview.Json.Document

/-!
Invocations described in JSON: a record of the variables, of the files below the working directory,
and of the programs that can be started. A file is a text, or `false` where it cannot be read; a directory
is `null`, or a record that says whether it can be listed and entered; any other entry is an empty
list. A program is a list of replies, each with a mark, an output, an error output and an exit code.
Whatever is missing, or of another type, counts as empty.
-/
namespace FormatPreview

/-- The place that the names of a path lead to from a directory on. -/
def Place.below (start : Place) (path : String) : Place :=
  ((Path.segments path.toList).filter (· ≠ [])).foldl
    (fun place name => String.ofList name :: place) start

namespace Invocation

def members (description : Json) (key : String) : List (String × Json) :=
  match description.member? key with
  | some (.record members) => members
  | _ => []

def textMember (description : Json) (key : String) : String :=
  match description.member? key with
  | some (.text text) => text
  | _ => ""

def flagMember (description : Json) (key : String) : Bool :=
  match description.member? key with
  | some (.bool flag) => flag
  | _ => false

def entryOf? (content : Json) : Option Entry :=
  match content with
  | .text text => some (.file (some (Text.encode text)))
  | .bool false => some (.file none)
  | .null => some (.directory .all)
  | .record _ => some (.directory ⟨flagMember content "listed", flagMember content "entered"⟩)
  | .list [] => some .other
  | _ => none

def markedOutput (reply : Json) : Bridge.MarkedOutput :=
  { mark := Text.encode (textMember reply "mark")
    output := {
      stdout := Text.encode (textMember reply "output")
      stderr := Text.encode (textMember reply "errors")
      status := .code (match reply.member? "exit" with
        | some (.number (.integer n)) => n.toNat
        | _ => 0) } }

def program? (programs : List (String × Json)) (node : String) : Bridge.Program :=
  match programs.lookup node with
  | some (.list replies) => Bridge.replying (replies.map markedOutput)
  | _ => none

/-- The invocation with the words of a command line and what a description says. -/
def described (words : List String) (description : Json) : Invocation where
  words := words.map Text.encode
  environment := .ofList ((members description "variables").filterMap fun (name, value) =>
    match value with
    | .text value => some (name, value)
    | _ => none)
  tree := .ofList ((members description "files").filterMap fun (path, content) =>
    (entryOf? content).map fun e => (Place.below [] path, e))
  place := []
  programs := program? (members description "programs")

end Invocation

end FormatPreview
