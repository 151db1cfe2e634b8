import Mathlib.Data.List.Permutation
import FormatPreview.Bridge.Process
import FormatPreview.Proofs.Json.Document
import FormatPreview.Proofs.Options

/-!
The bridge hands on what it is given. A request is read as the object with its parts, whatever they
hold, and a reply in any encoding comes out as the value that was put into it.
-/
namespace FormatPreview

open Json

/-! Options within a request. -/

namespace Options

theorem whole_members {levels : Nat} {o : Options}
    (each : ∀ member ∈ o.extra.entries, Whole levels member.2) {member : String × Json}
    (mem : member ∈ o.members) : Whole levels member.2 := by
  obtain ⟨key, value⟩ := member
  rcases (mem_members o key value).1 mem with ⟨_, set⟩ | ⟨_, set⟩ | set
  · obtain ⟨s, _, rfl⟩ := Option.map_eq_some_iff.1 set
    exact .text s
  · obtain ⟨s, _, rfl⟩ := Option.map_eq_some_iff.1 set
    exact .text s
  · exact each (key, value) ((o.extra.get?_eq_some_iff key value).1 set)

theorem whole_toJson {levels : Nat} {o : Options} (separate : Separate o)
    (whole : Whole levels (.record o.extra.entries)) : Whole levels o.toJson := by
  cases whole with
  | record _ each =>
    exact .record (Dictionary.ofList o.members).ordered fun member mem =>
      whole_members each ((toJson_perm_members separate).subset mem)

/-- What is written for options is a text of their value. -/
theorem encodes_written {levels : Nat} {o : Options} (separate : Separate o)
    (whole : Whole levels (.record o.extra.entries)) : Encodes o.toJson (chars o.written) := by
  cases whole with
  | record _ each =>
    have parts : ∀ part ∈ o.members.map fun m => (m.1, m.2, m.2),
        Encodes part.2.1 (chars part.2.2) :=
      List.forall_mem_map.2 fun member mem => encodes_chars (whole_members each mem)
    have same : (o.members.map fun m => (m.1, m.2, m.2)).map (fun part => (part.1, part.2.1)) =
        o.members := by simp [Function.comp_def]
    have printed := encodes_record parts (same ▸ (toJson_perm_members separate).symm)
    simpa [written, toJson, ofMembers, Function.comp_def] using printed

end Options

namespace Bridge

/-- What a request says, in key order. -/
def Request.said (package : String) : Request → Json
  | .resolveConfig path =>
    .record [("module", .text package), ("op", .text "resolveConfig"), ("path", .text path)]
  | .format content options =>
    .record [("content", .text content), ("module", .text package), ("op", .text "format"),
      ("options", options.toJson)]

/-- The reply that a value was found. -/
def success (value : Json) : Json := .record [("ok", .bool true), ("value", value)]

/-! Replies. -/

theorem flag?_of_value? {levels : Nat} {d : Document} {b : Bool}
    (means : d.value? levels = some (.bool b)) : Reply.flag? d = some b := by
  unfold Document.value? at means
  split at means
  case h_2 => simpa [Reply.flag?] using means
  all_goals first | simp at means | split at means <;> simp [ofMembers] at means

theorem add?_ok {f : Reply.Fields} {member : List Glyph × Document} {b : Bool}
    (name : glyphText? member.1 = some "ok") (flag : Reply.flag? member.2 = some b)
    (new : f.ok = none) : f.add? member = some { f with ok := some b } := by
  simp [Reply.Fields.add?, name, flag, new]

theorem add?_value {f : Reply.Fields} {member : List Glyph × Document} {value : Json}
    (name : glyphText? member.1 = some "value") (read : Reply.value? member.2 = some value)
    (new : f.value = none) : f.add? member = some { f with value := some value } := by
  simp [Reply.Fields.add?, name, read, new]

/-- The members of a success are found in either order. -/
theorem fields_of_matches {entries : List Entry} {ds : List (List Glyph × Document)} {value : Json}
    (matched : List.Forall₂ (Document.Matches (maxLevels - 1)) entries ds)
    (perm : (entries.map Entry.member).Perm [("ok", .bool true), ("value", value)]) :
    ds.foldlM Reply.Fields.add? ⟨none, none, none⟩ = some ⟨some true, some value, none⟩ := by
  have named : List.Forall₂ (fun (m : String × Json) (d : List Glyph × Document) =>
      glyphText? d.1 = some m.1 ∧ d.2.value? (maxLevels - 1) = some m.2)
      (entries.map Entry.member) ds := List.forall₂_map_left_iff.2 matched
  rcases List.perm_pair.1 perm with order | order
  all_goals
    rw [order] at named
    rcases named with _ | ⟨⟨name, read⟩, _ | ⟨⟨name', read'⟩, ⟨⟩⟩⟩
  · have first := add?_ok (f := ⟨none, none, none⟩) name (flag?_of_value? read) rfl
    have second := add?_value (f := ⟨some true, none, none⟩) name' read' rfl
    simp [first, second]
  · have first := add?_value (f := ⟨none, none, none⟩) name read rfl
    have second := add?_ok (f := ⟨none, some value, none⟩) name' (flag?_of_value? read') rfl
    simp [first, second]

theorem reply_of_carries {bytes : List UInt8} {value : Json} {levels : Nat}
    (carries : Carries bytes (success value))
    (whole : Whole levels value) (within : levels < maxLevels) :
    Reply.ofBytes? bytes = some ⟨true, value, none⟩ := by
  obtain ⟨cs, encodes, rfl⟩ := carries
  have each : ∀ member ∈ [("ok", Json.bool true), ("value", value)],
      Whole (maxLevels - 1) member.2 := by
    simp only [List.forall_mem_cons]
    exact ⟨.bool true, whole.mono (Nat.le_sub_one_of_lt within), by simp⟩
  obtain ⟨tokens, entries, ds, scans, moves, perm, matched⟩ :=
    Document.exists_reads_members encodes each
  rw [Reply.ofBytes?, Document.ofBytes?_encode scans moves, Option.bind_some, Reply.ofDocument?,
    fields_of_matches matched perm]
  rfl

theorem result_of_carries {node : String} {output : Output} {value : Json} {levels : Nat}
    (carries : Carries output.stdout (success value))
    (whole : Whole levels value) (within : levels < maxLevels) :
    output.result node = .ok value := by
  have reply := reply_of_carries carries whole within
  have answered : output.stdout.isEmpty = false := by
    cases empty : output.stdout with
    | nil =>
      rw [empty] at reply
      simp [Reply.ofBytes?, Document.ofBytes?, Document.ofSymbols?, Text.symbols, Text.symbolsFrom,
        Document.ofTokens?, tokens?] at reply
    | cons => rfl
  rw [Output.result, answered, reply]
  rfl

theorem ask_of_carries (node : String) {package : String} {respond : List UInt8 → Exchange}
    {request : Request} {out : Output} {value : Json} {levels : Nat}
    (ended : respond (request.bytes package) = .ended out)
    (carries : Carries out.stdout (success value)) (whole : Whole levels value)
    (within : levels < maxLevels) :
    ask node package (some respond) request = .ok value := by
  rw [ask, ended, Exchange.result, result_of_carries carries whole within]

theorem readConfig_of_ok {path : String} {value : Json} {o : Options}
    (read : Options.ofJson value = .ok o) : readConfig path value = .ok (some o) := by
  cases value with
  | null => cases read
  | _ => simp [readConfig, read]

/-! Requests. -/

theorem carries_resolveConfig (package path : String) :
    Carries ((Request.resolveConfig path).bytes package)
      ((Request.resolveConfig path).said package) := by
  have each : ∀ part ∈ [("op", Json.text "resolveConfig", Json.text "resolveConfig"),
      ("module", .text package, .text package), ("path", .text path, .text path)],
      Encodes part.2.1 (chars part.2.2) := by
    simp [chars, encodes_quoted]
  exact carries_print (encodes_record each (.swap ..))

theorem carries_format (package content : String) {levels : Nat} {o : Options}
    (separate : o.Separate) (whole : Whole levels (.record o.extra.entries)) :
    Carries ((Request.format content o).bytes package)
      ((Request.format content o).said package) := by
  have options := Options.encodes_written separate whole
  have each : ∀ part ∈ [("op", Json.text "format", Json.text "format"),
      ("module", .text package, .text package), ("content", .text content, .text content),
      ("options", o.toJson, o.written)], Encodes part.2.1 (chars part.2.2) := by
    simpa [chars, encodes_quoted] using options
  have perm := List.reverse_perm [("content", Json.text content), ("module", .text package),
    ("op", .text "format")]
  exact carries_print (encodes_record each (perm.append_right [("options", o.toJson)]))

theorem whole_resolveConfig (package path : String) {levels : Nat} :
    Whole (levels + 1) ((Request.resolveConfig path).said package) := by
  have ordered : ["module", "op", "path"].Pairwise (· < ·) := by decide
  refine .record (List.pairwise_map.1 ordered) ?_
  simp [Whole.text]

theorem whole_format (package content : String) {levels : Nat} {o : Options}
    (separate : o.Separate) (whole : Whole levels (.record o.extra.entries)) :
    Whole (levels + 1) ((Request.format content o).said package) := by
  have ordered : ["content", "module", "op", "options"].Pairwise (· < ·) := by decide
  refine .record (List.pairwise_map.1 ordered) ?_
  simp [Whole.text, Options.whole_toJson separate whole]

/-- The process hears what the engine was asked, and the engine answers what the process said,
however it spelled it, however it ended and whatever else it left behind. -/
theorem requests_and_replies_kept (node package : String) :
    (∀ path, let r : Request := .resolveConfig path
      Carries (r.bytes package) (r.said package) ∧
        Json.ofBytes? (r.bytes package) = some (r.said package)) ∧
    (∀ levels content (o : Options), o.Separate → Whole levels (.record o.extra.entries) →
      let r : Request := .format content o
      Carries (r.bytes package) (r.said package) ∧
        (Document.ofBytes? (r.bytes package)).bind (Document.value? (levels + 1)) =
          some (r.said package) ∧
        Options.ofJson o.toJson = .ok { o with compares := false }) ∧
    ∀ respond : List UInt8 → Exchange,
      (∀ content o s out, respond ((Request.format content o).bytes package) = .ended out →
        Carries out.stdout (success (.text s)) →
        (engine node package (some respond)).format content o = ⟨0, .done s⟩) ∧
      (∀ path value o levels out, Options.ofJson value = .ok o → Whole levels value →
        levels < maxLevels →
        respond ((Request.resolveConfig path).bytes package) = .ended out →
        Carries out.stdout (success value) →
        (engine node package (some respond)).configuration path = ⟨0, .done (some o)⟩) ∧
      ∀ path out, respond ((Request.resolveConfig path).bytes package) = .ended out →
        Carries out.stdout (success .null) →
        (engine node package (some respond)).configuration path = ⟨0, .done none⟩ := by
  refine ⟨fun path => ?_, fun levels content o separate whole => ?_, fun respond => ⟨?_, ?_, ?_⟩⟩
  · have carries := carries_resolveConfig package path
    exact ⟨carries, read_of_carries carries (whole_resolveConfig package path)⟩
  · have carries := carries_format package content separate whole
    exact ⟨carries, read_of_carries carries (whole_format package content separate whole),
      Options.ofJson_toJson separate⟩
  · intro content o s out ended carries
    have asked := ask_of_carries node ended carries (.text s) (by decide : 0 < maxLevels)
    simp [engine, format, asked, Except.bind, readText, immediately]
  · intro path value o levels out read whole within ended carries
    have asked := ask_of_carries node ended carries whole within
    simp [engine, resolveConfig, asked, Except.bind, readConfig_of_ok read, immediately]
  · intro path out ended carries
    have asked := ask_of_carries node ended carries .null (by decide : 0 < maxLevels)
    simp [engine, resolveConfig, asked, Except.bind, readConfig, immediately]

/-- A success with the value first and blanks around. -/
def valueFirst (text : List Char) : List Char :=
  [' '] ++ '\x7b' :: ([] ++ [','].intercalate
    [quoted "value" ++ ':' :: text, quoted "ok" ++ ':' :: "true".toList] ++ ['\x7d']) ++ ['\n']

theorem encodes_valueFirst {value : Json} {text : List Char} (encodes : Encodes value text) :
    Encodes (success value) (valueFirst text) := by
  have keys : ∀ e ∈ [Entry.mk "value" value (quoted "value") text,
      ⟨"ok", .bool true, quoted "ok", "true".toList⟩], Encodes (.text e.key) e.keyText := by
    simp [encodes_quoted]
  have values : ∀ e ∈ [Entry.mk "value" value (quoted "value") text,
      ⟨"ok", .bool true, quoted "ok", "true".toList⟩], Encodes e.value e.valueText :=
    List.forall_mem_cons.2 ⟨encodes, List.forall_mem_singleton.2 (.bool true)⟩
  exact .padded (.record blank_nil keys values (.swap ..)) (by simp [Blank]) (by simp [Blank])

/-- What a process leaves behind that answers so, complains and fails. -/
def answer (text : List Char) : Output :=
  ⟨Text.encode (String.ofList (valueFirst text)), Text.encode "warning", .code 1⟩

/-- A process that answers so whatever it hears. -/
def answering (text : List Char) : List UInt8 → Exchange := fun _ => .ended (answer text)

theorem carries_answer {value : Json} {text : List Char} (encodes : Encodes value text) :
    Carries (answer text).stdout (success value) :=
  ⟨_, encodes_valueFirst encodes, rfl⟩

theorem requests_and_replies_kept_escaped :
    let nested : Json := .list [.record [("files", .text "*.md")], .ofNat 3]
    let o : Options := ⟨true, some "babel", none,
      ⟨[("overrides", nested), ("semi", .bool false)], by decide⟩⟩
    let r : Request := .format "\"\\\n😀" o
    let found : Json := .record [("parser", .null), ("tabWidth", .number (.integer (-4)))]
    let o' : Options := ⟨false, none, none, ⟨[("tabWidth", .number (.integer (-4)))], by decide⟩⟩
    let face := ['"', '\\', 'u', 'D', '8', '3', 'D', '\\', 'u', 'd', 'E', '0', '0', '"']
    Json.ofBytes? ((Request.resolveConfig "a.js").bytes "prettier") =
        some ((Request.resolveConfig "a.js").said "prettier") ∧
      o.Separate ∧ Whole 3 (.record o.extra.entries) ∧
      (Document.ofBytes? (r.bytes "prettier")).bind (Document.value? 4) = some (r.said "prettier") ∧
      Encodes (.text "😀") face ∧
      (engine "node" "prettier" (some (answering face))).format "\"\\\n😀" o = ⟨0, .done "😀"⟩ ∧
      Options.ofJson found = .ok o' ∧ Whole 1 found ∧ 1 < maxLevels ∧
      (engine "node" "prettier" (some (answering (chars found)))).configuration "a.js" =
        ⟨0, .done (some o')⟩ ∧
      (engine "node" "prettier" (some (answering "null".toList))).configuration "a.js" =
        ⟨0, .done none⟩ := by
  intro nested o r found o' face
  obtain ⟨asks, formats, replies⟩ := requests_and_replies_kept "node" "prettier"
  have separate : o.Separate := by
    intro key field
    simp only [Options.fieldKeys, List.mem_cons, List.not_mem_nil, or_false] at field
    rcases field with rfl | rfl | rfl <;> rfl
  have whole : Whole 3 (.record o.extra.entries) := by
    have record : Whole 1 (.record [("files", .text "*.md")]) :=
      .record (by decide) (by simp [Whole.text])
    have three : Fits 3 := by decide
    have list : Whole 2 nested := .list (by simp [record, Json.ofNat, Whole.integer three])
    exact .record o.extra.ordered (by simp [o, list, Whole.bool])
  have spelled : List.Forall₂ Spells "😀".toList
      [['\\', 'u', 'D', '8', '3', 'D', '\\', 'u', 'd', 'E', '0', '0']] := by
    have high : UnitDigits (0xD800 + ('😀'.toNat - 0x10000) / 0x400) ['D', '8', '3', 'D'] := by
      decide
    have low : UnitDigits (0xDC00 + ('😀'.toNat - 0x10000) % 0x400) ['d', 'E', '0', '0'] := by
      decide
    exact .cons (.pair (by decide) high low) .nil
  have smile : Encodes (.text "😀") face := .text spelled
  have wholeFound : Whole 1 found := by
    have width : Fits (-4) := by decide
    exact .record (by decide) (by simp [Whole.null, Whole.integer width])
  have read : Options.ofJson found = .ok o' := rfl
  exact ⟨(asks "a.js").2, separate, whole, (formats 3 _ o separate whole).2.1, smile,
    (replies (answering face)).1 _ o _ _ rfl (carries_answer smile), read, wholeFound, by decide,
    (replies (answering (chars found))).2.1 _ found o' 1 _ read wholeFound (by decide) rfl
      (carries_answer (encodes_chars wholeFound)),
    (replies (answering "null".toList)).2.2 _ _ rfl (carries_answer .null)⟩

end Bridge

end FormatPreview
