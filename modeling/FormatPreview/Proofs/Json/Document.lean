import FormatPreview.Json.Document
import FormatPreview.Proofs.Json.Token
import FormatPreview.Proofs.Text.Utf8

/-!
Reading undoes every encoding. The tokens of a value take the machine from where a value is called
for to where it is filled in, whatever containers are open, so the tokens of items and members can be
put together; the document that is filled in has the value that was encoded.
-/
namespace FormatPreview.Json.Document

/-- The tokens take the machine from one state to another. -/
def Moves (s : State) (tokens : List Token) (s' : State) : Prop :=
  tokens.foldlM State.step? s = some s'

variable {s s' s'' : State} {tokens tokens' : List Token}

theorem Moves.cons {token : Token} (step : s.step? token = some s') (moves : Moves s' tokens s'') :
    Moves s (token :: tokens) s'' := by
  rw [Moves, List.foldlM_cons, step]
  exact moves

theorem moves_one {token : Token} (step : s.step? token = some s') : Moves s [token] s' :=
  .cons step rfl

theorem Moves.append (first : Moves s tokens s') (second : Moves s' tokens' s'') :
    Moves s (tokens ++ tokens') s'' := by
  rw [Moves, List.foldlM_append, first]
  exact second

/-- The first item of a list is read as any other. -/
theorem Moves.first_item {frames : List Frame} {items : List Document}
    (moves : Moves (.value (.list [] :: frames)) tokens (.afterItem items frames)) :
    Moves (.firstItem frames) tokens (.afterItem items frames) := by
  cases tokens with
  | nil => cases moves
  | cons token rest => cases token <;> first | exact moves | cases moves

/-- The first key of a record is read as any other. -/
theorem Moves.first_key {frames : List Frame} {members : List (List Glyph × Document)}
    (moves : Moves (.nextKey [] frames) tokens (.afterMember members frames)) :
    Moves (.firstKey frames) tokens (.afterMember members frames) := by
  cases tokens with
  | nil => cases moves
  | cons token rest => cases token <;> first | exact moves | cases moves

/-- An item and those after it. -/
theorem Moves.next_item {d : Document} {ds : List Document} {frames : List Frame}
    (first : ∀ frames, Moves (.value frames) tokens (.fill d frames))
    (more : ∀ done, Moves (.value (.list done :: frames)) tokens'
      (.afterItem (ds.reverse ++ done) frames)) (done : List Document) :
    Moves (.value (.list done :: frames)) (tokens ++ .comma :: tokens')
      (.afterItem ((d :: ds).reverse ++ done) frames) := by
  have further := more (d :: done)
  rw [List.reverse_cons, List.append_assoc]
  exact (first _).append (.cons rfl further)

theorem Moves.member {d : Document} (value : ∀ frames, Moves (.value frames) tokens (.fill d frames))
    (key : List Glyph) (done : List (List Glyph × Document)) (frames : List Frame) :
    Moves (.nextKey done frames) (.text key :: .colon :: tokens)
      (.afterMember ((key, d) :: done) frames) :=
  .cons rfl (.cons rfl (value _))

/-- A member and those after it. -/
theorem Moves.next_member {member : List Glyph × Document} {members : List (List Glyph × Document)}
    {frames : List Frame}
    (first : ∀ done, Moves (.nextKey done frames) tokens (.afterMember (member :: done) frames))
    (more : ∀ done, Moves (.nextKey done frames) tokens'
      (.afterMember (members.reverse ++ done) frames)) (done : List (List Glyph × Document)) :
    Moves (.nextKey done frames) (tokens ++ .comma :: tokens')
      (.afterMember ((member :: members).reverse ++ done) frames) := by
  have further := more (member :: done)
  rw [List.reverse_cons, List.append_assoc]
  exact (first done).append (.cons rfl further)

/-- Items between brackets. -/
theorem Moves.list {ds : List Document} {frames : List Frame}
    (items : Moves (.value (.list [] :: frames)) tokens (.afterItem (ds.reverse ++ []) frames)) :
    Moves (.value frames) (.openList :: (tokens ++ [.closeList])) (.fill (.list ds) frames) := by
  rw [List.append_nil] at items
  refine .cons rfl (items.first_item.append (moves_one ?_))
  rw [State.step?, List.reverse_reverse]

/-- Members between braces. -/
theorem Moves.record {ds : List (List Glyph × Document)} {frames : List Frame}
    (members : Moves (.nextKey [] frames) tokens (.afterMember (ds.reverse ++ []) frames)) :
    Moves (.value frames) (.openRecord :: (tokens ++ [.closeRecord])) (.fill (.record ds) frames) := by
  rw [List.append_nil] at members
  refine .cons rfl (members.first_key.append (moves_one ?_))
  rw [State.step?, List.reverse_reverse]

/-- A text has tokens that are read as a document where a value is called for, and the document has
the value within so many levels. -/
structure Reads (levels : Nat) (cs : List Char) (j : Json) (tokens : List Token) (d : Document) :
    Prop where
  scans : ScansApart cs tokens
  moves : ∀ frames, Moves (.value frames) tokens (.fill d frames)
  means : d.value? levels = some j

/-- The items of a list, from where the first is called for to the end of the last. -/
structure ReadsItems (levels : Nat) (items : List (Json × List Char)) (tokens : List Token)
    (ds : List Document) : Prop where
  scans : ScansApart ([','].intercalate (items.map Prod.snd)) tokens
  moves : ∀ done frames,
    Moves (.value (.list done :: frames)) tokens (.afterItem (ds.reverse ++ done) frames)
  means : itemValues? levels ds = some (items.map Prod.fst)

/-- A member as read has the key and the value of the entry. -/
def Matches (levels : Nat) (e : Entry) (member : List Glyph × Document) : Prop :=
  glyphText? member.1 = some e.key ∧ member.2.value? levels = some e.value

/-- The members of a record, from where the first key is called for to the end of the last. -/
structure ReadsMembers (levels : Nat) (entries : List Entry) (tokens : List Token)
    (members : List (List Glyph × Document)) : Prop where
  scans : ScansApart ([','].intercalate (entries.map Entry.text)) tokens
  moves : ∀ done frames,
    Moves (.nextKey done frames) tokens (.afterMember (members.reverse ++ done) frames)
  means : List.Forall₂ (Matches levels) entries members

section Containers

variable {levels : Nat}

theorem ReadsItems.one {item : Json × List Char} {d : Document}
    (reads : Reads levels item.2 item.1 tokens d) : ReadsItems levels [item] tokens [d] := by
  constructor
  · simpa using reads.scans
  · exact fun done frames => reads.moves (.list done :: frames)
  · simp [itemValues?, reads.means]

theorem ReadsItems.cons {item next : Json × List Char} {rest : List (Json × List Char)}
    {d : Document} {ds : List Document} (reads : Reads levels item.2 item.1 tokens d)
    (more : ReadsItems levels (next :: rest) tokens' ds) :
    ReadsItems levels (item :: next :: rest) (tokens ++ .comma :: tokens') (d :: ds) := by
  constructor
  · simpa using reads.scans.between rfl more.scans
  · exact fun done frames => .next_item reads.moves (more.moves · frames) done
  · simp [itemValues?, reads.means, more.means]

theorem exists_readsItems {items : List (Json × List Char)} (some : items ≠ [])
    (each : ∀ item ∈ items, ∃ tokens d, Reads levels item.2 item.1 tokens d) :
    ∃ tokens ds, ReadsItems levels items tokens ds := by
  induction items with
  | nil => exact absurd rfl some
  | cons item rest ih =>
    obtain ⟨⟨tokens, d, reads⟩, others⟩ := List.forall_mem_cons.1 each
    cases rest with
    | nil => exact ⟨_, _, .one reads⟩
    | cons next rest =>
      obtain ⟨tokens', ds, more⟩ := ih (by simp) others
      exact ⟨_, _, .cons reads more⟩

/-- An entry whose key and value can be read. -/
structure ReadsEntry (levels : Nat) (e : Entry) (glyphs : List Glyph) (tokens : List Token)
    (d : Document) : Prop where
  key : ScansApart e.keyText [.text glyphs]
  name : glyphText? glyphs = some e.key
  value : Reads levels e.valueText e.value tokens d

theorem ReadsEntry.moves {e : Entry} {glyphs : List Glyph} {d : Document}
    (reads : ReadsEntry levels e glyphs tokens d) (done : List (List Glyph × Document))
    (frames : List Frame) :
    Moves (.nextKey done frames) (.text glyphs :: .colon :: tokens)
      (.afterMember ((glyphs, d) :: done) frames) :=
  .member reads.value.moves glyphs done frames

theorem ReadsEntry.scans {e : Entry} {glyphs : List Glyph} {d : Document}
    (reads : ReadsEntry levels e glyphs tokens d) :
    ScansApart e.text (.text glyphs :: .colon :: tokens) :=
  reads.key.between rfl reads.value.scans

theorem ReadsMembers.one {e : Entry} {glyphs : List Glyph} {d : Document}
    (reads : ReadsEntry levels e glyphs tokens d) :
    ReadsMembers levels [e] (.text glyphs :: .colon :: tokens) [(glyphs, d)] := by
  constructor
  · simpa using reads.scans
  · exact fun done frames => reads.moves done frames
  · exact .cons ⟨reads.name, reads.value.means⟩ .nil

theorem ReadsMembers.cons {e next : Entry} {rest : List Entry} {glyphs : List Glyph} {d : Document}
    {members : List (List Glyph × Document)} (reads : ReadsEntry levels e glyphs tokens d)
    (more : ReadsMembers levels (next :: rest) tokens' members) :
    ReadsMembers levels (e :: next :: rest)
      ((.text glyphs :: .colon :: tokens) ++ .comma :: tokens') ((glyphs, d) :: members) := by
  constructor
  · simpa using reads.scans.between rfl more.scans
  · exact fun done frames => .next_member (reads.moves · frames) (more.moves · frames) done
  · exact .cons ⟨reads.name, reads.value.means⟩ more.means

theorem exists_readsMembers {entries : List Entry} (some : entries ≠ [])
    (each : ∀ e ∈ entries, ∃ glyphs tokens d, ReadsEntry levels e glyphs tokens d) :
    ∃ tokens members, ReadsMembers levels entries tokens members := by
  induction entries with
  | nil => exact absurd rfl some
  | cons e rest ih =>
    obtain ⟨⟨glyphs, tokens, d, reads⟩, others⟩ := List.forall_mem_cons.1 each
    cases rest with
    | nil => exact ⟨_, _, .one reads⟩
    | cons next rest =>
      obtain ⟨tokens', members, more⟩ := ih (by simp) others
      exact ⟨_, _, .cons reads more⟩

theorem memberValues?_of_matches {entries : List Entry} {members : List (List Glyph × Document)}
    (matched : List.Forall₂ (Matches levels) entries members) :
    memberValues? levels members = some (entries.map Entry.member) := by
  induction matched with
  | nil => rfl
  | cons first _ ih => simp [memberValues?, first.1, first.2, ih, Entry.member]

/-- The members mean the record that has them in key order. -/
theorem value?_of_matches {entries : List Entry} {ds : List (List Glyph × Document)}
    (matched : List.Forall₂ (Matches levels) entries ds) {members : List (String × Json)}
    (perm : (entries.map Entry.member).Perm members)
    (ordered : members.Pairwise fun a b => a.1 < b.1) :
    (Document.record ds).value? (levels + 1) = some (.record members) := by
  rw [value?, memberValues?_of_matches matched, Option.map_some, ofMembers,
    Dictionary.ofList_perm ⟨members, ordered⟩ perm]

/-- Items between brackets, with blanks at the front. -/
theorem exists_reads_list {items : List (Json × List Char)} {gap : List Char} (blank : Blank gap)
    (each : ∀ item ∈ items, ∃ tokens d, Reads levels item.2 item.1 tokens d) :
    ∃ tokens d, Reads (levels + 1)
      ('[' :: (gap ++ [','].intercalate (items.map Prod.snd) ++ [']'])) (.list (items.map Prod.fst))
      tokens d := by
  by_cases some : items = []
  · subst some
    refine ⟨_, .list [], (scans_nil.apart.inside rfl rfl blank).apart, fun frames => ?_, rfl⟩
    exact .cons rfl (moves_one rfl)
  · obtain ⟨tokens, ds, reads⟩ := exists_readsItems some each
    refine ⟨_, .list ds, (reads.scans.inside rfl rfl blank).apart, fun frames => ?_, ?_⟩
    · exact .list (reads.moves [] frames)
    · rw [value?, reads.means, Option.map_some]

/-- Members between braces, with blanks at the front. -/
theorem exists_reads_record {entries : List Entry} {gap : List Char} (blank : Blank gap)
    (each : ∀ e ∈ entries, ∃ glyphs tokens d, ReadsEntry levels e glyphs tokens d) :
    ∃ tokens members,
      ScansApart ('\x7b' :: (gap ++ [','].intercalate (entries.map Entry.text) ++ ['\x7d'])) tokens ∧
      (∀ frames, Moves (.value frames) tokens (.fill (.record members) frames)) ∧
      List.Forall₂ (Matches levels) entries members := by
  by_cases some : entries = []
  · subst some
    refine ⟨_, [], (scans_nil.apart.inside rfl rfl blank).apart, fun frames => ?_, .nil⟩
    exact .cons rfl (moves_one rfl)
  · obtain ⟨tokens, members, reads⟩ := exists_readsMembers some each
    refine ⟨_, members, (reads.scans.inside rfl rfl blank).apart, fun frames => ?_, reads.means⟩
    exact .record (reads.moves [] frames)

theorem Reads.padded {cs before after : List Char} {j : Json} {d : Document}
    (reads : Reads levels cs j tokens d) (blankBefore : Blank before) (blankAfter : Blank after) :
    Reads levels (before ++ cs ++ after) j tokens d where
  scans := reads.scans.padded blankBefore blankAfter
  moves := reads.moves
  means := reads.means

end Containers

/-- A key in any spelling is one token. -/
theorem exists_key {s : String} {cs : List Char} (encodes : Encodes (.text s) cs) :
    ∃ glyphs, ScansApart cs [.text glyphs] ∧ glyphText? glyphs = some s := by
  generalize key : Json.text s = j at encodes
  induction encodes with
  | text spelled =>
    obtain rfl := Json.text.inj key
    obtain ⟨glyphs, means, scans⟩ := scans_text spelled
    exact ⟨glyphs, scans.apart, means⟩
  | padded _ blankBefore blankAfter ih =>
    obtain ⟨glyphs, scans, means⟩ := ih key
    exact ⟨glyphs, scans.padded blankBefore blankAfter, means⟩
  | _ => cases key

theorem exists_readsEntry {levels : Nat} {e : Entry} (key : Encodes (.text e.key) e.keyText)
    (value : ∃ tokens d, Reads levels e.valueText e.value tokens d) :
    ∃ glyphs tokens d, ReadsEntry levels e glyphs tokens d := by
  obtain ⟨glyphs, scans, name⟩ := exists_key key
  obtain ⟨tokens, d, reads⟩ := value
  exact ⟨glyphs, tokens, d, scans, name, reads⟩

theorem exists_reads {j : Json} {cs : List Char} (encodes : Encodes j cs) {levels : Nat}
    (whole : Whole levels j) : ∃ tokens d, Reads levels cs j tokens d := by
  induction encodes generalizing levels with
  | null => exact ⟨[.null], .null, scansApart_word rfl, fun _ => rfl, rfl⟩
  | bool b => cases b <;> exact ⟨[.bool _], .bool _, scansApart_word rfl, fun _ => rfl, rfl⟩
  | integer n =>
    cases whole with
    | integer fits =>
      obtain ⟨numeral, written, means⟩ := exists_numeral fits
      exact ⟨[.number numeral], .number numeral, scansApart_numeral written, fun _ => rfl,
        by rw [value?, means, Option.map_some]⟩
  | text spelled =>
    obtain ⟨glyphs, means, scans⟩ := scans_text spelled
    exact ⟨[.text glyphs], .text glyphs, scans.apart, fun _ => rfl,
      by rw [value?, means, Option.map_some]⟩
  | list blank each ih =>
    cases whole with
    | list wholes =>
      exact exists_reads_list blank fun item mem =>
        ih item mem (wholes item.1 (List.mem_map_of_mem mem))
  | record blank keys values perm _ ih =>
    cases whole with
    | record ordered wholes =>
      have entries : ∀ e ∈ _, ∃ glyphs tokens d, ReadsEntry _ e glyphs tokens d := fun e mem =>
        exists_readsEntry (keys e mem)
          (ih e mem (wholes e.member (perm.subset (List.mem_map_of_mem mem))))
      obtain ⟨tokens, ds, scans, moves, matched⟩ := exists_reads_record blank entries
      exact ⟨tokens, .record ds, scans, moves, value?_of_matches matched perm ordered⟩
  | padded value blankBefore blankAfter ih =>
    obtain ⟨tokens, d, reads⟩ := ih whole
    exact ⟨tokens, d, reads.padded blankBefore blankAfter⟩

/-- A record in any encoding is read as members that match its own, in some order. -/
theorem exists_reads_members {members : List (String × Json)} {cs : List Char}
    (encodes : Encodes (.record members) cs) {levels : Nat}
    (each : ∀ member ∈ members, Whole levels member.2) :
    ∃ tokens entries ds, ScansApart cs tokens ∧
      (∀ frames, Moves (.value frames) tokens (.fill (.record ds) frames)) ∧
      (entries.map Entry.member).Perm members ∧ List.Forall₂ (Matches levels) entries ds := by
  generalize same : Json.record members = j at encodes
  induction encodes with
  | @record entries _ _ blank keys values perm =>
    obtain rfl := Json.record.inj same
    obtain ⟨tokens, ds, scans, moves, matched⟩ := exists_reads_record blank fun e mem =>
      exists_readsEntry (keys e mem)
        (exists_reads (values e mem) (each e.member (perm.subset (List.mem_map_of_mem mem))))
    exact ⟨tokens, entries, ds, scans, moves, perm, matched⟩
  | padded _ blankBefore blankAfter ih =>
    obtain ⟨tokens, entries, ds, scans, moves, matched⟩ := ih same
    exact ⟨tokens, entries, ds, scans.padded blankBefore blankAfter, moves, matched⟩
  | _ => cases same

theorem ofBytes?_encode {cs : List Char} {d : Document} (scans : ScansApart cs tokens)
    (moves : ∀ frames, Moves (.value frames) tokens (.fill d frames)) :
    ofBytes? (Text.encode (String.ofList cs)) = some d := by
  have all : tokens? (cs.map some) = some tokens := by
    simpa [tokens?] using scans [] apart_nil
  have done : tokens.foldlM State.step? (.value []) = some (.finished d) := moves []
  rw [ofBytes?, Text.symbols_encode, String.toList_ofList, ofSymbols?, all, Option.bind_some,
    ofTokens?, done]

end Document

/-- The bytes are a text of the value. -/
def Carries (bytes : List UInt8) (j : Json) : Prop :=
  ∃ cs, Encodes j cs ∧ bytes = Text.encode (String.ofList cs)

theorem carries_print {j shown : Json} (encodes : Encodes j (chars shown)) :
    Carries (Text.encode shown.print) j :=
  ⟨_, encodes, rfl⟩

/-- Bytes that carry a value are read as it, within as many levels as it has. -/
theorem read_of_carries {bytes : List UInt8} {j : Json} (carries : Carries bytes j) {levels : Nat}
    (whole : Whole levels j) :
    (Document.ofBytes? bytes).bind (Document.value? levels) = some j := by
  obtain ⟨cs, encodes, rfl⟩ := carries
  obtain ⟨tokens, d, reads⟩ := Document.exists_reads encodes whole
  rw [Document.ofBytes?_encode reads.scans reads.moves, Option.bind_some, reads.means]

end FormatPreview.Json
