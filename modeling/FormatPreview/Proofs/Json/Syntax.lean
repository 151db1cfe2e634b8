import FormatPreview.Proofs.Json.Document
import FormatPreview.Proofs.Json.Spelling

/-!
The grammar of documents, and that exactly its texts are read. A document has its tokens in the order
in which they are written, with commas between the items and members of a container. The machine
that reads tokens keeps nothing but what they are: the tokens it has gone through are those of the
containers that are open, up to the place that it has reached. So a document that is read has the
tokens read, and the tokens of a document lead to nothing else.
-/
namespace FormatPreview.Json.Document

/-- Induction on a document. Containers have the property if what they hold has it. -/
@[elab_as_elim]
theorem induct {motive : Document → Prop} (null : motive .null) (bool : ∀ b, motive (.bool b))
    (number : ∀ n, motive (.number n)) (text : ∀ glyphs, motive (.text glyphs))
    (list : ∀ items, (∀ d ∈ items, motive d) → motive (.list items))
    (record : ∀ members, (∀ member ∈ members, motive member.2) → motive (.record members)) :
    ∀ d, motive d
  | .null => null
  | .bool b => bool b
  | .number n => number n
  | .text glyphs => text glyphs
  | .list items => list items fun d _ => induct null bool number text list record d
  | .record members =>
    record members fun member _ => induct null bool number text list record member.2
termination_by d => sizeOf d
decreasing_by
  · have := List.sizeOf_lt_of_mem ‹d ∈ items›
    simp
    omega
  · have := List.sizeOf_lt_of_mem ‹member ∈ members›
    cases member
    simp at *
    omega

mutual

/-- The tokens of a document as they are written. -/
def tokens : Document → List Token
  | .null => [.null]
  | .bool b => [.bool b]
  | .number n => [.number n]
  | .text glyphs => [.text glyphs]
  | .list items => .openList :: (itemTokens items ++ [.closeList])
  | .record members => .openRecord :: (memberTokens members ++ [.closeRecord])

def itemTokens : List Document → List Token
  | [] => []
  | [d] => tokens d
  | d :: next :: rest => tokens d ++ .comma :: itemTokens (next :: rest)

def memberTokens : List (List Glyph × Document) → List Token
  | [] => []
  | [(key, d)] => .text key :: .colon :: tokens d
  | (key, d) :: next :: rest =>
    .text key :: .colon :: (tokens d ++ .comma :: memberTokens (next :: rest))

end

/-- The symbols are a text of the document. -/
def Written (d : Document) (symbols : List (Option Char)) : Prop := Spaced d.tokens symbols

def entryTokens (member : List Glyph × Document) : List Token :=
  .text member.1 :: .colon :: member.2.tokens

theorem itemTokens_concat (items : List Document) (d : Document) :
    itemTokens (items ++ [d]) = (items.flatMap fun item => item.tokens ++ [.comma]) ++ d.tokens := by
  induction items with
  | nil => simp [itemTokens]
  | cons item rest ih =>
    cases rest with
    | nil => simp [itemTokens]
    | cons next rest =>
      rw [List.cons_append] at ih
      simp [itemTokens, ih]

theorem memberTokens_concat (members : List (List Glyph × Document)) (last : List Glyph × Document) :
    memberTokens (members ++ [last]) =
      (members.flatMap fun member => entryTokens member ++ [.comma]) ++ entryTokens last := by
  induction members with
  | nil => simp [memberTokens, entryTokens]
  | cons member rest ih =>
    cases rest with
    | nil => simp [memberTokens, entryTokens]
    | cons next rest =>
      rw [List.cons_append] at ih
      simp [memberTokens, ih, entryTokens]

/-! What the machine has gone through. -/

/-- A list up to where its next item begins. The items are listed from the last. -/
def listTokens (items : List Document) : List Token :=
  .openList :: items.reverse.flatMap fun item => item.tokens ++ [.comma]

/-- A record up to where its next key begins. -/
def recordTokens (members : List (List Glyph × Document)) : List Token :=
  .openRecord :: members.reverse.flatMap fun member => entryTokens member ++ [.comma]

/-- The tokens of open containers, the innermost last. -/
def opened : List Frame → List Token
  | [] => []
  | .list items :: frames => opened frames ++ listTokens items
  | .record members key :: frames => opened frames ++ (recordTokens members ++ [.text key, .colon])

/-- Tokens that take the machine from its beginning to a state. -/
inductive Reached : State → List Token → Prop where
  | value (frames : List Frame) : Reached (.value frames) (opened frames)
  | firstItem (frames : List Frame) : Reached (.firstItem frames) (opened frames ++ [.openList])
  | afterItem (d : Document) (items : List Document) (frames : List Frame) :
      Reached (.afterItem (d :: items) frames) (opened (.list items :: frames) ++ d.tokens)
  | firstKey (frames : List Frame) : Reached (.firstKey frames) (opened frames ++ [.openRecord])
  | nextKey (members : List (List Glyph × Document)) (frames : List Frame) :
      Reached (.nextKey members frames) (opened frames ++ recordTokens members)
  | colon (members : List (List Glyph × Document)) (key : List Glyph) (frames : List Frame) :
      Reached (.colon members key frames)
        (opened frames ++ (recordTokens members ++ [.text key]))
  | afterMember (key : List Glyph) (d : Document) (members : List (List Glyph × Document))
      (frames : List Frame) :
      Reached (.afterMember ((key, d) :: members) frames)
        (opened (.record members key :: frames) ++ d.tokens)
  | finished (d : Document) : Reached (.finished d) d.tokens

theorem reached_fill (d : Document) (frames : List Frame) :
    Reached (.fill d frames) (opened frames ++ d.tokens) := by
  cases frames with
  | nil => exact .finished d
  | cons frame frames =>
    cases frame with
    | list items => exact .afterItem d items frames
    | record members key => exact .afterMember key d members frames

theorem reached_beginValue {frames : List Frame} {token : Token} {s : State}
    (step : State.beginValue? frames token = some s) : Reached s (opened frames ++ [token]) := by
  cases token with
  | null | bool | number | text =>
    obtain rfl := Option.some.inj step
    exact reached_fill _ frames
  | openList =>
    obtain rfl := Option.some.inj step
    exact .firstItem frames
  | openRecord =>
    obtain rfl := Option.some.inj step
    exact .firstKey frames
  | _ => cases step

theorem tokens_list (d : Document) (items : List Document) :
    (Document.list (items.reverse ++ [d])).tokens = listTokens items ++ d.tokens ++ [.closeList] := by
  rw [tokens, itemTokens_concat]
  rfl

theorem tokens_record (key : List Glyph) (d : Document) (members : List (List Glyph × Document)) :
    (Document.record (members.reverse ++ [(key, d)])).tokens =
      recordTokens members ++ [.text key, .colon] ++ d.tokens ++ [.closeRecord] := by
  rw [tokens, memberTokens_concat]
  simp [recordTokens, entryTokens]

/-- One token more. -/
theorem Reached.step {s s' : State} {done : List Token} (reached : Reached s done) {token : Token}
    (step : s.step? token = some s') : Reached s' (done ++ [token]) := by
  cases reached with
  | value frames => exact reached_beginValue step
  | firstItem frames =>
    have item : ∀ {s'}, State.beginValue? (.list [] :: frames) token = some s' →
        Reached s' (opened frames ++ [.openList] ++ [token]) := reached_beginValue
    cases token with
    | closeList =>
      obtain rfl := Option.some.inj step
      simpa [tokens, itemTokens] using reached_fill (.list []) frames
    | _ => exact item step
  | afterItem d items frames =>
    cases token with
    | comma =>
      obtain rfl := Option.some.inj step
      simpa [opened, listTokens] using Reached.value (.list (d :: items) :: frames)
    | closeList =>
      obtain rfl := Option.some.inj step
      simpa [tokens_list, opened] using reached_fill (.list (d :: items).reverse) frames
    | _ => cases step
  | firstKey frames =>
    cases token with
    | closeRecord =>
      obtain rfl := Option.some.inj step
      simpa [tokens, memberTokens] using reached_fill (.record []) frames
    | text key =>
      obtain rfl := Option.some.inj step
      simpa [recordTokens] using Reached.colon [] key frames
    | _ => cases step
  | nextKey members frames =>
    cases token with
    | text key =>
      obtain rfl := Option.some.inj step
      simpa using Reached.colon members key frames
    | _ => cases step
  | colon members key frames =>
    cases token with
    | colon =>
      obtain rfl := Option.some.inj step
      simpa [opened] using Reached.value (.record members key :: frames)
    | _ => cases step
  | afterMember key d members frames =>
    cases token with
    | comma =>
      obtain rfl := Option.some.inj step
      simpa [opened, recordTokens, entryTokens] using Reached.nextKey ((key, d) :: members) frames
    | closeRecord =>
      obtain rfl := Option.some.inj step
      simpa [tokens_record, opened] using reached_fill (.record ((key, d) :: members).reverse) frames
    | _ => cases step
  | finished d => cases step

theorem Reached.moves {s s' : State} {done more : List Token} (reached : Reached s done)
    (moves : Moves s more s') : Reached s' (done ++ more) := by
  induction more generalizing s done with
  | nil =>
    obtain rfl := Option.some.inj moves
    simpa using reached
  | cons token rest ih =>
    rw [Moves, List.foldlM_cons] at moves
    obtain ⟨next, step, further⟩ := Option.bind_eq_some_iff.1 moves
    simpa using ih (reached.step step) further

theorem eq_tokens_of_ofTokens? {ts : List Token} {d : Document} (read : ofTokens? ts = some d) :
    ts = d.tokens := by
  unfold ofTokens? at read
  split at read
  · next found moves =>
    obtain rfl := Option.some.inj read
    have reached : Reached (.finished found) ts := by
      simpa [opened] using (Reached.value []).moves moves
    cases reached
    rfl
  · cases read

/-! What the tokens of a document lead to. -/

theorem moves_items {items : List Document} (some : items ≠ [])
    (each : ∀ d ∈ items, ∀ frames, Moves (.value frames) d.tokens (.fill d frames))
    (done : List Document) (frames : List Frame) :
    Moves (.value (.list done :: frames)) (itemTokens items)
      (.afterItem (items.reverse ++ done) frames) := by
  induction items generalizing done with
  | nil => exact absurd rfl some
  | cons d rest ih =>
    obtain ⟨first, others⟩ := List.forall_mem_cons.1 each
    cases rest with
    | nil => exact first (.list done :: frames)
    | cons next rest => exact .next_item first (ih (by simp) others) done

theorem moves_members {members : List (List Glyph × Document)} (some : members ≠ [])
    (each : ∀ member ∈ members, ∀ frames,
      Moves (.value frames) member.2.tokens (.fill member.2 frames))
    (done : List (List Glyph × Document)) (frames : List Frame) :
    Moves (.nextKey done frames) (memberTokens members)
      (.afterMember (members.reverse ++ done) frames) := by
  induction members generalizing done with
  | nil => exact absurd rfl some
  | cons member rest ih =>
    obtain ⟨first, others⟩ := List.forall_mem_cons.1 each
    have one := fun done => Moves.member first member.1 done frames
    cases rest with
    | nil => exact one done
    | cons next rest => exact .next_member one (ih (by simp) others) done

theorem moves_tokens (d : Document) :
    ∀ frames, Moves (.value frames) d.tokens (.fill d frames) := by
  induction d using induct with
  | null | bool | number | text => exact fun _ => rfl
  | list items ih =>
    intro frames
    by_cases empty : items = []
    · subst empty
      exact .cons rfl (moves_one rfl)
    · exact .list (moves_items empty ih [] frames)
  | record members ih =>
    intro frames
    by_cases empty : members = []
    · subst empty
      exact .cons rfl (moves_one rfl)
    · exact .record (moves_members empty ih [] frames)

theorem ofTokens?_eq_some_iff {ts : List Token} {d : Document} :
    ofTokens? ts = some d ↔ ts = d.tokens := by
  refine ⟨eq_tokens_of_ofTokens?, ?_⟩
  rintro rfl
  have moves : d.tokens.foldlM State.step? (.value []) = some (.finished d) := moves_tokens d []
  rw [ofTokens?, moves]

/-! Texts of a document. -/

theorem separate_one (token : Token) : Separate [token] :=
  List.isChain_singleton token

theorem separate_cons {sign : Token} {after : List Token} (firm : sign.loose = false)
    (rest : Separate after) : Separate (sign :: after) :=
  List.isChain_cons.2 ⟨fun _ _ => by simp [firm], rest⟩

theorem separate_between {before after : List Token} {sign : Token} (firm : sign.loose = false)
    (first : Separate before) (second : Separate after) : Separate (before ++ sign :: after) := by
  refine List.isChain_append.2 ⟨first, separate_cons firm second, fun _ _ _ next => ?_⟩
  obtain rfl := Option.some.inj next
  simp [firm]

theorem separate_inside {opens closes : Token} {ts : List Token} (first : opens.loose = false)
    (last : closes.loose = false) (inner : Separate ts) : Separate (opens :: (ts ++ [closes])) :=
  separate_cons first (separate_between last inner .nil)

theorem separate_items {items : List Document} (each : ∀ d ∈ items, Separate d.tokens) :
    Separate (itemTokens items) := by
  induction items with
  | nil => exact .nil
  | cons d rest ih =>
    obtain ⟨first, others⟩ := List.forall_mem_cons.1 each
    cases rest with
    | nil => exact first
    | cons next rest => exact separate_between rfl first (ih others)

theorem separate_members {members : List (List Glyph × Document)}
    (each : ∀ member ∈ members, Separate member.2.tokens) : Separate (memberTokens members) := by
  induction members with
  | nil => exact .nil
  | cons member rest ih =>
    obtain ⟨first, others⟩ := List.forall_mem_cons.1 each
    cases rest with
    | nil => exact separate_cons rfl (separate_cons rfl first)
    | cons next rest =>
      exact separate_cons rfl (separate_cons rfl (separate_between rfl first (ih others)))

/-- A sign stands between any two values of a document. -/
theorem separate_tokens (d : Document) : Separate d.tokens := by
  induction d using induct with
  | null | bool | number | text => exact separate_one _
  | list items ih => exact separate_inside rfl rfl (separate_items ih)
  | record members ih => exact separate_inside rfl rfl (separate_members ih)

/-- Symbols are read as a document exactly if they are one of its texts. -/
theorem ofSymbols?_eq_some_iff {symbols : List (Option Char)} {d : Document} :
    ofSymbols? symbols = some d ↔ d.Written symbols := by
  rw [ofSymbols?, Option.bind_eq_some_iff]
  constructor
  · rintro ⟨ts, scanned, read⟩
    obtain rfl := ofTokens?_eq_some_iff.1 read
    exact spaced_of_tokens? scanned
  · intro written
    exact ⟨d.tokens, written.tokens?_eq (separate_tokens d), ofTokens?_eq_some_iff.2 rfl⟩

theorem ofBytes?_eq_some_iff {bytes : List UInt8} {d : Document} :
    ofBytes? bytes = some d ↔ d.Written (Text.symbols bytes) :=
  ofSymbols?_eq_some_iff

end FormatPreview.Json.Document
