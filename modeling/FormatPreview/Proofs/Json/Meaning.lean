import FormatPreview.Proofs.Json.Syntax

/-!
What documents mean. A string means the characters of its signs, where UTF-16 units are taken one by
one or in pairs; a document means a value if every string and numeral in it means something and
its containers are not too many inside one another.
-/
namespace FormatPreview.Json

/-- The signs of a string mean these characters. A unit outside the surrogates is a character, and so
are a high surrogate and a low one after it. -/
inductive Mean : List Glyph → List Char → Prop where
  | nil : Mean [] []
  | char {c : Char} {glyphs : List Glyph} {cs : List Char} (more : Mean glyphs cs) :
      Mean (.char c :: glyphs) (c :: cs)
  | unit {code : Nat} {glyphs : List Glyph} {cs : List Char}
      (single : code < 0xD800 ∨ 0xE000 ≤ code) (more : Mean glyphs cs) :
      Mean (.unit code :: glyphs) (Char.ofNat code :: cs)
  | pair {high low : Nat} {glyphs : List Glyph} {cs : List Char}
      (first : 0xD800 ≤ high ∧ high < 0xDC00) (second : 0xDC00 ≤ low ∧ low < 0xE000)
      (more : Mean glyphs cs) :
      Mean (.unit high :: .unit low :: glyphs)
        (Char.ofNat (0x10000 + (high - 0xD800) * 0x400 + (low - 0xDC00)) :: cs)

theorem mean_of_glyphChars? {glyphs : List Glyph} {cs : List Char}
    (read : glyphChars? glyphs = some cs) : Mean glyphs cs := by
  fun_induction glyphChars? glyphs generalizing cs with
  | case1 =>
    obtain rfl := Option.some.inj read
    exact .nil
  | case2 c rest ih =>
    obtain ⟨more, there, rfl⟩ := Option.map_eq_some_iff.1 read
    exact .char (ih there)
  | case4 high low rest first second ih =>
    obtain ⟨more, there, rfl⟩ := Option.map_eq_some_iff.1 read
    exact .pair first second (ih there)
  | case7 high low rest first second ih =>
    obtain ⟨more, there, rfl⟩ := Option.map_eq_some_iff.1 read
    exact .unit (by omega) (ih there)
  | case9 code rest _ single ih =>
    obtain ⟨more, there, rfl⟩ := Option.map_eq_some_iff.1 read
    exact .unit (by omega) (ih there)
  | _ => cases read

theorem glyphChars?_of_mean {glyphs : List Glyph} {cs : List Char} (mean : Mean glyphs cs) :
    glyphChars? glyphs = some cs := by
  induction mean with
  | nil => rfl
  | char _ ih => rw [glyphChars?, ih, Option.map_some]
  | unit single _ ih => rw [glyphChars?_single single, ih, Option.map_some]
  | pair first second _ ih => rw [glyphChars?, if_pos first, if_pos second, ih, Option.map_some]

theorem glyphText?_eq_some_iff {glyphs : List Glyph} {s : String} :
    glyphText? glyphs = some s ↔ Mean glyphs s.toList := by
  rw [glyphText?, Option.map_eq_some_iff]
  constructor
  · rintro ⟨cs, read, rfl⟩
    simpa using mean_of_glyphChars? read
  · intro mean
    exact ⟨s.toList, glyphChars?_of_mean mean, String.ofList_toList⟩

namespace Document

/-- A document means a value to a reader that enters at most so many containers inside one another.
Of members with one key the last counts. -/
inductive Means : Nat → Document → Json → Prop where
  | null {levels : Nat} : Means levels .null .null
  | bool {levels : Nat} (b : Bool) : Means levels (.bool b) (.bool b)
  | number {levels : Nat} {numeral : Numeral} {n : Number} (h : numeral.value? = some n) :
      Means levels (.number numeral) (.number n)
  | text {levels : Nat} {glyphs : List Glyph} {s : String} (h : Mean glyphs s.toList) :
      Means levels (.text glyphs) (.text s)
  | list {levels : Nat} {items : List (Document × Json)}
      (each : ∀ item ∈ items, Means levels item.1 item.2) :
      Means (levels + 1) (.list (items.map Prod.fst)) (.list (items.map Prod.snd))
  | record {levels : Nat} {members : List ((List Glyph × Document) × (String × Json))}
      (keys : ∀ member ∈ members, Mean member.1.1 member.2.1.toList)
      (values : ∀ member ∈ members, Means levels member.1.2 member.2.2) :
      Means (levels + 1) (.record (members.map Prod.fst)) (.ofMembers (members.map Prod.snd))

variable {levels : Nat}

theorem exists_items {ds : List Document} {values : List Json}
    (read : itemValues? levels ds = some values) :
    ∃ items : List (Document × Json), ds = items.map Prod.fst ∧ values = items.map Prod.snd ∧
      ∀ item ∈ items, item.1 ∈ ds ∧ item.1.value? levels = some item.2 := by
  induction ds generalizing values with
  | nil =>
    obtain rfl := Option.some.inj read
    exact ⟨[], rfl, rfl, by simp⟩
  | cons d rest ih =>
    simp only [itemValues?, Option.bind_eq_bind, Option.bind_eq_some_iff, Option.pure_def,
      Option.some.injEq] at read
    obtain ⟨value, first, others, more, rfl⟩ := read
    obtain ⟨items, rfl, rfl, each⟩ := ih more
    refine ⟨(d, value) :: items, rfl, rfl, List.forall_mem_cons.2 ⟨⟨by simp, first⟩, ?_⟩⟩
    exact fun item mem => ⟨List.mem_cons_of_mem _ (each item mem).1, (each item mem).2⟩

theorem exists_members {ds : List (List Glyph × Document)} {values : List (String × Json)}
    (read : memberValues? levels ds = some values) :
    ∃ members : List ((List Glyph × Document) × (String × Json)),
      ds = members.map Prod.fst ∧ values = members.map Prod.snd ∧
        ∀ member ∈ members, member.1 ∈ ds ∧ glyphText? member.1.1 = some member.2.1 ∧
          member.1.2.value? levels = some member.2.2 := by
  induction ds generalizing values with
  | nil =>
    obtain rfl := Option.some.inj read
    exact ⟨[], rfl, rfl, by simp⟩
  | cons d rest ih =>
    simp only [memberValues?, Option.bind_eq_bind, Option.bind_eq_some_iff, Option.pure_def,
      Option.some.injEq] at read
    obtain ⟨key, name, value, first, others, more, rfl⟩ := read
    obtain ⟨members, rfl, rfl, each⟩ := ih more
    refine ⟨(d, key, value) :: members, rfl, rfl,
      List.forall_mem_cons.2 ⟨⟨by simp, name, first⟩, ?_⟩⟩
    exact fun member mem => ⟨List.mem_cons_of_mem _ (each member mem).1, (each member mem).2⟩

theorem means_of_value? {d : Document} {j : Json} (read : d.value? levels = some j) :
    Means levels d j := by
  induction d using induct generalizing levels j with
  | null =>
    obtain rfl := Option.some.inj read
    exact .null
  | bool b =>
    obtain rfl := Option.some.inj read
    exact .bool b
  | number n =>
    obtain ⟨v, found, rfl⟩ := Option.map_eq_some_iff.1 read
    exact .number found
  | text glyphs =>
    obtain ⟨s, found, rfl⟩ := Option.map_eq_some_iff.1 read
    exact .text (glyphText?_eq_some_iff.1 found)
  | list ds ih =>
    cases levels with
    | zero => cases read
    | succ levels =>
      obtain ⟨values, found, rfl⟩ := Option.map_eq_some_iff.1 read
      obtain ⟨items, rfl, rfl, each⟩ := exists_items found
      exact .list fun item mem => ih item.1 (each item mem).1 (each item mem).2
  | record ds ih =>
    cases levels with
    | zero => cases read
    | succ levels =>
      obtain ⟨values, found, rfl⟩ := Option.map_eq_some_iff.1 read
      obtain ⟨members, rfl, rfl, each⟩ := exists_members found
      refine .record (fun member mem => ?_) fun member mem => ?_
      · exact glyphText?_eq_some_iff.1 (each member mem).2.1
      · exact ih member.1 (each member mem).1 (each member mem).2.2

theorem itemValues?_of_each {items : List (Document × Json)}
    (each : ∀ item ∈ items, item.1.value? levels = some item.2) :
    itemValues? levels (items.map Prod.fst) = some (items.map Prod.snd) := by
  induction items with
  | nil => rfl
  | cons item rest ih =>
    obtain ⟨first, others⟩ := List.forall_mem_cons.1 each
    simp [itemValues?, first, ih others]

theorem memberValues?_of_each {members : List ((List Glyph × Document) × (String × Json))}
    (keys : ∀ member ∈ members, glyphText? member.1.1 = some member.2.1)
    (values : ∀ member ∈ members, member.1.2.value? levels = some member.2.2) :
    memberValues? levels (members.map Prod.fst) = some (members.map Prod.snd) := by
  induction members with
  | nil => rfl
  | cons member rest ih =>
    obtain ⟨name, names⟩ := List.forall_mem_cons.1 keys
    obtain ⟨first, others⟩ := List.forall_mem_cons.1 values
    simp [memberValues?, name, first, ih names others]

theorem value?_of_means {d : Document} {j : Json} (means : Means levels d j) :
    d.value? levels = some j := by
  induction means with
  | null => rfl
  | bool => rfl
  | number h => rw [value?, h, Option.map_some]
  | text h => rw [value?, glyphText?_eq_some_iff.2 h, Option.map_some]
  | list _ ih => rw [value?, itemValues?_of_each ih, Option.map_some]
  | record keys _ ih =>
    have names := fun member mem => glyphText?_eq_some_iff.2 (keys member mem)
    rw [value?, memberValues?_of_each names ih, Option.map_some]

theorem value?_eq_some_iff {d : Document} {j : Json} :
    d.value? levels = some j ↔ Means levels d j :=
  ⟨means_of_value?, value?_of_means⟩

end Document

end FormatPreview.Json
