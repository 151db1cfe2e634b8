import Mathlib.Data.List.Forall2
import FormatPreview.Json.Basic
import FormatPreview.Proofs.Dictionary
import FormatPreview.Proofs.Json.Numeral

/-!
Which texts stand for a JSON value, by the grammar of JSON alone. Blanks may stand around keys and
values, members in any order, and each character of a string may be written in any of its spellings.
What the printer writes is one of these texts.
-/
namespace FormatPreview.Json

def Blank (cs : List Char) : Prop := ∀ c ∈ cs, c ∈ [' ', '\t', '\n', '\r']

/-- A digit of base sixteen. Letters may be capital. -/
def HexDigit (n : Nat) (c : Char) : Prop := c = hexDigit n ∨ c = (hexDigit n).toUpper

instance (n : Nat) (c : Char) : Decidable (HexDigit n c) := inferInstanceAs (Decidable (_ ∨ _))

/-- The four digits of a UTF-16 unit. -/
def UnitDigits (n : Nat) (cs : List Char) : Prop :=
  n < 0x10000 ∧
    List.Forall₂ HexDigit [n / 0x1000, n / 0x100 % 0x10, n / 0x10 % 0x10, n % 0x10] cs

instance (n : Nat) (cs : List Char) : Decidable (UnitDigits n cs) :=
  inferInstanceAs (Decidable (_ ∧ _))

/-- The characters that have an escape of one letter, with the letter. -/
def letterEscapes : List (Char × Char) :=
  [('"', '"'), ('\\', '\\'), ('/', '/'), ('\x08', 'b'), ('\x0c', 'f'), ('\n', 'n'), ('\r', 'r'),
    ('\t', 't')]

/-- The ways to write a character in a string. -/
inductive Spells : Char → List Char → Prop where
  | plain {c : Char} (printable : ' ' ≤ c) (quote : c ≠ '"') (backslash : c ≠ '\\') : Spells c [c]
  | letter {c e : Char} (h : (c, e) ∈ letterEscapes) : Spells c ['\\', e]
  | unit {c : Char} {digits : List Char} (h : UnitDigits c.toNat digits) :
      Spells c ('\\' :: 'u' :: digits)
  | pair {c : Char} {high low : List Char} (past : 0x10000 ≤ c.toNat)
      (h : UnitDigits (0xD800 + (c.toNat - 0x10000) / 0x400) high)
      (h' : UnitDigits (0xDC00 + (c.toNat - 0x10000) % 0x400) low) :
      Spells c ('\\' :: 'u' :: (high ++ '\\' :: 'u' :: low))

/-- A member of a record and the texts of its key and its value. -/
structure Entry where
  key : String
  value : Json
  keyText : List Char
  valueText : List Char

namespace Entry

def member (e : Entry) : String × Json := (e.key, e.value)

def text (e : Entry) : List Char := e.keyText ++ ':' :: e.valueText

end Entry

/-- The texts of a value. Its numbers are integers, in digits alone. -/
inductive Encodes : Json → List Char → Prop where
  | null : Encodes .null "null".toList
  | bool (b : Bool) : Encodes (.bool b) (if b then "true" else "false").toList
  | integer (n : Int) : Encodes (.number (.integer n)) (toString n).toList
  | text {s : String} {spellings : List (List Char)}
      (spelled : List.Forall₂ Spells s.toList spellings) :
      Encodes (.text s) ('"' :: (spellings.flatten ++ ['"']))
  | list {items : List (Json × List Char)} {gap : List Char} (blank : Blank gap)
      (each : ∀ item ∈ items, Encodes item.1 item.2) :
      Encodes (.list (items.map Prod.fst))
        ('[' :: (gap ++ [','].intercalate (items.map Prod.snd) ++ [']']))
  | record {entries : List Entry} {members : List (String × Json)} {gap : List Char}
      (blank : Blank gap) (keys : ∀ e ∈ entries, Encodes (.text e.key) e.keyText)
      (values : ∀ e ∈ entries, Encodes e.value e.valueText)
      (perm : (entries.map Entry.member).Perm members) :
      Encodes (.record members)
        ('\x7b' :: (gap ++ [','].intercalate (entries.map Entry.text) ++ ['\x7d']))
  | padded {j : Json} {cs before after : List Char} (value : Encodes j cs)
      (blankBefore : Blank before) (blankAfter : Blank after) : Encodes j (before ++ cs ++ after)

/-- Values with at most so many containers inside one another, with 64-bit integers as their only
numbers, and with the members of each record in key order. -/
inductive Whole : Nat → Json → Prop where
  | null {levels : Nat} : Whole levels .null
  | bool {levels : Nat} (b : Bool) : Whole levels (.bool b)
  | integer {levels : Nat} {n : Int} (fits : Fits n) : Whole levels (.number (.integer n))
  | text {levels : Nat} (s : String) : Whole levels (.text s)
  | list {levels : Nat} {items : List Json} (each : ∀ item ∈ items, Whole levels item) :
      Whole (levels + 1) (.list items)
  | record {levels : Nat} {members : List (String × Json)}
      (ordered : members.Pairwise (fun a b => a.1 < b.1))
      (each : ∀ member ∈ members, Whole levels member.2) : Whole (levels + 1) (.record members)

theorem Whole.mono {levels more : Nat} {j : Json} (whole : Whole levels j) (le : levels ≤ more) :
    Whole more j := by
  induction whole generalizing more with
  | null => exact .null
  | bool b => exact .bool b
  | integer fits => exact .integer fits
  | text s => exact .text s
  | list each ih =>
    obtain ⟨more, rfl⟩ := Nat.exists_eq_add_one.2 (Nat.zero_lt_of_lt le)
    exact .list fun item mem => ih item mem (Nat.le_of_succ_le_succ le)
  | record ordered each ih =>
    obtain ⟨more, rfl⟩ := Nat.exists_eq_add_one.2 (Nat.zero_lt_of_lt le)
    exact .record ordered fun member mem => ih member mem (Nat.le_of_succ_le_succ le)

/-! What the printer writes. -/

theorem blank_nil : Blank [] := by
  simp [Blank]

theorem unitDigits_self {n : Nat} (small : n < 0x10000) :
    UnitDigits n [hexDigit (n / 0x1000), hexDigit (n / 0x100 % 0x10), hexDigit (n / 0x10 % 0x10),
      hexDigit (n % 0x10)] := by
  simp [UnitDigits, HexDigit, small]

theorem spells_escape (c : Char) : Spells c (escape c) := by
  unfold escape
  split
  case h_8 quote backslash _ _ _ _ _ =>
    split
    · next control =>
      -- The first two of its digits are zeros.
      have low : c.toNat < 0x20 := control
      have code := unitDigits_self (n := c.toNat) (by omega)
      rw [Nat.div_eq_of_lt (by omega), Nat.div_eq_of_lt (b := 0x100) (by omega),
        Nat.mod_eq_of_lt (b := 0x10) (a := c.toNat / 0x10) (by omega)] at code
      exact .unit code
    · next printable => exact .plain (by simpa using printable) quote backslash
  all_goals exact .letter (by decide)

theorem encodes_quoted (s : String) : Encodes (.text s) (quoted s) := by
  have spelled : List.Forall₂ Spells s.toList (s.toList.map escape) := by
    rw [List.forall₂_map_right_iff, List.forall₂_same]
    exact fun c _ => spells_escape c
  rw [quoted, List.flatMap_def]
  exact .text spelled

theorem itemChars_eq (items : List Json) :
    itemChars items = [','].intercalate (items.map chars) := by
  induction items with
  | nil => rfl
  | cons item rest ih =>
    cases rest with
    | nil => simp [itemChars]
    | cons next rest => simp [itemChars, ih]

theorem memberChars_eq (members : List (String × Json)) :
    memberChars members =
      [','].intercalate (members.map fun m => quoted m.1 ++ ':' :: chars m.2) := by
  induction members with
  | nil => rfl
  | cons member rest ih =>
    cases rest with
    | nil => simp [memberChars]
    | cons next rest => simp [memberChars, ih]

/-- The entry of a key and a value, the latter told by what is printed for it. -/
def Entry.printed (key : String) (value shown : Json) : Entry :=
  ⟨key, value, quoted key, chars shown⟩

/-- A printed record stands for every record of what its printed values stand for, in any order. -/
theorem encodes_record {parts : List (String × Json × Json)} {members : List (String × Json)}
    (each : ∀ part ∈ parts, Encodes part.2.1 (chars part.2.2))
    (perm : (parts.map fun part => (part.1, part.2.1)).Perm members) :
    Encodes (.record members) (chars (.record (parts.map fun part => (part.1, part.2.2)))) := by
  have texts : (parts.map fun part => Entry.printed part.1 part.2.1 part.2.2).map Entry.text =
      (parts.map fun part => (part.1, part.2.2)).map fun m => quoted m.1 ++ ':' :: chars m.2 := by
    simp [Entry.printed, Entry.text, Function.comp_def]
  rw [chars, memberChars_eq, ← texts]
  refine .record blank_nil ?_ ?_ ?_
  · exact List.forall_mem_map.2 fun part _ => encodes_quoted part.1
  · exact List.forall_mem_map.2 each
  · simpa [Entry.printed, Entry.member, Function.comp_def] using perm

theorem encodes_chars {levels : Nat} {j : Json} (whole : Whole levels j) : Encodes j (chars j) := by
  induction whole with
  | null => exact .null
  | bool b => cases b <;> exact .bool _
  | @integer _ n => exact .integer n
  | text s => exact encodes_quoted s
  | @list _ items each ih =>
    have texts : ∀ item ∈ items.map fun item => (item, chars item), Encodes item.1 item.2 :=
      List.forall_mem_map.2 ih
    have printed := Encodes.list blank_nil texts
    simpa [chars, itemChars_eq, Function.comp_def] using printed
  | @record _ members ordered each ih =>
    have parts : ∀ part ∈ members.map fun m => (m.1, m.2, m.2), Encodes part.2.1 (chars part.2.2) :=
      List.forall_mem_map.2 ih
    have printed := encodes_record parts (List.Perm.refl _)
    simpa [Function.comp_def] using printed

end FormatPreview.Json
