import Mathlib.Tactic.IntervalCases
import Mathlib.Tactic.Tauto
import FormatPreview.Json.Token
import FormatPreview.Proofs.Json.Encoding

/-!
The tokens of what the grammar allows. A string in any spelling is one token, and a numeral or a word
is one if nothing after it makes it longer; signs and blanks never do, so the tokens of texts with
signs between them can be put together.
-/
namespace FormatPreview.Json

/-! Strings. -/

theorem hexValue?_of_hexDigit {n : Nat} {c : Char} (small : n < 0x10) (digit : HexDigit n c) :
    hexValue? c = some n := by
  rcases digit with rfl | rfl <;> interval_cases n <;> rfl

theorem unit?_of_unitDigits {n : Nat} {digits : List Char} (written : UnitDigits n digits) :
    ∃ a b c d, digits = [a, b, c, d] ∧ unit? a b c d = some n := by
  obtain ⟨small, each⟩ := written
  rcases each with _ | ⟨ha, _ | ⟨hb, _ | ⟨hc, _ | ⟨hd, ⟨⟩⟩⟩⟩⟩
  refine ⟨_, _, _, _, rfl, ?_⟩
  rw [unit?, hexValue?_of_hexDigit (by omega) ha, hexValue?_of_hexDigit (by omega) hb,
    hexValue?_of_hexDigit (by omega) hc, hexValue?_of_hexDigit (by omega) hd]
  simp
  omega

/-- A part of a string is found as these signs, which mean one character. -/
structure Signs (c : Char) (cs : List Char) (glyphs : List Glyph) : Prop where
  found : ∀ rest, stringBody? (cs.map some ++ rest) =
    (stringBody? rest).map fun found => (glyphs ++ found.1, found.2)
  means : ∀ more, glyphChars? (glyphs ++ more) = (glyphChars? more).map (c :: ·)

theorem Signs.char {c : Char} {cs : List Char}
    (found : ∀ rest, stringBody? (cs.map some ++ rest) =
      (stringBody? rest).map fun found => (.char c :: found.1, found.2)) :
    Signs c cs [.char c] :=
  ⟨found, fun _ => rfl⟩

theorem stringBody?_plain {c : Char} (printable : ' ' ≤ c) (quote : c ≠ '"') (backslash : c ≠ '\\')
    (rest : List (Option Char)) :
    stringBody? (some c :: rest) =
      (stringBody? rest).map fun found => (.char c :: found.1, found.2) := by
  have other : ¬ (c < ' ' ∨ c = '\\') := by simp [printable, backslash]
  rw [stringBody?, if_neg other]
  · exact quote
  · exact fun _ _ _ _ _ _ same => backslash same
  · exact fun _ _ _ same => backslash same

theorem stringBody?_unit {a b c d : Char} {code : Nat} (read : unit? a b c d = some code)
    (rest : List (Option Char)) :
    stringBody? (some '\\' :: some 'u' :: some a :: some b :: some c :: some d :: rest) =
      (stringBody? rest).map fun found => (.unit code :: found.1, found.2) := by
  rw [stringBody?, read]

/-- A unit outside the surrogates is a character by itself, so the next sign does not matter. -/
theorem glyphChars?_single {code : Nat} (single : code < 0xD800 ∨ 0xE000 ≤ code)
    (more : List Glyph) :
    glyphChars? (.unit code :: more) = (glyphChars? more).map (Char.ofNat code :: ·) := by
  have high : ¬ (0xD800 ≤ code ∧ code < 0xDC00) := by omega
  have low : ¬ (0xDC00 ≤ code ∧ code < 0xE000) := by omega
  have surrogate : ¬ (0xD800 ≤ code ∧ code < 0xE000) := by omega
  cases more with
  | nil => simp [glyphChars?, surrogate]
  | cons glyph rest =>
    cases glyph with
    | unit => rw [glyphChars?, if_neg high, if_neg low]
    | _ => simp [glyphChars?, surrogate]

theorem glyphChars?_unit (c : Char) (more : List Glyph) :
    glyphChars? (.unit c.toNat :: more) = (glyphChars? more).map (c :: ·) := by
  have valid : c.toNat < 0xD800 ∨ 0xDFFF < c.toNat ∧ c.toNat < 0x110000 := c.valid
  rw [glyphChars?_single (by omega), Char.ofNat_toNat]

theorem glyphChars?_pair {c : Char} (past : 0x10000 ≤ c.toNat) (more : List Glyph) :
    glyphChars? (.unit (0xD800 + (c.toNat - 0x10000) / 0x400) ::
      .unit (0xDC00 + (c.toNat - 0x10000) % 0x400) :: more) = (glyphChars? more).map (c :: ·) := by
  have valid : c.toNat < 0xD800 ∨ 0xDFFF < c.toNat ∧ c.toNat < 0x110000 := c.valid
  have whole : 0x10000 + (0xD800 + (c.toNat - 0x10000) / 0x400 - 0xD800) * 0x400 +
      (0xDC00 + (c.toNat - 0x10000) % 0x400 - 0xDC00) = c.toNat := by omega
  rw [glyphChars?, if_pos (by omega), if_pos (by omega), whole, Char.ofNat_toNat]

theorem exists_signs {c : Char} {cs : List Char} (spells : Spells c cs) :
    ∃ glyphs, Signs c cs glyphs := by
  cases spells with
  | plain printable quote backslash =>
    exact ⟨_, .char (stringBody?_plain printable quote backslash)⟩
  | letter h =>
    refine ⟨_, .char fun rest => ?_⟩
    simp only [letterEscapes, List.mem_cons, Prod.mk.injEq, List.not_mem_nil, or_false] at h
    rcases h with ⟨rfl, rfl⟩ | ⟨rfl, rfl⟩ | ⟨rfl, rfl⟩ | ⟨rfl, rfl⟩ | ⟨rfl, rfl⟩ | ⟨rfl, rfl⟩ |
      ⟨rfl, rfl⟩ | ⟨rfl, rfl⟩ <;> rfl
  | unit h =>
    obtain ⟨_, _, _, _, rfl, read⟩ := unit?_of_unitDigits h
    exact ⟨[.unit c.toNat], stringBody?_unit read, glyphChars?_unit c⟩
  | pair past h h' =>
    obtain ⟨_, _, _, _, rfl, high⟩ := unit?_of_unitDigits h
    obtain ⟨_, _, _, _, rfl, low⟩ := unit?_of_unitDigits h'
    refine ⟨[.unit _, .unit _], fun rest => ?_, glyphChars?_pair past⟩
    simp [stringBody?_unit high, stringBody?_unit low, Function.comp_def]

theorem exists_glyphChars {cs : List Char} {spellings : List (List Char)}
    (spelled : List.Forall₂ Spells cs spellings) :
    ∃ glyphs, glyphChars? glyphs = some cs ∧ ∀ rest,
      stringBody? (spellings.flatten.map some ++ some '"' :: rest) = some (glyphs, rest) := by
  induction spelled with
  | nil => exact ⟨[], rfl, fun _ => rfl⟩
  | cons first _ ih =>
    obtain ⟨signs, found, means⟩ := exists_signs first
    obtain ⟨glyphs, chars, read⟩ := ih
    refine ⟨signs ++ glyphs, by rw [means, chars]; rfl, fun rest => ?_⟩
    rw [List.flatten_cons, List.map_append, List.append_assoc, found, read]
    rfl

/-- A string in any spelling is found up to its quote and means its text. -/
theorem exists_glyphs {s : String} {spellings : List (List Char)}
    (spelled : List.Forall₂ Spells s.toList spellings) :
    ∃ glyphs, glyphText? glyphs = some s ∧ ∀ rest,
      stringBody? (spellings.flatten.map some ++ some '"' :: rest) = some (glyphs, rest) := by
  obtain ⟨glyphs, chars, read⟩ := exists_glyphChars spelled
  refine ⟨glyphs, ?_, read⟩
  rw [glyphText?, chars, Option.map_some, String.ofList_toList]

/-! Characters. -/

/-- A character that makes neither a numeral nor a word longer. -/
def Stops (c : Char) : Prop := isNumeric c = false ∧ isWordLetter c = false

instance (c : Char) : Decidable (Stops c) := inferInstanceAs (Decidable (_ ∧ _))

theorem stops_of_sign {c : Char} {token : Token} (sign : punctuation? c = some token) : Stops c := by
  unfold punctuation? at sign
  split at sign <;> first | decide | cases sign

theorem stops_of_blank {c : Char} (blank : c ∈ [' ', '\t', '\n', '\r']) : Stops c := by
  simp only [List.mem_cons, List.not_mem_nil, or_false] at blank
  rcases blank with rfl | rfl | rfl | rfl <;> decide

theorem isSpace_iff (c : Char) : isSpace c = true ↔ c ∈ [' ', '\t', '\n', '\r'] := by
  simp [isSpace]
  tauto

theorem tokens?_blank {c : Char} (blank : c ∈ [' ', '\t', '\n', '\r']) (rest : List (Option Char)) :
    tokens? (some c :: rest) = tokens? rest := by
  rw [tokens?, if_pos ((isSpace_iff c).2 blank)]

theorem tokens?_sign {c : Char} {token : Token} (sign : punctuation? c = some token)
    (rest : List (Option Char)) :
    tokens? (some c :: rest) = (tokens? rest).map (token :: ·) := by
  have other : ¬ isSpace c ∧ c ≠ '"' := by
    unfold punctuation? at sign
    split at sign <;> first | decide | cases sign
  rw [tokens?, if_neg other.1, if_neg other.2, sign]

/-! Texts. -/

/-- A text has these tokens, whatever follows it. -/
def Scans (cs : List Char) (tokens : List Token) : Prop :=
  ∀ rest, tokens? (cs.map some ++ rest) = (tokens? rest).map (tokens ++ ·)

/-- What follows a numeral or a word and makes it no longer. -/
def Apart (rest : List (Option Char)) : Prop := ∀ c, rest.head? = some (some c) → Stops c

/-- A text has these tokens unless what follows makes the last of them longer. -/
def ScansApart (cs : List Char) (tokens : List Token) : Prop :=
  ∀ rest, Apart rest → tokens? (cs.map some ++ rest) = (tokens? rest).map (tokens ++ ·)

variable {cs cs' : List Char} {tokens tokens' : List Token}

theorem apart_nil : Apart [] := by
  simp [Apart]

theorem apart_cons {c : Char} (stops : Stops c) (rest : List (Option Char)) :
    Apart (some c :: rest) := by
  simpa [Apart] using stops

theorem Scans.apart (scans : Scans cs tokens) : ScansApart cs tokens :=
  fun rest _ => scans rest

theorem scans_nil : Scans [] [] := by
  intro rest
  simp

theorem Scans.blank (scans : Scans cs tokens) {c : Char} (blank : c ∈ [' ', '\t', '\n', '\r']) :
    Scans (c :: cs) tokens := by
  intro rest
  rw [List.map_cons, List.cons_append, tokens?_blank blank, scans]

theorem Scans.sign (scans : Scans cs tokens) {c : Char} {token : Token}
    (sign : punctuation? c = some token) : Scans (c :: cs) (token :: tokens) := by
  intro rest
  rw [List.map_cons, List.cons_append, tokens?_sign sign, scans, Option.map_map]
  rfl

theorem scans_blank {gap : List Char} (blank : Blank gap) : Scans gap [] := by
  induction gap with
  | nil => exact scans_nil
  | cons c rest ih =>
    obtain ⟨here, there⟩ := List.forall_mem_cons.1 blank
    exact (ih there).blank here

theorem Scans.append_apart (first : Scans cs tokens) (second : ScansApart cs' tokens') :
    ScansApart (cs ++ cs') (tokens ++ tokens') := by
  intro rest apart
  rw [List.map_append, List.append_assoc, first, second rest apart, Option.map_map]
  simp [Function.comp_def]

theorem ScansApart.append (first : ScansApart cs tokens) {c : Char} (stops : Stops c)
    (second : Scans (c :: cs') tokens') : Scans (cs ++ c :: cs') (tokens ++ tokens') := by
  intro rest
  have apart : Apart ((c :: cs').map some ++ rest) := apart_cons stops _
  rw [List.map_append, List.append_assoc, first _ apart, second, Option.map_map]
  simp [Function.comp_def]

theorem ScansApart.sign (scans : ScansApart cs tokens) {c : Char} {token : Token}
    (sign : punctuation? c = some token) : Scans (cs ++ [c]) (tokens ++ [token]) :=
  scans.append (stops_of_sign sign) (scans_nil.sign sign)

/-- Two texts with a sign between. -/
theorem ScansApart.between (first : ScansApart cs tokens) {c : Char} {token : Token}
    (sign : punctuation? c = some token) (second : ScansApart cs' tokens') :
    ScansApart (cs ++ c :: cs') (tokens ++ token :: tokens') := by
  simpa using (first.sign sign).append_apart second

/-- A text between two signs. -/
theorem ScansApart.inside (scans : ScansApart cs tokens) {before after : Char}
    {first last : Token} (opens : punctuation? before = some first)
    (closes : punctuation? after = some last) {gap : List Char} (blank : Blank gap) :
    Scans (before :: (gap ++ cs ++ [after])) (first :: (tokens ++ [last])) :=
  (((scans_blank blank).append_apart scans).sign closes).sign opens

theorem ScansApart.blank (scans : ScansApart cs tokens) {gap : List Char} (blank : Blank gap) :
    ScansApart (cs ++ gap) tokens := by
  cases gap with
  | nil => simpa using scans
  | cons c rest =>
    have padded := scans.append (stops_of_blank (blank c (by simp))) (scans_blank blank)
    simpa using padded.apart

theorem ScansApart.padded (scans : ScansApart cs tokens) {before after : List Char}
    (blankBefore : Blank before) (blankAfter : Blank after) :
    ScansApart (before ++ cs ++ after) tokens :=
  ((scans_blank blankBefore).append_apart scans).blank blankAfter

theorem run_append {p : Char → Bool} (all : ∀ c ∈ cs, p c = true) {rest : List (Option Char)}
    (stop : ∀ c, rest.head? = some (some c) → p c = false) :
    run p (cs.map some ++ rest) = (cs, rest) := by
  induction cs with
  | nil =>
    unfold run
    split <;> simp_all
  | cons c cs ih =>
    obtain ⟨here, there⟩ := List.forall_mem_cons.1 all
    rw [List.map_cons, List.cons_append, run, if_pos here, ih there]

theorem tokens?_text {glyphs : List Glyph} {input rest : List (Option Char)}
    (found : stringBody? input = some (glyphs, rest)) :
    tokens? (some '"' :: input) = (tokens? rest).map (.text glyphs :: ·) := by
  rw [tokens?, if_neg (by decide), if_pos rfl]
  split
  · next found' here =>
    obtain rfl : (glyphs, rest) = found' := Option.some.inj (found.symm.trans here)
    rfl
  · next none => cases found.symm.trans none

theorem scans_text {s : String} {spellings : List (List Char)}
    (spelled : List.Forall₂ Spells s.toList spellings) :
    ∃ glyphs, glyphText? glyphs = some s ∧
      Scans ('"' :: (spellings.flatten ++ ['"'])) [.text glyphs] := by
  obtain ⟨glyphs, means, read⟩ := exists_glyphs spelled
  refine ⟨glyphs, means, fun rest => ?_⟩
  have found : stringBody? ((spellings.flatten ++ ['"']).map some ++ rest) = some (glyphs, rest) := by
    simpa using read rest
  rw [List.map_cons, List.cons_append, tokens?_text found]
  rfl

/-- What begins a numeral or a word is no blank, no quote and no sign. -/
theorem other_of_begins {c : Char} (begins : isNumeric c = true ∨ isWordLetter c = true) :
    ¬ isSpace c ∧ c ≠ '"' ∧ punctuation? c = none := by
  have goes : ¬ Stops c := by
    rintro ⟨numeral, word⟩
    simp [numeral, word] at begins
  refine ⟨fun space => goes (stops_of_blank ((isSpace_iff c).1 space)), ?_, ?_⟩
  · rintro rfl
    exact goes (by decide)
  · cases sign : punctuation? c with
    | none => rfl
    | some token => exact absurd (stops_of_sign sign) goes

theorem scansApart_word {token : Token} (word : word? cs = some token) : ScansApart cs [token] := by
  have known : cs ∈ ["null".toList, "true".toList, "false".toList] := by
    unfold word? at word
    split at word
    · simp [*]
    · split at word
      · simp [*]
      · split at word <;> simp_all
  have each : ∀ cs ∈ ["null".toList, "true".toList, "false".toList],
      ∃ c rest, cs = c :: rest ∧ ¬ (isNumeric c ∧ c ≠ 'e') ∧ isWordLetter c = true ∧
        rest.all isWordLetter = true := by
    simp only [List.forall_mem_cons]
    exact ⟨⟨_, _, rfl, by decide⟩, ⟨_, _, rfl, by decide⟩, ⟨_, _, rfl, by decide⟩, by simp⟩
  obtain ⟨c, letters, rfl, other, here, there⟩ := each cs known
  intro rest apart
  have all : run isWordLetter (letters.map some ++ rest) = (letters, rest) :=
    run_append (List.all_eq_true.1 there) fun d first => (apart d first).2
  obtain ⟨space, quote, sign⟩ := other_of_begins (.inr here)
  rw [List.map_cons, List.cons_append, tokens?, if_neg space, if_neg quote, sign]
  simp only [if_neg other, all, word, List.singleton_append]

theorem isNumeric_of_isDigit {c : Char} (digit : isDigit c = true) : isNumeric c = true := by
  simp [isNumeric, digit]

/-- A numeral is a run of numeral characters that begins with a sign or a digit. -/
theorem Numeral.Written.numeric {numeral : Numeral} (written : numeral.Written cs) :
    (∀ c ∈ cs, isNumeric c = true) ∧ ∀ c ∈ cs.head?, c ≠ 'e' := by
  have digits : ∀ {ds : List Char}, Digits ds → ∀ c ∈ ds, isNumeric c = true :=
    fun h c mem => isNumeric_of_isDigit (h.2 c mem)
  cases written with
  | @parts negative whole fraction fractionText exponentText exponent some zero afterPoint scaled =>
    have fractional : ∀ c ∈ fractionText, isNumeric c = true := by
      cases afterPoint with
      | none => simp
      | point more => exact List.forall_mem_cons.2 ⟨by decide, digits more⟩
    have exponential : ∀ c ∈ exponentText, isNumeric c = true := by
      have letters : ∀ e : Char, e = 'e' ∨ e = 'E' → isNumeric e = true := by
        rintro e (rfl | rfl) <;> decide
      cases scaled with
      | none => simp
      | unsigned letter more => exact List.forall_mem_cons.2 ⟨letters _ letter, digits more⟩
      | plus letter more | minus letter more =>
        exact List.forall_mem_cons.2
          ⟨letters _ letter, List.forall_mem_cons.2 ⟨by decide, digits more⟩⟩
    constructor
    · simp only [List.forall_mem_append]
      exact ⟨by cases negative <;> simp; decide, digits some, fractional, exponential⟩
    · cases negative with
      | true => simp
      | false =>
        obtain ⟨c, digit, same⟩ := List.exists_cons_of_ne_nil some.1
        rintro _ first rfl
        have digit := some.2 'e' (by simp_all)
        revert digit
        decide

theorem scansApart_numeral {numeral : Numeral} (written : numeral.Written cs) :
    ScansApart cs [.number numeral] := by
  intro rest apart
  obtain ⟨numeric, first⟩ := written.numeric
  have read := Numeral.ofChars?_eq_some_iff.2 written
  cases cs with
  | nil => simp [Numeral.ofChars?] at read
  | cons c cs =>
    obtain ⟨here, there⟩ := List.forall_mem_cons.1 numeric
    have begins : isNumeric c ∧ c ≠ 'e' := ⟨here, first c rfl⟩
    have all : run isNumeric (cs.map some ++ rest) = (cs, rest) :=
      run_append there fun d next => (apart d next).1
    obtain ⟨space, quote, sign⟩ := other_of_begins (.inl here)
    rw [List.map_cons, List.cons_append, tokens?, if_neg space, if_neg quote, sign]
    simp only [if_pos begins, all, read, List.singleton_append]

end FormatPreview.Json
