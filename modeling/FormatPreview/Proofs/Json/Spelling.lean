import Mathlib.Data.List.Chain
import FormatPreview.Proofs.Json.Token

/-!
How tokens are written, and which symbols are given tokens. The scanner takes a text apart into
tokens exactly where each of them is written in one of its ways, with blanks anywhere between; only
for a numeral or a word next to another it insists on a blank.
-/
namespace FormatPreview.Json

/-! Strings. -/

/-- The ways to write a sign of a string. -/
inductive Glyph.Written : Glyph → List (Option Char) → Prop where
  | plain {c : Char} (printable : ' ' ≤ c) (quote : c ≠ '"') (backslash : c ≠ '\\') :
      Written (.char c) [some c]
  | letter {c e : Char} (h : (c, e) ∈ letterEscapes) : Written (.char c) [some '\\', some e]
  | unit {code : Nat} {digits : List Char} (h : UnitDigits code digits) :
      Written (.unit code) (some '\\' :: some 'u' :: digits.map some)
  | broken : Written .broken [none]

/-- The signs of a string one after the other, and the quote that closes it. -/
inductive Body : List Glyph → List (Option Char) → Prop where
  | close : Body [] [some '"']
  | cons {glyph : Glyph} {glyphs : List Glyph} {text rest : List (Option Char)}
      (first : glyph.Written text) (more : Body glyphs rest) : Body (glyph :: glyphs) (text ++ rest)

theorem hexDigit_of_hexValue? {c : Char} {n : Nat} (read : hexValue? c = some n) :
    n < 0x10 ∧ HexDigit n c := by
  have each : ∀ k < 128, ∀ n ∈ hexValue? (Char.ofNat k), n < 0x10 ∧ HexDigit n (Char.ofNat k) := by
    decide +kernel
  have ascii : c.toNat < 128 := by
    have below : ∀ {d : Char}, c ≤ d → c.toNat ≤ d.toNat := fun le => le
    unfold hexValue? at read
    split at read
    · next digit =>
      simp only [isDigit, Bool.and_eq_true, decide_eq_true_eq] at digit
      exact Nat.lt_of_le_of_lt (below digit.2) (by decide)
    · split at read
      · next letter => exact Nat.lt_of_le_of_lt (below letter.2) (by decide)
      · split at read
        · next letter => exact Nat.lt_of_le_of_lt (below letter.2) (by decide)
        · cases read
  rw [← Char.ofNat_toNat c] at read ⊢
  exact each _ ascii n read

theorem unitDigits_of_unit? {a b c d : Char} {code : Nat} (read : unit? a b c d = some code) :
    UnitDigits code [a, b, c, d] := by
  simp only [unit?, Option.bind_eq_bind, Option.bind_eq_some_iff, Option.pure_def,
    Option.some.injEq] at read
  obtain ⟨first, ha, second, hb, third, hc, fourth, hd, same⟩ := read
  obtain ⟨ha', ha⟩ := hexDigit_of_hexValue? ha
  obtain ⟨hb', hb⟩ := hexDigit_of_hexValue? hb
  obtain ⟨hc', hc⟩ := hexDigit_of_hexValue? hc
  obtain ⟨hd', hd⟩ := hexDigit_of_hexValue? hd
  have parts : [code / 0x1000, code / 0x100 % 0x10, code / 0x10 % 0x10, code % 0x10] =
      [first, second, third, fourth] := by
    simp only [List.cons.injEq, and_true]
    omega
  refine ⟨by omega, ?_⟩
  rw [parts]
  exact .cons ha (.cons hb (.cons hc (.cons hd .nil)))

theorem unescape?_eq_some_iff {c e : Char} : unescape? e = some c ↔ (c, e) ∈ letterEscapes := by
  constructor
  · intro read
    unfold unescape? at read
    split at read <;> first | (obtain rfl := Option.some.inj read; decide) | cases read
  · intro h
    simp only [letterEscapes, List.mem_cons, Prod.mk.injEq, List.not_mem_nil, or_false] at h
    rcases h with ⟨rfl, rfl⟩ | ⟨rfl, rfl⟩ | ⟨rfl, rfl⟩ | ⟨rfl, rfl⟩ | ⟨rfl, rfl⟩ | ⟨rfl, rfl⟩ |
      ⟨rfl, rfl⟩ | ⟨rfl, rfl⟩ <;> rfl

theorem stringBody?_written {glyph : Glyph} {text : List (Option Char)} (written : glyph.Written text)
    (rest : List (Option Char)) :
    stringBody? (text ++ rest) =
      (stringBody? rest).map fun found => (glyph :: found.1, found.2) := by
  cases written with
  | plain printable quote backslash => exact stringBody?_plain printable quote backslash rest
  | @letter c e h =>
    have read := unescape?_eq_some_iff.2 h
    have unit : e ≠ 'u' := by
      rintro rfl
      cases read
    rw [List.cons_append, List.singleton_append, stringBody?]
    · rw [read]
    · exact fun _ _ _ _ _ _ same => unit same
  | unit h =>
    obtain ⟨_, _, _, _, rfl, read⟩ := unit?_of_unitDigits h
    exact stringBody?_unit read rest
  | broken => rfl

theorem stringBody?_body {glyphs : List Glyph} {body : List (Option Char)} (written : Body glyphs body)
    (rest : List (Option Char)) : stringBody? (body ++ rest) = some (glyphs, rest) := by
  induction written with
  | close => rfl
  | cons first _ ih =>
    rw [List.append_assoc, stringBody?_written first, ih]
    rfl

theorem exists_body_cons {glyph : Glyph} {text input : List (Option Char)}
    {found found' : List Glyph × List (Option Char)} (first : glyph.Written text)
    (more : ∃ body, Body found.1 body ∧ input = body ++ found.2)
    (same : (glyph :: found.1, found.2) = found') :
    ∃ body, Body found'.1 body ∧ text ++ input = body ++ found'.2 := by
  obtain ⟨body, written, rfl⟩ := more
  subst same
  exact ⟨text ++ body, .cons first written, (List.append_assoc ..).symm⟩

/-- A string that is found is written up to where the rest begins. -/
theorem exists_body {input : List (Option Char)} {found : List Glyph × List (Option Char)}
    (read : stringBody? input = some found) :
    ∃ body, Body found.1 body ∧ input = body ++ found.2 := by
  fun_induction stringBody? input generalizing found with
  | case1 => cases read
  | case2 rest =>
    obtain rfl := Option.some.inj read
    exact ⟨_, .close, rfl⟩
  | case3 a b c d rest code unit ih =>
    obtain ⟨_, there, same⟩ := Option.map_eq_some_iff.1 read
    exact exists_body_cons (.unit (unitDigits_of_unit? unit)) (ih there) same
  | case4 => cases read
  | case5 e rest _ c letter ih =>
    obtain ⟨_, there, same⟩ := Option.map_eq_some_iff.1 read
    exact exists_body_cons (.letter (unescape?_eq_some_iff.1 letter)) (ih there) same
  | case6 => cases read
  | case7 => cases read
  | case8 c rest quote _ _ other ih =>
    obtain ⟨_, there, same⟩ := Option.map_eq_some_iff.1 read
    obtain ⟨printable, backslash⟩ := not_or.1 other
    exact exists_body_cons (.plain (by simpa using printable) quote backslash) (ih there) same
  | case9 rest ih =>
    obtain ⟨_, there, same⟩ := Option.map_eq_some_iff.1 read
    exact exists_body_cons .broken (ih there) same

/-! Tokens. -/

def signs : List (Token × Char) :=
  [(.openList, '['), (.closeList, ']'), (.openRecord, '\x7b'), (.closeRecord, '\x7d'),
    (.comma, ','), (.colon, ':')]

def words : List (Token × String) :=
  [(.null, "null"), (.bool true, "true"), (.bool false, "false")]

/-- The ways to write a token. -/
inductive Token.Written : Token → List (Option Char) → Prop where
  | sign {token : Token} {c : Char} (h : (token, c) ∈ signs) : Written token [some c]
  | word {token : Token} {word : String} (h : (token, word) ∈ words) :
      Written token (word.toList.map some)
  | number {numeral : Numeral} {cs : List Char} (h : numeral.Written cs) :
      Written (.number numeral) (cs.map some)
  | text {glyphs : List Glyph} {body : List (Option Char)} (h : Body glyphs body) :
      Written (.text glyphs) (some '"' :: body)

/-- Symbols that are these tokens in their order, with blanks anywhere between. -/
inductive Spaced : List Token → List (Option Char) → Prop where
  | nil : Spaced [] []
  | blank {tokens : List Token} {c : Char} {rest : List (Option Char)}
      (h : c ∈ [' ', '\t', '\n', '\r']) (more : Spaced tokens rest) :
      Spaced tokens (some c :: rest)
  | token {token : Token} {tokens : List Token} {text rest : List (Option Char)}
      (h : token.Written text) (more : Spaced tokens rest) :
      Spaced (token :: tokens) (text ++ rest)

/-- Numerals and words, which go on as long as characters fit. -/
def Token.loose : Token → Bool
  | .null | .bool _ | .number _ => true
  | _ => false

/-- No two numerals or words in a row. -/
def Separate (tokens : List Token) : Prop :=
  tokens.IsChain fun a b => (a.loose && b.loose) = false

theorem punctuation?_eq_some_iff {c : Char} {token : Token} :
    punctuation? c = some token ↔ (token, c) ∈ signs := by
  constructor
  · intro sign
    unfold punctuation? at sign
    split at sign <;> first | (obtain rfl := Option.some.inj sign; decide) | cases sign
  · intro h
    simp only [signs, List.mem_cons, Prod.mk.injEq, List.not_mem_nil, or_false] at h
    rcases h with ⟨rfl, rfl⟩ | ⟨rfl, rfl⟩ | ⟨rfl, rfl⟩ | ⟨rfl, rfl⟩ | ⟨rfl, rfl⟩ | ⟨rfl, rfl⟩ <;> rfl

theorem exists_word {cs : List Char} {token : Token} (read : word? cs = some token) :
    ∃ word, (token, word) ∈ words ∧ cs = word.toList := by
  unfold word? at read
  split at read
  · next same =>
    obtain rfl := Option.some.inj read
    exact ⟨"null", by decide, same⟩
  · split at read
    · next same =>
      obtain rfl := Option.some.inj read
      exact ⟨"true", by decide, same⟩
    · split at read
      · next same =>
        obtain rfl := Option.some.inj read
        exact ⟨"false", by decide, same⟩
      · cases read

theorem word?_of_mem {token : Token} {word : String} (h : (token, word) ∈ words) :
    word? word.toList = some token := by
  simp only [words, List.mem_cons, Prod.mk.injEq, List.not_mem_nil, or_false] at h
  rcases h with ⟨rfl, rfl⟩ | ⟨rfl, rfl⟩ | ⟨rfl, rfl⟩ <;> rfl

theorem run_eq (p : Char → Bool) (input : List (Option Char)) :
    input = (run p input).1.map some ++ (run p input).2 := by
  fun_induction run p input with
  | case1 c rest fits cs left read ih => simpa [read] using ih
  | case2 => rfl
  | case3 => rfl

theorem spaced_cons {token : Token} {tokens : List Token} {text rest : List (Option Char)}
    (written : token.Written text)
    (more : ∀ {tokens}, tokens? rest = some tokens → Spaced tokens rest)
    (read : (tokens? rest).map (token :: ·) = some tokens) : Spaced tokens (text ++ rest) := by
  obtain ⟨others, there, rfl⟩ := Option.map_eq_some_iff.1 read
  exact .token written (more there)

/-- What is taken apart into tokens is these tokens with blanks between. -/
theorem spaced_of_tokens? {input : List (Option Char)} {tokens : List Token}
    (read : tokens? input = some tokens) : Spaced tokens input := by
  fun_induction tokens? input generalizing tokens with
  | case1 =>
    obtain rfl := Option.some.inj read
    exact .nil
  | case3 c rest space ih => exact .blank ((isSpace_iff c).1 space) (ih read)
  | case4 rest found string _ ih =>
    obtain ⟨body, written, same⟩ := exists_body string
    have spaced := spaced_cons (.text written) ih read
    rwa [List.cons_append, ← same] at spaced
  | case6 c rest _ _ token sign ih =>
    exact spaced_cons (.sign (punctuation?_eq_some_iff.1 sign)) ih read
  | case7 c rest _ _ _ _ numeral number ih =>
    have spaced := spaced_cons (.number (Numeral.ofChars?_eq_some_iff.1 number)) ih read
    rwa [List.map_cons, List.cons_append, ← run_eq] at spaced
  | case9 c rest _ _ _ _ token word ih =>
    obtain ⟨name, mem, same⟩ := exists_word word
    have spaced := spaced_cons (.word mem) ih read
    rwa [← same, List.map_cons, List.cons_append, ← run_eq] at spaced
  | _ => cases read

/-- A blank, a sign or a string is apart from what stands before it. -/
theorem Spaced.apart {tokens : List Token} {symbols : List (Option Char)}
    (spaced : Spaced tokens symbols) (firm : ∀ token ∈ tokens.head?, token.loose = false) :
    Apart symbols := by
  cases spaced with
  | nil => exact apart_nil
  | blank h => exact apart_cons (stops_of_blank h) _
  | @token token _ _ rest h =>
    have firm : token.loose = false := firm token rfl
    cases h with
    | sign h => exact apart_cons (stops_of_sign (punctuation?_eq_some_iff.2 h)) _
    | word h =>
      have each : ∀ entry ∈ words, entry.1.loose = true := by decide
      exact absurd firm (by simp [each _ h])
    | number => cases firm
    | text => exact apart_cons (by decide) _

theorem Spaced.tokens?_eq {tokens : List Token} {symbols : List (Option Char)}
    (spaced : Spaced tokens symbols) (separate : Separate tokens) :
    tokens? symbols = some tokens := by
  induction spaced with
  | nil => simp [tokens?]
  | blank h _ ih => rw [tokens?_blank h, ih separate]
  | @token token tokens text rest h more ih =>
    have read : tokens? rest = some tokens := ih separate.tail
    have apart : token.loose = true → Apart rest := by
      intro loose
      refine more.apart fun next first => ?_
      have between := (List.isChain_cons.1 separate).1 next first
      simpa [loose] using between
    cases h with
    | sign h =>
      rw [List.singleton_append, tokens?_sign (punctuation?_eq_some_iff.2 h), read]
      rfl
    | word h =>
      have loose : ∀ entry ∈ words, entry.1.loose = true := by decide
      rw [scansApart_word (word?_of_mem h) rest (apart (loose _ h)), read]
      rfl
    | number h =>
      rw [scansApart_numeral h rest (apart rfl), read]
      rfl
    | text h =>
      rw [List.cons_append, tokens?_text (stringBody?_body h rest), read]
      rfl

end FormatPreview.Json
