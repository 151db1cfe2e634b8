import FormatPreview.Settings
import Mathlib.Data.List.Basic
import Mathlib.Data.List.TakeWhile

/-!
Which time limits are accepted. A variable sets no limit when it is absent or blank, and a limit of
so many seconds when it holds blanks at most around a number from one to the largest of 64 bits: an
optional plus sign and decimal digits, however many zeros stand before the others. Any other text is
refused, and it is all that a refusal depends on.
-/
namespace FormatPreview

namespace Text

variable {cs text before after : List Char}

/-- Only blank characters. -/
def Blanks (cs : List Char) : Prop := ∀ c ∈ cs, isBlank c = true

/-- Neither end of a text is blank. -/
structure Trimmed (text : List Char) : Prop where
  head : ∀ c ∈ text.head?, isBlank c = false
  last : ∀ c ∈ text.getLast?, isBlank c = false

theorem dropWhile_blanks (blanks : Blanks before) (head : ∀ c ∈ text.head?, isBlank c = false)
    (some : text ≠ []) : (before ++ (text ++ after)).dropWhile isBlank = text ++ after := by
  rw [List.dropWhile_append_of_pos blanks]
  cases text with
  | nil => exact absurd rfl some
  | cons c rest => exact List.dropWhile_cons_of_neg (by simp [head c rfl])

theorem trimChars_between (left : Blanks before) (right : Blanks after) (trimmed : Trimmed text)
    (some : text ≠ []) : trimChars (before ++ text ++ after) = text := by
  have last : ∀ c ∈ text.reverse.head?, isBlank c = false := by
    simpa [List.head?_reverse] using trimmed.last
  have right' : Blanks after.reverse := fun c mem => right c (List.mem_reverse.1 mem)
  have back := @dropWhile_blanks text.reverse after.reverse [] right' last (by simpa using some)
  rw [trimChars, List.append_assoc, dropWhile_blanks left trimmed.head some, List.reverse_append]
  rw [List.append_nil] at back
  rw [back, List.reverse_reverse]

theorem exists_around_trimChars (cs : List Char) :
    ∃ before after, cs = before ++ trimChars cs ++ after ∧ Blanks before ∧ Blanks after := by
  let rest := cs.dropWhile isBlank
  have whole : rest = trimChars cs ++ (rest.reverse.takeWhile isBlank).reverse := by
    rw [trimChars, ← List.reverse_append, List.takeWhile_append_dropWhile, List.reverse_reverse]
  refine ⟨cs.takeWhile isBlank, (rest.reverse.takeWhile isBlank).reverse, ?_, ?_, ?_⟩
  · rw [List.append_assoc, ← whole]
    exact List.takeWhile_append_dropWhile.symm
  · exact fun c mem => List.mem_takeWhile_imp mem
  · exact fun c mem => List.mem_takeWhile_imp (List.mem_reverse.1 mem)

end Text

/-- How a number is written: in decimal digits, one or more, and a plus sign may stand before them. -/
inductive InDigits (n : Nat) : List Char → Prop where
  | plain {digits : List Char} (some : digits ≠ []) (all : ∀ c ∈ digits, c.isDigit = true)
      (value : Nat.ofDigitChars 10 digits 0 = n) : InDigits n digits
  | plus {digits : List Char} (some : digits ≠ []) (all : ∀ c ∈ digits, c.isDigit = true)
      (value : Nat.ofDigitChars 10 digits 0 = n) : InDigits n ('+' :: digits)

theorem isBlank_of_isDigit {c : Char} (digit : c.isDigit = true) : Text.isBlank c = false := by
  have bounds : 48 ≤ c.toNat ∧ c.toNat ≤ 57 := by
    simpa [Char.isDigit, UInt32.le_iff_toNat_le] using digit
  simp [Text.isBlank, Text.blankRanges]
  omega

namespace InDigits

variable {n : Nat} {text : List Char}

theorem ne_nil (written : InDigits n text) : text ≠ [] := by
  cases written with
  | plain some => exact some
  | plus => simp

theorem trimmed (written : InDigits n text) : Text.Trimmed text := by
  have ends : ∀ c ∈ text, Text.isBlank c = false := by
    intro c mem
    cases written with
    | plain _ all => exact isBlank_of_isDigit (all c mem)
    | plus _ all =>
      rcases List.mem_cons.1 mem with rfl | mem
      · decide
      · exact isBlank_of_isDigit (all c mem)
  exact ⟨fun c mem => ends c (List.mem_of_mem_head? mem),
    fun c mem => ends c (List.mem_of_getLast? mem)⟩

end InDigits

theorem le_ofDigitChars (n : Nat) (cs : List Char) : n ≤ Nat.ofDigitChars 10 cs n := by
  induction cs generalizing n with
  | nil => exact Nat.le_refl n
  | cons c cs ih =>
    rw [Nat.ofDigitChars_cons]
    exact Nat.le_trans (by omega) (ih _)

/-- Appended digits only make a number larger, so the first one that is too large stays so. -/
theorem readDigits_eq_ok_iff {n m : Nat} {cs : List Char} (fits : n < Nat.pow 2 64) :
    readDigits n cs = .ok m ↔
      (∀ c ∈ cs, c.isDigit = true) ∧ Nat.ofDigitChars 10 cs n = m ∧ m < Nat.pow 2 64 := by
  induction cs generalizing n with
  | nil =>
    constructor
    · rintro ⟨⟩
      exact ⟨by simp, rfl, fits⟩
    · rintro ⟨_, rfl, _⟩
      rfl
  | cons c cs ih =>
    have digit : ('0' ≤ c ∧ c ≤ '9') ↔ c.isDigit = true := by
      simp [Char.isDigit, Char.le_def]
    rw [readDigits, Nat.ofDigitChars_cons, Nat.mul_comm 10 n]
    simp only [digit, List.forall_mem_cons]
    by_cases isDigit : c.isDigit = true
    · by_cases room : n * 10 + (c.toNat - '0'.toNat) < Nat.pow 2 64
      · rw [if_pos isDigit, if_pos room, ih room]
        simp [isDigit]
      · have grows := le_ofDigitChars (n * 10 + (c.toNat - '0'.toNat)) cs
        rw [if_pos isDigit, if_neg room]
        constructor
        · intro read
          cases read
        · rintro ⟨_, rfl, small⟩
          omega
    · simp [isDigit]

theorem readNumber_eq_ok_iff {n : Nat} {cs : List Char} :
    readNumber cs = .ok n ↔ InDigits n cs ∧ n < Nat.pow 2 64 := by
  have sign : ('+').isDigit = false := by decide
  fun_cases readNumber cs with
  | case1 | case2 =>
    constructor
    · intro read
      cases read
    · rintro ⟨written, _⟩
      cases written <;> simp_all
  | case3 digits more =>
    rw [readDigits_eq_ok_iff (by decide)]
    constructor
    · rintro ⟨all, value, small⟩
      exact ⟨.plus (by rintro rfl; simp at more) all value, small⟩
    · rintro ⟨written, small⟩
      cases written with
      | plain _ all => simp [sign] at all
      | plus _ all value => exact ⟨all, value, small⟩
  | case4 cs none alone other =>
    rw [readDigits_eq_ok_iff (by decide)]
    constructor
    · rintro ⟨all, value, small⟩
      exact ⟨.plain none all value, small⟩
    · rintro ⟨written, small⟩
      cases written with
      | plain _ all value => exact ⟨all, value, small⟩
      | plus => exact absurd rfl (other _)

namespace Settings

/-- What the value of a variable says about the time limit, in seconds. -/
inductive Limits : Option String → Option Nat → Prop where
  | absent : Limits none none
  | blank {value : String} (blanks : Text.Blanks value.toList) : Limits (some value) none
  | seconds {value : String} {n : Nat} {before text after : List Char}
      (cut : value.toList = before ++ text ++ after) (left : Text.Blanks before)
      (right : Text.Blanks after) (written : InDigits n text) (positive : 1 ≤ n)
      (fits : n < Nat.pow 2 64) : Limits (some value) (some n)

variable {value : String} {limit : Option Nat} {lookup : String → Option String}

theorem limits_none_iff : Limits none limit ↔ limit = none := by
  constructor
  · rintro ⟨⟩
    rfl
  · rintro rfl
    exact .absent

theorem blank_iff : Text.blank value = true ↔ Text.Blanks value.toList := by
  simp [Text.blank, Text.Blanks]

theorem limits_blank_iff (blank : Text.blank value = true) :
    Limits (some value) limit ↔ limit = none := by
  have blanks := blank_iff.1 blank
  constructor
  · intro limits
    cases limits with
    | blank => rfl
    | @seconds _ n before text after cut _ _ written =>
      obtain ⟨c, rest, rfl⟩ := List.exists_cons_of_ne_nil written.ne_nil
      have other := written.trimmed.head c rfl
      simp [blanks c (by simp [cut])] at other
  · rintro rfl
    exact .blank blanks

theorem readTimeout_eq_ok_iff {n : Nat} :
    readTimeout value = .ok n ↔
      InDigits n (Text.trimChars value.toList) ∧ 1 ≤ n ∧ n < Nat.pow 2 64 := by
  have number : readNumber (Text.trimChars value.toList) = .ok n ↔ _ := readNumber_eq_ok_iff
  unfold readTimeout
  split
  · next failed =>
    rw [failed] at number
    simp only [reduceCtorEq, false_iff] at number ⊢
    exact fun ⟨written, _, small⟩ => number ⟨written, small⟩
  · next zero =>
    rw [zero] at number
    simp only [reduceCtorEq, false_iff]
    rintro ⟨written, positive, small⟩
    cases number.2 ⟨written, small⟩
    omega
  · next seconds positive read =>
    rw [read] at number
    simp only [Except.ok.injEq] at number ⊢
    constructor
    · rintro rfl
      obtain ⟨written, small⟩ := number.1 rfl
      exact ⟨written, Nat.pos_of_ne_zero positive, small⟩
    · exact fun ⟨written, _, small⟩ => number.2 ⟨written, small⟩

/-- A value that is not blank sets a limit exactly when it is read as one. -/
theorem limits_of_not_blank (some : Text.blank value = false) :
    Limits (.some value) limit ↔ ∃ n, readTimeout value = .ok n ∧ limit = .some n := by
  constructor
  · intro limits
    cases limits with
    | blank blanks => simp [blank_iff.2 blanks] at some
    | @seconds _ n before text after cut left right written positive fits =>
      refine ⟨n, readTimeout_eq_ok_iff.2 ⟨?_, positive, fits⟩, rfl⟩
      rwa [cut, Text.trimChars_between left right written.trimmed written.ne_nil]
  · rintro ⟨n, read, rfl⟩
    obtain ⟨written, positive, fits⟩ := readTimeout_eq_ok_iff.1 read
    obtain ⟨before, after, cut, left, right⟩ := Text.exists_around_trimChars value.toList
    exact .seconds cut left right written positive fits

/-- The time limit that the variables set, or why they are refused. -/
def timeoutOf (lookup : String → Option String) : Except Error (Option Nat) :=
  match nonBlank lookup timeoutVariable with
  | none => .ok none
  | some value => (readTimeout value).map some

theorem timeoutOf_eq_ok_iff :
    timeoutOf lookup = .ok limit ↔ Limits (lookup timeoutVariable) limit := by
  unfold timeoutOf nonBlank
  cases found : lookup timeoutVariable with
  | none => simp [limits_none_iff, eq_comm]
  | some value =>
    cases blank : Text.blank value with
    | true =>
      rw [limits_blank_iff blank]
      simp [Option.filter, blank, eq_comm]
    | false =>
      rw [limits_of_not_blank blank]
      simp only [Option.filter, blank, Bool.not_false, if_true]
      cases readTimeout value <;> simp [Except.map, eq_comm]

theorem ofLookup_eq (lookup : String → Option String) :
    ofLookup lookup = (timeoutOf lookup).map fun timeout =>
      ⟨(nonBlank lookup nodeVariable).getD "node",
        (nonBlank lookup packageVariable).getD "prettier", timeout⟩ := by
  unfold ofLookup timeoutOf
  cases nonBlank lookup timeoutVariable with
  | none => rfl
  | some value => cases readTimeout value <;> rfl

/-- Settings are accepted exactly when the time limit's variable is absent, blank, or holds a number
of seconds in range, and that is the limit. The other variables give the other settings, whatever the
time limit's variable holds. -/
theorem accepted_iff_limits (lookup : String → Option String) :
    (∀ s, ofLookup lookup = .ok s ↔
      Limits (lookup timeoutVariable) s.timeout ∧
        s.node = (nonBlank lookup nodeVariable).getD "node" ∧
        s.package = (nonBlank lookup packageVariable).getD "prettier") ∧
    ((∃ e, ofLookup lookup = .error e) ↔ ∀ limit, ¬ Limits (lookup timeoutVariable) limit) ∧
    ∀ other, (∀ key, key ≠ timeoutVariable → other key = lookup key) →
      ∀ s t, ofLookup lookup = .ok s → ofLookup other = .ok t →
        s.node = t.node ∧ s.package = t.package := by
  have accepted (lookup : String → Option String) (s : Settings) : ofLookup lookup = .ok s ↔
      Limits (lookup timeoutVariable) s.timeout ∧
        s.node = (nonBlank lookup nodeVariable).getD "node" ∧
        s.package = (nonBlank lookup packageVariable).getD "prettier" := by
    rw [← timeoutOf_eq_ok_iff, ofLookup_eq]
    obtain ⟨node, package, limit⟩ := s
    cases timeoutOf lookup with
    | error e => simp [Except.map]
    | ok limit' =>
      simp only [Except.map, Except.ok.injEq, Settings.mk.injEq]
      constructor <;> rintro ⟨rfl, rfl, rfl⟩ <;> exact ⟨rfl, rfl, rfl⟩
  refine ⟨accepted lookup, ?_, ?_⟩
  · simp only [← timeoutOf_eq_ok_iff, ofLookup_eq]
    cases timeoutOf lookup <;> simp [Except.map]
  · intro other same s t read read'
    obtain ⟨_, node, package⟩ := (accepted lookup s).1 read
    obtain ⟨_, node', package'⟩ := (accepted other t).1 read'
    have apart : nodeVariable ≠ timeoutVariable ∧ packageVariable ≠ timeoutVariable := by decide
    rw [node, node', package, package', nonBlank, nonBlank, nonBlank, nonBlank, same _ apart.1,
      same _ apart.2]
    exact ⟨rfl, rfl⟩

/-- Zeros and blanks around the number do not matter, and a number past 64 bits is refused. -/
theorem accepted_iff_limits_edges :
    let lookup (value : String) : String → Option String :=
      fun key => if key = timeoutVariable then some value else none
    ofLookup (lookup "\u2003+00018446744073709551615\n") =
        .ok ⟨"node", "prettier", some 18446744073709551615⟩ ∧
      (∀ limit, ¬ Limits (some "18446744073709551616") limit) ∧
      ∀ s t, ofLookup (lookup "") = .ok s → ofLookup (lookup "1") = .ok t →
        s.node = t.node ∧ s.package = t.package := by
  intro lookup
  have refused : ofLookup (lookup "18446744073709551616") = .error (.notWhole .tooLarge) := by
    decide +kernel
  have limits : Limits (some "\u2003+00018446744073709551615\n") (some 18446744073709551615) :=
    @Limits.seconds _ _ ['\u2003'] _ ['\n'] rfl (by simp [Text.Blanks]; decide)
      (by simp [Text.Blanks]; decide)
      (@InDigits.plus _ "00018446744073709551615".toList (by decide)
        (List.all_eq_true.1 (by decide)) (by decide +kernel))
      (by decide) (by decide)
  refine ⟨((accepted_iff_limits _).1 _).2 ⟨limits, rfl, rfl⟩,
    (accepted_iff_limits (lookup "18446744073709551616")).2.1.1 ⟨_, refused⟩,
    (accepted_iff_limits _).2.2 _ fun key apart => ?_⟩
  simp [lookup, apart]

end Settings

end FormatPreview
