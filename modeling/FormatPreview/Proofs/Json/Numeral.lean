import Mathlib.Data.List.Basic
import Mathlib.Data.List.TakeWhile
import FormatPreview.Json.Numeral

/-!
How numerals are written, part by part, and the numeral of an integer. The digits of a number below
2 ^ 64 are gathered without one left over, so a 64-bit integer is the value of what is written for it.
-/
namespace FormatPreview.Json

/-- Digits alone, and at least one. -/
def Digits (cs : List Char) : Prop := cs ≠ [] ∧ ∀ c ∈ cs, isDigit c = true

namespace Numeral

/-- The text of the digits of a fraction. -/
inductive Fraction : List Char → List Char → Prop where
  | none : Fraction [] []
  | point {digits : List Char} (h : Digits digits) : Fraction digits ('.' :: digits)

/-- The texts of an exponent. -/
inductive Exponent : Option Int → List Char → Prop where
  | none : Exponent none []
  | unsigned {e : Char} {digits : List Char} (letter : e = 'e' ∨ e = 'E') (h : Digits digits) :
      Exponent (some (ofDigits digits)) (e :: digits)
  | plus {e : Char} {digits : List Char} (letter : e = 'e' ∨ e = 'E') (h : Digits digits) :
      Exponent (some (ofDigits digits)) (e :: '+' :: digits)
  | minus {e : Char} {digits : List Char} (letter : e = 'e' ∨ e = 'E') (h : Digits digits) :
      Exponent (some (-ofDigits digits)) (e :: '-' :: digits)

/-- The texts of a numeral. No zero stands before other digits of the whole part. -/
inductive Written : Numeral → List Char → Prop where
  | parts {negative : Bool} {whole fraction fractionText exponentText : List Char}
      {exponent : Option Int} (digits : Digits whole)
      (zero : whole.head? = some '0' → whole = ['0']) (afterPoint : Fraction fraction fractionText)
      (scaled : Exponent exponent exponentText) :
      Written ⟨negative, whole, fraction, exponent⟩
        ((if negative then ['-'] else []) ++ (whole ++ (fractionText ++ exponentText)))

theorem not_digits_of_sign {c : Char} {cs : List Char} (sign : c = '-' ∨ c = '+') :
    ¬ Digits (c :: cs) := by
  rintro ⟨-, digits⟩
  have := digits c (by simp)
  rcases sign with rfl | rfl <;> revert this <;> decide

theorem exponent?_eq_some_iff {e : Char} (letter : e = 'e' ∨ e = 'E') {cs : List Char} {k : Int} :
    exponent? cs = some k ↔ Exponent (some k) (e :: cs) := by
  have digits : ∀ {ds : List Char}, (ds ≠ [] ∧ ds.all isDigit = true) ↔ Digits ds := by
    simp [Digits]
  constructor
  · intro h
    unfold exponent? at h
    split at h
    next negative ds parts =>
    split at h
    · next some =>
      obtain rfl := Option.some.inj h
      split at parts
      all_goals
        obtain ⟨rfl, rfl⟩ := Prod.mk.inj parts
      · exact .minus letter (digits.1 some)
      · exact .plus letter (digits.1 some)
      · exact .unsigned letter (digits.1 some)
    · cases h
  · intro written
    cases written with
    | unsigned _ h =>
      unfold exponent?
      split
      next negative ds parts =>
      split at parts
      · exact absurd h (not_digits_of_sign (.inl rfl))
      · exact absurd h (not_digits_of_sign (.inr rfl))
      · obtain ⟨rfl, rfl⟩ := Prod.mk.inj parts
        rw [if_pos (digits.2 h)]
        rfl
    | plus _ h => exact if_pos (digits.2 h)
    | minus _ h => exact if_pos (digits.2 h)

theorem finish_eq_some_iff {negative : Bool} {whole fraction cs : List Char} {n : Numeral} :
    finish negative whole fraction cs = some n ↔
      ∃ exponent, Exponent exponent cs ∧ n = ⟨negative, whole, fraction, exponent⟩ := by
  cases cs with
  | nil =>
    rw [finish, Option.some.injEq]
    constructor
    · rintro rfl
      exact ⟨none, .none, rfl⟩
    · rintro ⟨_, ⟨⟩, rfl⟩
      rfl
  | cons c rest =>
    rw [finish]
    split
    · next letter =>
      rw [Option.map_eq_some_iff]
      constructor
      · rintro ⟨k, read, rfl⟩
        exact ⟨some k, (exponent?_eq_some_iff letter).1 read, rfl⟩
      · rintro ⟨exponent, written, rfl⟩
        cases exponent with
        | none => cases written
        | some k => exact ⟨k, (exponent?_eq_some_iff letter).2 written, rfl⟩
    · next other =>
      refine ⟨fun read => by simp at read, ?_⟩
      rintro ⟨_, written, -⟩
      cases written with
      | unsigned letter | plus letter | minus letter => exact absurd letter other

/-- Digits are a run of them when no digit follows. -/
theorem run_digits {digits rest : List Char} (all : ∀ c ∈ digits, isDigit c = true)
    (stop : ∀ c ∈ rest.head?, isDigit c = false) :
    (digits ++ rest).takeWhile isDigit = digits ∧ (digits ++ rest).dropWhile isDigit = rest := by
  rw [List.takeWhile_append_of_pos all, List.dropWhile_append_of_pos all]
  cases rest with
  | nil => simp
  | cons c rest =>
    have other : isDigit c = false := stop c rfl
    simp [other]

theorem digits_takeWhile {cs : List Char} (some : cs.takeWhile isDigit ≠ []) :
    Digits (cs.takeWhile isDigit) :=
  ⟨some, fun _ mem => List.mem_takeWhile_imp mem⟩

theorem written_of_ofChars? {cs : List Char} {n : Numeral} (read : ofChars? cs = some n) :
    Written n cs := by
  unfold ofChars? at read
  split at read
  next negative digits parts =>
  have signed : cs = (if negative then ['-'] else []) ++ digits := by
    split at parts <;> obtain ⟨rfl, rfl⟩ := Prod.mk.inj parts <;> rfl
  rw [signed, ← List.takeWhile_append_dropWhile (p := isDigit) (l := digits)]
  simp only at read
  split at read
  · cases read
  · next allowed =>
    obtain ⟨some, zero⟩ := not_or.1 allowed
    have zero' : (digits.takeWhile isDigit).head? = .some '0' → digits.takeWhile isDigit = ['0'] :=
      fun first => by_contra fun more => zero ⟨first, more⟩
    split at read
    · next rest after =>
      split at read
      · cases read
      · next more =>
        obtain ⟨exponent, scaled, rfl⟩ := finish_eq_some_iff.1 read
        have fraction : digits.dropWhile isDigit =
            ('.' :: rest.takeWhile isDigit) ++ rest.dropWhile isDigit := by
          rw [after, List.cons_append, List.takeWhile_append_dropWhile]
        rw [fraction]
        exact .parts (digits_takeWhile some) zero' (.point (digits_takeWhile more)) scaled
    · next rest other =>
      obtain ⟨exponent, scaled, rfl⟩ := finish_eq_some_iff.1 read
      exact .parts (digits_takeWhile some) zero' .none scaled

theorem head_exponent {exponent : Option Int} {cs : List Char} (scaled : Exponent exponent cs) :
    ∀ c ∈ cs.head?, isDigit c = false ∧ c ≠ '.' := by
  have letters : ∀ e : Char, e = 'e' ∨ e = 'E' → isDigit e = false ∧ e ≠ '.' := by
    rintro e (rfl | rfl) <;> decide
  cases scaled with
  | none => simp
  | unsigned letter | plus letter | minus letter => simpa using letters _ letter

theorem ofChars?_of_written {cs : List Char} {n : Numeral} (written : Written n cs) :
    ofChars? cs = some n := by
  cases written with
  | @parts negative whole fraction fractionText exponentText exponent digits zero afterPoint scaled =>
    have stop : ∀ c ∈ (fractionText ++ exponentText).head?, isDigit c = false := by
      cases afterPoint with
      | none => exact fun c first => (head_exponent scaled c first).1
      | point => simp; decide
    have allowed : ¬ (whole = [] ∨ (whole.head? = some '0' ∧ whole ≠ ['0'])) :=
      not_or.2 ⟨digits.1, fun ⟨first, more⟩ => more (zero first)⟩
    obtain ⟨run, rest⟩ := run_digits digits.2 stop
    unfold ofChars?
    split
    next negative' cs' parts =>
    have signed : (negative, whole ++ (fractionText ++ exponentText)) = (negative', cs') := by
      rw [← parts]
      cases negative with
      | true => rfl
      | false =>
        split
        · next same =>
          cases whole with
          | nil => exact absurd rfl digits.1
          | cons c whole =>
            obtain ⟨rfl, -⟩ := List.cons.inj same
            exact absurd digits (not_digits_of_sign (.inl rfl))
        · rfl
    obtain ⟨rfl, rfl⟩ := Prod.mk.inj signed
    have read : finish negative whole fraction exponentText =
        some ⟨negative, whole, fraction, exponent⟩ := finish_eq_some_iff.2 ⟨exponent, scaled, rfl⟩
    simp only [run, rest, if_neg allowed]
    cases afterPoint with
    | none =>
      rw [List.nil_append]
      split
      · exact absurd rfl (head_exponent scaled '.' rfl).2
      · exact read
    | @point digits more =>
      obtain ⟨run, rest⟩ := run_digits more.2 fun c first => (head_exponent scaled c first).1
      simp only [List.cons_append, run, rest, if_neg more.1, read]

theorem ofChars?_eq_some_iff {cs : List Char} {n : Numeral} :
    ofChars? cs = some n ↔ Written n cs :=
  ⟨written_of_ofChars?, ofChars?_of_written⟩

end Numeral

/-! Integers. -/

theorem isDigit_of_mem {n : Nat} {c : Char} (mem : c ∈ Nat.toDigits 10 n) : isDigit c = true :=
  Nat.isDigit_of_mem_toDigits (by decide) (by decide) mem

/-- Only zero begins with the digit zero. -/
theorem eq_zero_of_head?_toDigits {n : Nat} (zero : (Nat.toDigits 10 n).head? = some '0') :
    n = 0 := by
  have only : ∀ d < 10, d.digitChar = '0' → d = 0 := by decide
  induction n using Nat.strongRecOn with
  | ind n ih =>
    rw [Nat.toDigits_eq_if (by decide)] at zero
    split at zero
    · next one => exact only n one (by simpa using zero)
    · next more =>
      rw [List.head?_append_of_ne_nil _ Nat.toDigits_ne_nil] at zero
      have none : n / 10 = 0 := ih (n / 10) (by omega) zero
      omega

namespace Numeral

theorem le_ofDigitChars (n : Nat) (digits : List Char) : n ≤ Nat.ofDigitChars 10 digits n := by
  induction digits generalizing n with
  | nil => exact Nat.le_refl n
  | cons c rest ih =>
    rw [Nat.ofDigitChars_cons]
    exact Nat.le_trans (by omega) (ih _)

theorem gather_of_lt {n : Nat} {digits : List Char}
    (small : Nat.ofDigitChars 10 digits n < Nat.pow 2 64) :
    gather n digits = (Nat.ofDigitChars 10 digits n, []) := by
  induction digits generalizing n with
  | nil => rfl
  | cons c rest ih =>
    have next : n * 10 + digitValue c = 10 * n + (c.toNat - '0'.toNat) := by
      rw [digitValue, Nat.mul_comm]
    rw [Nat.ofDigitChars_cons, ← next] at small ⊢
    have fits : n * 10 + digitValue c < Nat.pow 2 64 :=
      Nat.lt_of_le_of_lt (le_ofDigitChars _ rest) small
    rw [gather, if_pos fits, ih small]

theorem written_digits (negative : Bool) (n : Nat) :
    Written ⟨negative, Nat.toDigits 10 n, [], none⟩
      ((if negative then ['-'] else []) ++ Nat.toDigits 10 n) := by
  have digits : Digits (Nat.toDigits 10 n) :=
    ⟨Nat.toDigits_ne_nil, fun _ mem => isDigit_of_mem mem⟩
  have zero : (Nat.toDigits 10 n).head? = some '0' → Nat.toDigits 10 n = ['0'] := by
    intro first
    rw [eq_zero_of_head?_toDigits first]
    rfl
  have parts : Written ⟨negative, Nat.toDigits 10 n, [], none⟩
      ((if negative then ['-'] else []) ++ (Nat.toDigits 10 n ++ ([] ++ []))) :=
    .parts digits zero .none .none
  simpa using parts

theorem value?_digits {negative : Bool} {n : Nat} (small : n < Nat.pow 2 64)
    (range : negative = false ∨ (0 < n ∧ n ≤ Nat.pow 2 63)) :
    value? ⟨negative, Nat.toDigits 10 n, [], none⟩ =
      some (.integer (if negative then -n else n)) := by
  have gathered : gather 0 (Nat.toDigits 10 n) = (n, []) := by
    rw [gather_of_lt] <;> rw [Nat.ofDigitChars_ten_toDigits]
    exact small
  rw [value?, gathered]
  exact if_pos ⟨rfl, rfl, rfl, range⟩

end Numeral

theorem toList_toString (n : Int) :
    (toString n).toList = (if n < 0 then ['-'] else []) ++ Nat.toDigits 10 n.natAbs := by
  cases n with
  | ofNat n => simp [toString, Int.repr]
  | negSucc n => simp [toString, Int.repr]

/-- An integer of 64 bits, with or without a sign. -/
def Fits (n : Int) : Prop := -0x8000000000000000 ≤ n ∧ n < 0x10000000000000000

instance (n : Int) : Decidable (Fits n) := inferInstanceAs (Decidable (_ ∧ _))

/-- The text of a 64-bit integer is a numeral and means it. -/
theorem exists_numeral {n : Int} (fits : Fits n) :
    ∃ numeral : Numeral, numeral.Written (toString n).toList ∧ numeral.value? = some (.integer n) := by
  obtain ⟨low, high⟩ := fits
  have small : n.natAbs < Nat.pow 2 64 := by
    change n.natAbs < 0x10000000000000000
    omega
  refine ⟨⟨decide (n < 0), Nat.toDigits 10 n.natAbs, [], none⟩, ?_, ?_⟩
  · rw [toList_toString]
    simpa using Numeral.written_digits (decide (n < 0)) n.natAbs
  · by_cases negative : n < 0
    · have value : -(n.natAbs : Int) = n := by omega
      have range : 0 < n.natAbs ∧ n.natAbs ≤ Nat.pow 2 63 := by
        change 0 < n.natAbs ∧ n.natAbs ≤ 0x8000000000000000
        omega
      rw [Numeral.value?_digits small (.inr range), if_pos (decide_eq_true negative), value]
    · have value : (n.natAbs : Int) = n := by omega
      have plain : decide (n < 0) = false := decide_eq_false negative
      rw [plain, Numeral.value?_digits small (.inl rfl), if_neg Bool.false_ne_true, value]

end FormatPreview.Json
