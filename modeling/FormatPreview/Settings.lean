import FormatPreview.Text.Blank

/-!
Settings from environment variables. A variable with a blank value counts as unset. The time limit
is a whole number of seconds that fits 64 bits and is not zero.
-/
namespace FormatPreview

/-- Why a text is no 64-bit number. -/
inductive IntegerError where
  | invalidDigit
  | tooLarge
deriving DecidableEq

def IntegerError.message : IntegerError → String
  | .invalidDigit => "invalid digit found in string"
  | .tooLarge => "number too large to fit in target type"

/-- Digits appended to a number. Of the two errors the one met first counts, and in one place the
digit is looked at first. -/
def readDigits (n : Nat) : List Char → Except IntegerError Nat
  | [] => .ok n
  | c :: rest =>
    if '0' ≤ c ∧ c ≤ '9' then
      let next := n * 10 + (c.toNat - '0'.toNat)
      if next < Nat.pow 2 64 then readDigits next rest else .error .tooLarge
    else .error .invalidDigit

/-- A 64-bit number in decimal digits, with an optional plus sign. -/
def readNumber (cs : List Char) : Except IntegerError Nat :=
  match cs with
  | [] | ['+'] => .error .invalidDigit
  | '+' :: digits => readDigits 0 digits
  | digits => readDigits 0 digits

structure Settings where
  node : String
  package : String
  /-- The time limit of a check in seconds. -/
  timeout : Option Nat
deriving DecidableEq

namespace Settings

def nodeVariable : String := "PRETTIER_DIFFCHECK_NODE"

def packageVariable : String := "PRETTIER_DIFFCHECK_PRETTIER"

def timeoutVariable : String := "PRETTIER_DIFFCHECK_TIMEOUT_SECS"

inductive Error where
  | notWhole (cause : IntegerError)
  | zero
deriving DecidableEq

def Error.message : Error → String
  | .notWhole cause => timeoutVariable ++ " must be a whole number of seconds: " ++ cause.message
  | .zero => timeoutVariable ++ " must be greater than zero"

/-- The value of a variable, unless it is blank. -/
def nonBlank (lookup : String → Option String) (key : String) : Option String :=
  (lookup key).filter fun value => !Text.blank value

def readTimeout (value : String) : Except Error Nat :=
  match readNumber (Text.trimChars value.toList) with
  | .error cause => .error (.notWhole cause)
  | .ok 0 => .error .zero
  | .ok seconds => .ok seconds

def ofLookup (lookup : String → Option String) : Except Error Settings := do
  let timeout ← match nonBlank lookup timeoutVariable with
    | none => .ok none
    | some value => (readTimeout value).map some
  return {
    node := (nonBlank lookup nodeVariable).getD "node"
    package := (nonBlank lookup packageVariable).getD "prettier"
    timeout := timeout }

end Settings

end FormatPreview
