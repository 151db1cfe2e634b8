import Mathlib.Data.List.Forall2
import FormatPreview.Style
import FormatPreview.Proofs.Text.Line

/-!
Styled texts without their codes. A text that holds no escape character shows itself under every
style: once the codes are deleted, what is left is the text. Showing is said of a text with anything
after it, so that it carries over to texts put together.
-/
namespace FormatPreview.Style

/-- What comes after the code that the characters begin with: an escape character, a bracket, digits
and semicolons, and the letter `m`. -/
def afterCode? : List Char → Option (List Char)
  | '\x1b' :: '[' :: rest =>
    match rest.dropWhile fun c => c.isDigit || c = ';' with
    | 'm' :: after => some after
    | _ => none
  | _ => none

theorem length_afterCode? {cs after : List Char} (code : afterCode? cs = some after) :
    after.length < cs.length := by
  unfold afterCode? at code
  split at code
  · next rest =>
    split at code
    · next found ended =>
      obtain rfl := Option.some.inj code
      have bound := (List.dropWhile_suffix (l := rest) fun c => c.isDigit || c = ';').length_le
      simp only [ended, List.length_cons] at *
      omega
    · simp at code
  · simp at code

/-- The characters without the codes among them. -/
def withoutCodes : List Char → List Char
  | [] => []
  | c :: rest =>
    match _code : afterCode? (c :: rest) with
    | some after => withoutCodes after
    | none => c :: withoutCodes rest
termination_by cs => cs.length
decreasing_by
  · exact length_afterCode? ‹_›
  · simp

@[simp] theorem withoutCodes_nil : withoutCodes [] = [] := by
  simp [withoutCodes]

theorem withoutCodes_of_code {cs after : List Char} (code : afterCode? cs = some after) :
    withoutCodes cs = withoutCodes after := by
  cases cs with
  | nil => simp [afterCode?] at code
  | cons c rest =>
    rw [withoutCodes]
    split
    · next found here => rw [Option.some.inj (here.symm.trans code)]
    · next none => simp [none] at code

theorem withoutCodes_cons {c : Char} (free : c ≠ escape) (rest : List Char) :
    withoutCodes (c :: rest) = c :: withoutCodes rest := by
  have none : afterCode? (c :: rest) = none := by
    unfold afterCode?
    split
    · next same => exact absurd (List.cons.inj same).1 free
    · rfl
  rw [withoutCodes]
  split
  · next code => simp [none] at code
  · rfl

theorem withoutCodes_append {cs : List Char} (free : escape ∉ cs) (rest : List Char) :
    withoutCodes (cs ++ rest) = cs ++ withoutCodes rest := by
  induction cs with
  | nil => rfl
  | cons c cs ih =>
    rw [List.mem_cons, not_or] at free
    rw [List.cons_append, withoutCodes_cons (Ne.symm free.1), ih free.2, List.cons_append]

/-- The text holds no escape character. -/
def Unstyled (text : String) : Prop := escape ∉ text.toList

instance (text : String) : Decidable (Unstyled text) := inferInstanceAs (Decidable (¬ _))

@[simp] theorem unstyled_append (first second : String) :
    Unstyled (first ++ second) ↔ Unstyled first ∧ Unstyled second := by
  simp [Unstyled, not_or]

@[simp] theorem unstyled_join (texts : List String) :
    Unstyled (String.join texts) ↔ ∀ text ∈ texts, Unstyled text := by
  simp [Unstyled, String.toList_join]

@[simp] theorem unstyled_repr (n : Nat) : Unstyled n.repr := by
  intro mem
  have digit := Text.isDigit_of_mem_toString mem
  simp [escape] at digit

theorem unstyled_joinWith (texts : List String) :
    Unstyled (Text.joinWith "\n" texts) ↔ ∀ text ∈ texts, Unstyled text := by
  induction texts with
  | nil => simp [Text.joinWith, Unstyled]
  | cons text texts ih =>
    cases texts with
    | nil => simp [Text.joinWith]
    | cons next texts =>
      have feed : Unstyled "\n" := by decide
      rw [Text.joinWith] at ih
      simp [Text.joinWith, String.intercalate_cons_cons, feed, ih]

/-- Without codes the styled text is the plain one, whatever stands after it. -/
def Shows (styled plain : String) : Prop :=
  ∀ rest, withoutCodes (styled.toList ++ rest) = plain.toList ++ withoutCodes rest

theorem Shows.eq {styled plain : String} (shows : Shows styled plain) :
    withoutCodes styled.toList = plain.toList := by
  simpa using shows []

theorem shows_self {text : String} (free : Unstyled text) : Shows text text := fun rest =>
  withoutCodes_append free rest

theorem Shows.append {styled plain styled' plain' : String} (first : Shows styled plain)
    (second : Shows styled' plain') : Shows (styled ++ styled') (plain ++ plain') := by
  intro rest
  rw [String.toList_append, String.toList_append, List.append_assoc, first, second,
    List.append_assoc]

theorem shows_join {styled plain : List String} (each : List.Forall₂ Shows styled plain) :
    Shows (String.join styled) (String.join plain) := by
  induction each with
  | nil => exact shows_self (by decide)
  | cons here _ ih =>
    rw [String.join_cons, String.join_cons]
    exact here.append ih

theorem shows_joinWith {styled plain : List String} (each : List.Forall₂ Shows styled plain) :
    Shows (Text.joinWith "\n" styled) (Text.joinWith "\n" plain) := by
  induction each with
  | nil => exact shows_self (by decide)
  | cons here rest ih =>
    cases rest with
    | nil => simpa [Text.joinWith] using here
    | cons next rest =>
      simp only [Text.joinWith, String.intercalate_cons_cons] at *
      exact (here.append (shows_self (by decide))).append ih

@[simp] theorem paint_off (s : Style) (text : String) : s.paint false text = text := rfl

/-- A text without escape characters is styled by the code before it and the reset after it. -/
theorem paint_on (s : Style) {text : String} (free : Unstyled text) :
    s.paint true text = String.ofList (s.start ++ text.toList ++ reset) := by
  have same : ∀ cs : List Char, escape ∉ cs → s.resume cs = cs := by
    intro cs free
    fun_induction resume s cs with
    | case1 rest ih => exact absurd (List.mem_cons_self ..) free
    | case2 c rest _ ih => rw [ih fun mem => free (List.mem_cons_of_mem c mem)]
    | case3 => rfl
  rw [paint, if_pos rfl, same _ free]

theorem afterCode?_start (s : Style) (rest : List Char) :
    afterCode? (s.start ++ rest) = some rest := by
  cases s <;> simp [afterCode?, start, code, escape]

theorem afterCode?_reset (rest : List Char) : afterCode? (reset ++ rest) = some rest := by
  simp [afterCode?, reset, escape]

theorem shows_paint (s : Style) (on : Bool) {text : String} (free : Unstyled text) :
    Shows (s.paint on text) text := by
  cases on with
  | false => exact shows_self free
  | true =>
    intro rest
    -- No code begins between the start and the reset, which are one code each.
    rw [paint_on s free, String.toList_ofList, List.append_assoc, List.append_assoc,
      withoutCodes_of_code (afterCode?_start s _), shows_self free,
      withoutCodes_of_code (afterCode?_reset rest)]

end FormatPreview.Style
