import FormatPreview.Proofs.Bridge
import FormatPreview.Proofs.Json.Meaning

/-!
Which answers of the process are taken. An answer is taken if it is one text of a document that
stands for a reply of success, and the value in it is of the kind asked for. Every other answer is a
failure with the text for what is wrong with it.
-/
namespace FormatPreview.Bridge

open Json

/-! What a document stands for. -/

/-- The values of all members with a key, in their order. -/
def named (key : String) (members : List (List Glyph × Document)) : List Document :=
  members.filterMap fun member => if glyphText? member.1 = some key then some member.2 else none

/-- What is given at most once, and what it is by default. -/
inductive Given {α : Type} (means : Document → α → Prop) (default : α) : List Document → α → Prop where
  | absent : Given means default [] default
  | once {d : Document} {a : α} (h : means d a) : Given means default [d] a

/-- The value of a reply, within the reply as a container. -/
def ValueMeans (d : Document) (value : Json) : Prop := d.Means (maxLevels - 1) value

inductive ErrorMeans : Document → Option String → Prop where
  | null : ErrorMeans .null none
  | text {glyphs : List Glyph} {s : String} (h : Mean glyphs s.toList) :
      ErrorMeans (.text glyphs) (some s)

/-- The documents that stand for a reply: a record with one flag for success and at most one value
and one error text among members whose keys all mean something, or a list of the three. -/
inductive Replies : Document → Reply → Prop where
  | record {members : List (List Glyph × Document)} {ok : Bool} {value : Json}
      {error : Option String} (legible : ∀ member ∈ members, ∃ cs, Mean member.1 cs)
      (flag : named "ok" members = [.bool ok])
      (valued : Given ValueMeans .null (named "value" members) value)
      (explained : Given ErrorMeans none (named "error" members) error) :
      Replies (.record members) ⟨ok, value, error⟩
  | list {ok : Bool} {rest : List Document} {value : Json} {error : Option String}
      (valued : Given ValueMeans .null (rest.take 1) value)
      (explained : Given ErrorMeans none (rest.drop 1) error) :
      Replies (.list (.bool ok :: rest)) ⟨ok, value, error⟩

/-- The bytes are one document, with blanks at most around it, that stands for the reply. -/
def Says (bytes : List UInt8) (r : Reply) : Prop :=
  ∃ d : Document, d.Written (Text.symbols bytes) ∧ Replies d r

/-! Members found one by one. -/

/-- What is known of a field before and after some of its values. None may be given twice. -/
inductive Found {α : Type} (read : Document → Option α) : Option α → List Document → Option α → Prop
    where
  | none {before : Option α} : Found read before [] before
  | one {d : Document} {a : α} (h : read d = some a) : Found read .none [d] (some a)

section Fields

variable {α : Type} {read : Document → Option α}

theorem found_nil_iff {before after : Option α} : Found read before [] after ↔ before = after := by
  constructor
  · rintro ⟨⟩
    rfl
  · rintro rfl
    exact .none

theorem found_one_iff {before after : Option α} {d : Document} :
    Found read before [d] after ↔ before = none ∧ ∃ a, read d = some a ∧ some a = after := by
  constructor
  · rintro ⟨⟩
    next h => exact ⟨rfl, _, h, rfl⟩
  · rintro ⟨rfl, a, h, rfl⟩
    exact .one h

theorem found_append_iff {before after : Option α} {docs docs' : List Document} :
    Found read before (docs ++ docs') after ↔
      ∃ between, Found read before docs between ∧ Found read between docs' after := by
  constructor
  · intro found
    cases docs with
    | nil => exact ⟨before, .none, found⟩
    | cons d rest =>
      generalize all : d :: rest ++ docs' = docs'' at found
      cases found with
      | none => cases all
      | one h =>
        obtain ⟨rfl, empty⟩ := List.cons.inj all
        obtain ⟨rfl, rfl⟩ := List.append_eq_nil_iff.1 empty
        exact ⟨_, .one h, .none⟩
  · rintro ⟨between, first, second⟩
    cases first with
    | none => exact second
    | one h =>
      cases second with
      | none => exact .one h

end Fields

/-- A member with a key adds its value to those with this key. -/
theorem named_cons (key : String) (member : List Glyph × Document)
    (rest : List (List Glyph × Document)) :
    named key (member :: rest) = named key [member] ++ named key rest := by
  rw [named, named, named, ← List.filterMap_append, List.singleton_append]

theorem add?_eq_some_iff {f f' : Reply.Fields} {member : List Glyph × Document} :
    f.add? member = some f' ↔ (glyphText? member.1).isSome ∧
      Found Reply.flag? f.ok (named "ok" [member]) f'.ok ∧
      Found Reply.value? f.value (named "value" [member]) f'.value ∧
      Found Reply.error? f.error (named "error" [member]) f'.error := by
  obtain ⟨ok, value, error⟩ := f
  obtain ⟨ok', value', error'⟩ := f'
  cases key : glyphText? member.1 with
  | none => simp [Reply.Fields.add?, key]
  | some s =>
    simp only [Reply.Fields.add?, named, key, List.filterMap_cons, List.filterMap_nil,
      Option.some.injEq, Option.isSome_some, true_and, Option.bind_eq_bind, Option.bind_some]
    split
    · cases ok with
      | none => grind [found_nil_iff, found_one_iff, Option.bind_eq_some_iff]
      | some => simp [found_one_iff]
    · cases value with
      | none => grind [found_nil_iff, found_one_iff, Option.bind_eq_some_iff]
      | some => simp [found_one_iff]
    · cases error with
      | none => grind [found_nil_iff, found_one_iff, Option.bind_eq_some_iff]
      | some => simp [found_one_iff]
    · next flag value error =>
      simp [if_neg flag, if_neg value, if_neg error, found_nil_iff]

/-- The members are gone through if all their keys mean something and each field is found. -/
theorem foldlM_add?_eq_some_iff {members : List (List Glyph × Document)} {f f' : Reply.Fields} :
    members.foldlM Reply.Fields.add? f = some f' ↔
      (∀ member ∈ members, (glyphText? member.1).isSome) ∧
      Found Reply.flag? f.ok (named "ok" members) f'.ok ∧
      Found Reply.value? f.value (named "value" members) f'.value ∧
      Found Reply.error? f.error (named "error" members) f'.error := by
  induction members generalizing f with
  | nil =>
    obtain ⟨ok, value, error⟩ := f
    obtain ⟨ok', value', error'⟩ := f'
    simp [named, found_nil_iff]
  | cons member rest ih =>
    rw [List.foldlM_cons, Option.bind_eq_bind, Option.bind_eq_some_iff, List.forall_mem_cons,
      named_cons "ok", named_cons "value", named_cons "error"]
    simp only [add?_eq_some_iff, ih, found_append_iff]
    constructor
    · rintro ⟨g, ⟨here, ok, value, error⟩, there, ok', value', error'⟩
      exact ⟨⟨here, there⟩, ⟨_, ok, ok'⟩, ⟨_, value, value'⟩, ⟨_, error, error'⟩⟩
    · rintro ⟨⟨here, there⟩, ⟨ok, first, ok'⟩, ⟨value, second, value'⟩, ⟨error, third, error'⟩⟩
      exact ⟨⟨ok, value, error⟩, ⟨here, first, second, third⟩, there, ok', value', error'⟩

/-! Documents of replies. -/

theorem given_iff_found {α : Type} {means : Document → α → Prop} {read : Document → Option α}
    (same : ∀ d a, read d = some a ↔ means d a) {default a : α} {docs : List Document} :
    Given means default docs a ↔ ∃ after, Found read none docs after ∧ after.getD default = a := by
  constructor
  · rintro (_ | h)
    · exact ⟨none, .none, rfl⟩
    · exact ⟨some a, .one ((same _ _).2 h), rfl⟩
  · rintro ⟨after, _ | h, rfl⟩
    · exact .absent
    · exact .once ((same _ _).1 h)

theorem flag?_eq_some_iff {d : Document} {b : Bool} : Reply.flag? d = some b ↔ d = .bool b := by
  cases d <;> simp [Reply.flag?]

theorem replyValue?_eq_some_iff (d : Document) (value : Json) :
    Reply.value? d = some value ↔ ValueMeans d value :=
  Document.value?_eq_some_iff

theorem error?_eq_some_iff (d : Document) (error : Option String) :
    Reply.error? d = some error ↔ ErrorMeans d error := by
  constructor
  · intro read
    cases d with
    | null =>
      obtain rfl := Option.some.inj read
      exact .null
    | text glyphs =>
      obtain ⟨s, found, rfl⟩ := Option.map_eq_some_iff.1 read
      exact .text (glyphText?_eq_some_iff.1 found)
    | _ => cases read
  · rintro (_ | h)
    · rfl
    · rw [Reply.error?, glyphText?_eq_some_iff.2 h, Option.map_some]

theorem legible_iff {glyphs : List Glyph} :
    (glyphText? glyphs).isSome ↔ ∃ cs, Mean glyphs cs := by
  rw [Option.isSome_iff_exists]
  constructor
  · rintro ⟨s, read⟩
    exact ⟨s.toList, glyphText?_eq_some_iff.1 read⟩
  · rintro ⟨cs, mean⟩
    exact ⟨String.ofList cs, glyphText?_eq_some_iff.2 (by simpa using mean)⟩

theorem record_eq_some_iff {members : List (List Glyph × Document)} {r : Reply} :
    Reply.ofDocument? (.record members) = some r ↔ Replies (.record members) r := by
  rw [Reply.ofDocument?, Option.bind_eq_bind, Option.bind_eq_some_iff]
  constructor
  · rintro ⟨⟨ok, value, error⟩, run, flagged⟩
    obtain ⟨legible, first, second, third⟩ := foldlM_add?_eq_some_iff.1 run
    obtain ⟨b, rfl, rfl⟩ := Option.map_eq_some_iff.1 flagged
    refine .record (fun member mem => legible_iff.1 (legible member mem)) ?_
      ((given_iff_found replyValue?_eq_some_iff).2 ⟨value, second, rfl⟩)
      ((given_iff_found error?_eq_some_iff).2 ⟨error, third, rfl⟩)
    generalize named "ok" members = flags at first
    cases first with
    | one h => rw [flag?_eq_some_iff.1 h]
  · rintro (⟨legible, flag, valued, explained⟩ | _)
    obtain ⟨value, second, rfl⟩ := (given_iff_found replyValue?_eq_some_iff).1 valued
    obtain ⟨error, third, rfl⟩ := (given_iff_found error?_eq_some_iff).1 explained
    refine ⟨⟨some _, value, error⟩, foldlM_add?_eq_some_iff.2 ⟨?_, ?_, second, third⟩, rfl⟩
    · exact fun member mem => legible_iff.2 (legible member mem)
    · rw [flag]
      exact .one rfl

theorem list_eq_some_iff {items : List Document} {r : Reply} :
    Reply.ofDocument? (.list items) = some r ↔ Replies (.list items) r := by
  constructor
  · intro read
    rcases items with _ | ⟨d, _ | ⟨d', _ | ⟨d'', _ | ⟨_, _⟩⟩⟩⟩
    all_goals simp only [Reply.ofDocument?, Option.bind_eq_bind, Option.bind_eq_some_iff,
      Option.pure_def, Option.some.injEq, reduceCtorEq] at read
    · obtain ⟨ok, flag, rfl⟩ := read
      obtain rfl := flag?_eq_some_iff.1 flag
      exact .list .absent .absent
    · obtain ⟨ok, flag, value, valued, rfl⟩ := read
      obtain rfl := flag?_eq_some_iff.1 flag
      exact .list (.once ((replyValue?_eq_some_iff _ _).1 valued)) .absent
    · obtain ⟨ok, flag, value, valued, error, explained, rfl⟩ := read
      obtain rfl := flag?_eq_some_iff.1 flag
      exact .list (.once ((replyValue?_eq_some_iff _ _).1 valued))
        (.once ((error?_eq_some_iff _ _).1 explained))
  · rintro (_ | @⟨ok, rest, value, error, valued, explained⟩)
    rcases rest with _ | ⟨d, _ | ⟨d', _ | ⟨_, _⟩⟩⟩
    · cases valued
      cases explained
      rfl
    · cases explained
      rcases valued with _ | h
      simp [Reply.ofDocument?, Reply.flag?, (replyValue?_eq_some_iff _ _).2 h]
    · rcases valued with _ | h
      rcases explained with _ | h'
      simp [Reply.ofDocument?, Reply.flag?, (replyValue?_eq_some_iff _ _).2 h,
        (error?_eq_some_iff _ _).2 h']
    · cases explained

theorem ofDocument?_eq_some_iff {d : Document} {r : Reply} :
    Reply.ofDocument? d = some r ↔ Replies d r := by
  cases d with
  | record => exact record_eq_some_iff
  | list => exact list_eq_some_iff
  | _ =>
    refine ⟨fun read => ?_, ?_⟩
    · cases read
    · rintro ⟨⟩

theorem ofBytes?_eq_some_iff {bytes : List UInt8} {r : Reply} :
    Reply.ofBytes? bytes = some r ↔ Says bytes r := by
  simp only [Reply.ofBytes?, Option.bind_eq_some_iff, Document.ofBytes?_eq_some_iff,
    ofDocument?_eq_some_iff, Says]

theorem not_said_nil (r : Reply) : ¬ Says [] r := by
  rw [← ofBytes?_eq_some_iff]
  simp [Reply.ofBytes?, Document.ofBytes?, Document.ofSymbols?, Text.symbols, Text.symbolsFrom,
    tokens?, Document.ofTokens?]

/-! Exchanges. -/

/-- The value of the reply of success that an exchange ends with. -/
inductive Yields : Exchange → Json → Prop where
  | said {out : Output} {r : Reply} (said : Says out.stdout r) (flag : r.ok = true) :
      Yields (.ended out) r.value

/-- What is wrong with an exchange that ends with no reply of success. How the process ended and its
error output tell it only where there is no answer at all. -/
inductive Refuses (node : String) : Exchange → Failure → Prop where
  | broken (failure : Failure) : Refuses node (.broken failure) failure
  | silent {out : Output} (h : out.stdout = []) :
      Refuses node (.ended out) (.of (node ++ " exited with " ++ out.status.text ++ ": " ++
        Text.trim (Text.decodeLossy out.stderr)))
  | unreadable {out : Output} (answered : out.stdout ≠ []) (unsaid : ∀ r, ¬ Says out.stdout r) :
      Refuses node (.ended out) (.of "unexpected output from prettier bridge")
  | failed {out : Output} {r : Reply} (said : Says out.stdout r) (flag : r.ok = false) :
      Refuses node (.ended out) (.of (r.error.getD "prettier failed without a message"))

/-- What may come of an exchange whose value, if it has one, is taken or turned down. -/
structure Decides {α : Type} (node : String) (exchange : Exchange) (takes : Json → α → Prop)
    (declines : Json → Failure → Prop) (ending : Ending α) : Prop where
  done : ∀ a, ending = .done a ↔ ∃ value, Yields exchange value ∧ takes value a
  failed : ∀ f, ending = .failed f ↔
    Refuses node exchange f ∨ ∃ value, Yields exchange value ∧ declines value f
  ends : ∀ payload, ending ≠ .panicked payload

section Outputs

variable {node : String} {out : Output}

theorem result_of_said {r : Reply} (said : Says out.stdout r) : out.result node = r.result := by
  have answered : out.stdout.isEmpty = false := by
    rw [List.isEmpty_eq_false_iff]
    intro silent
    exact not_said_nil r (silent ▸ said)
  rw [Output.result, answered, ofBytes?_eq_some_iff.2 said]
  rfl

theorem result_silent (silent : out.stdout = []) :
    out.result node = .error (.of (node ++ " exited with " ++ out.status.text ++ ": " ++
      Text.trim (Text.decodeLossy out.stderr))) := by
  rw [Output.result, if_pos (List.isEmpty_iff.2 silent)]

theorem result_unreadable (answered : out.stdout ≠ []) (unsaid : ∀ r, ¬ Says out.stdout r) :
    out.result node = .error (.of "unexpected output from prettier bridge") := by
  have unread : Reply.ofBytes? out.stdout = none :=
    Option.eq_none_iff_forall_ne_some.2 fun r read => unsaid r (ofBytes?_eq_some_iff.1 read)
  rw [Output.result, if_neg (mt List.isEmpty_iff.1 answered), unread]

end Outputs

section Answers

variable {node : String} {exchange : Exchange}

/-- An exchange ends with a reply of success, its value being the result, or it is refused. -/
theorem yields_or_refused (node : String) (exchange : Exchange) :
    (∃ value, Yields exchange value ∧ exchange.result node = .ok value) ∨
      ∃ f, Refuses node exchange f ∧ exchange.result node = .error f := by
  cases exchange with
  | broken failure => exact .inr ⟨failure, .broken failure, rfl⟩
  | ended out =>
    by_cases said : ∃ r, Says out.stdout r
    · obtain ⟨r, said⟩ := said
      rw [Exchange.result, result_of_said said, Reply.result]
      cases flag : r.ok with
      | true => exact .inl ⟨r.value, .said said flag, rfl⟩
      | false => exact .inr ⟨_, .failed said flag, rfl⟩
    · have unsaid := not_exists.1 said
      by_cases silent : out.stdout = []
      · exact .inr ⟨_, .silent silent, result_silent silent⟩
      · exact .inr ⟨_, .unreadable silent unsaid, result_unreadable silent unsaid⟩

theorem result_ok_iff {value : Json} :
    exchange.result node = .ok value ↔ Yields exchange value := by
  constructor
  · intro result
    rcases yields_or_refused node exchange with ⟨value', yields, same⟩ | ⟨f, -, same⟩
    · obtain rfl := Except.ok.inj (same.symm.trans result)
      exact yields
    · cases same.symm.trans result
  · rintro ⟨said, flag⟩
    rw [Exchange.result, result_of_said said, Reply.result, if_pos flag]

theorem result_error_iff {f : Failure} :
    exchange.result node = .error f ↔ Refuses node exchange f := by
  constructor
  · intro result
    rcases yields_or_refused node exchange with ⟨value, -, same⟩ | ⟨f', refuses, same⟩
    · cases same.symm.trans result
    · obtain rfl := Except.error.inj (same.symm.trans result)
      exact refuses
  · rintro (_ | silent | ⟨answered, unsaid⟩ | ⟨said, flag⟩)
    · rfl
    · exact result_silent silent
    · exact result_unreadable answered unsaid
    · rw [Exchange.result, result_of_said said, Reply.result, flag]
      rfl

section Reading

variable {α : Type}

theorem bind_ok_iff {x : Except Failure Json} {read : Json → Except Failure α} {a : α} :
    x.bind read = .ok a ↔ ∃ value, x = .ok value ∧ read value = .ok a := by
  cases x <;> simp [Except.bind]

theorem bind_error_iff {x : Except Failure Json} {read : Json → Except Failure α} {f : Failure} :
    x.bind read = .error f ↔ x = .error f ∨ ∃ value, x = .ok value ∧ read value = .error f := by
  cases x <;> simp [Except.bind]

theorem immediately_done_iff {x : Except Failure α} {a : α} :
    (immediately x).ending = .done a ↔ x = .ok a := by
  cases x <;> simp [immediately]

theorem immediately_failed_iff {x : Except Failure α} {f : Failure} :
    (immediately x).ending = .failed f ↔ x = .error f := by
  cases x <;> simp [immediately]

/-- What comes of an exchange when the value of a success is read in some way. -/
theorem decides_of_read {read : Json → Except Failure α} {takes : Json → α → Prop}
    {declines : Json → Failure → Prop} (taken : ∀ value a, read value = .ok a ↔ takes value a)
    (declined : ∀ value f, read value = .error f ↔ declines value f) :
    Decides node exchange takes declines (immediately ((exchange.result node).bind read)).ending where
  done a := by
    simp only [immediately_done_iff, bind_ok_iff, result_ok_iff, taken]
  failed f := by
    simp only [immediately_failed_iff, bind_error_iff, result_error_iff, result_ok_iff, declined]
  ends payload := by
    cases (exchange.result node).bind read <;> simp [immediately]

end Reading

end Answers

theorem readText_ok_iff (value : Json) (s : String) : readText value = .ok s ↔ value = .text s := by
  cases value <;> simp [readText]

theorem readText_error_iff (value : Json) (f : Failure) :
    readText value = .error f ↔ (∀ s, value ≠ .text s) ∧
      f = .of ("prettier returned " ++ value.print ++ " instead of text") := by
  cases value <;> simp [readText, eq_comm]

/-- What configuration a value is. -/
inductive ConfigMeans : Json → Option Options → Prop where
  | null : ConfigMeans .null none
  | options {value : Json} {o : Options} (h : Options.ofJson value = .ok o) :
      ConfigMeans value (some o)

theorem readConfig_ok_iff (path : String) (value : Json) (found : Option Options) :
    readConfig path value = .ok found ↔ ConfigMeans value found := by
  constructor
  · intro read
    unfold readConfig at read
    split at read
    · obtain rfl := Except.ok.inj read
      exact .null
    · split at read
      · next options =>
        obtain rfl := Except.ok.inj read
        exact .options options
      · cases read
  · rintro (_ | h)
    · rfl
    · exact readConfig_of_ok h

theorem readConfig_error_iff (path : String) (value : Json) (f : Failure) :
    readConfig path value = .error f ↔ value ≠ .null ∧ ∃ e, Options.ofJson value = .error e ∧
      f = (Failure.of e.message).within ("invalid prettier configuration for " ++ path) := by
  constructor
  · intro read
    unfold readConfig at read
    split at read
    · cases read
    · next other =>
      split at read
      · cases read
      · next e unread => exact ⟨other, e, unread, (Except.error.inj read).symm⟩
  · rintro ⟨other, e, unread, rfl⟩
    rw [readConfig, unread]
    exact other

/-- Exactly well-formed replies are accepted. A text is formatted, or a configuration found, just if
the process ends with one document as its answer that stands for a reply of success with a value of
this kind. Any other exchange fails: as refused, or for the kind of its value. -/
theorem accepts_exactly_replies (node package : String) (respond : List UInt8 → Exchange) :
    (∀ content options,
      Decides node (respond ((Request.format content options).bytes package))
        (fun value s => value = .text s)
        (fun value f => (∀ s, value ≠ .text s) ∧
          f = .of ("prettier returned " ++ value.print ++ " instead of text"))
        ((engine node package (some respond)).format content options).ending) ∧
    ∀ path,
      Decides node (respond ((Request.resolveConfig path).bytes package)) ConfigMeans
        (fun value f => value ≠ .null ∧ ∃ e, Options.ofJson value = .error e ∧
          f = (Failure.of e.message).within ("invalid prettier configuration for " ++ path))
        ((engine node package (some respond)).configuration path).ending :=
  ⟨fun _ _ => decides_of_read readText_ok_iff readText_error_iff,
    fun path => decides_of_read (readConfig_ok_iff path) (readConfig_error_iff path)⟩

/-- A process that answers with the same text whatever it hears, complains, and ends in some way. -/
def complaining (text : List Char) (status : Status) : List UInt8 → Exchange := fun _ =>
  .ended ⟨Text.encode (String.ofList text), Text.encode " warning\n", status⟩

/-- A list with an escaped text in it. -/
def listedReply : List Char := "[true,".toList ++ ['"', '\\', 'u', '0', '0', '4', '1', '"', ']']

/-- A record that gives its flag twice. -/
def repeatedFlag : List Char :=
  '\x7b' :: (['"', 'o', 'k', '"', ':'] ++ "true".toList ++
    ',' :: (['"', 'o', 'k', '"', ':'] ++ "true".toList ++ ['\x7d']))

theorem written_listedReply :
    Document.Written (.list [.bool true, .text [.unit 0x41]]) (listedReply.map some) := by
  have unit : UnitDigits 0x41 ['0', '0', '4', '1'] := by decide
  refine .token (.sign (c := '[') (by decide)) ?_
  refine .token (.word (by decide : (.bool true, "true") ∈ words)) ?_
  refine .token (.sign (c := ',') (by decide)) ?_
  refine .token (.text (.cons (.unit unit) .close)) ?_
  exact .token (.sign (c := ']') (by decide)) .nil

theorem written_repeatedFlag :
    Document.Written
      (.record [([.char 'o', .char 'k'], .bool true), ([.char 'o', .char 'k'], .bool true)])
      (repeatedFlag.map some) := by
  have key : Body [.char 'o', .char 'k'] [some 'o', some 'k', some '"'] :=
    .cons (.plain (by decide) (by decide) (by decide))
      (.cons (.plain (by decide) (by decide) (by decide)) .close)
  have flag : (Token.bool true, "true") ∈ words := by decide
  refine .token (.sign (c := '\x7b') (by decide)) ?_
  refine .token (.text key) (.token (.sign (c := ':') (by decide)) (.token (.word flag) ?_))
  refine .token (.sign (c := ',') (by decide)) ?_
  refine .token (.text key) (.token (.sign (c := ':') (by decide)) (.token (.word flag) ?_))
  exact .token (.sign (c := '\x7d') (by decide)) .nil

theorem said_iff_replies {text : List Char} {r : Reply} {d : Document}
    (written : d.Written (text.map some)) :
    Says (Text.encode (String.ofList text)) r ↔ Replies d r := by
  rw [Says, Text.symbols_encode, String.toList_ofList]
  constructor
  · rintro ⟨d', written', replies⟩
    obtain rfl : d' = d := Option.some.inj ((Document.ofSymbols?_eq_some_iff.2 written').symm.trans
      (Document.ofSymbols?_eq_some_iff.2 written))
    exact replies
  · exact fun replies => ⟨d, written, replies⟩

/-- The list is accepted, however the process ends; the record is no reply. How it ends is told where
it answers nothing. -/
theorem accepts_exactly_replies_listed :
    ((engine "node" "prettier" (some (complaining listedReply (.signal 9 false)))).format "a"
        .unset).ending = .done "A" ∧
      ((engine "node" "prettier" (some (complaining repeatedFlag (.code 1)))).format "a"
        .unset).ending = .failed (.of "unexpected output from prettier bridge") ∧
      ((engine "node" "prettier" (some (complaining [] (.signal 9 false)))).configuration
        "a").ending = .failed (.of "node exited with signal: 9 (SIGKILL): warning") ∧
      ((engine "node" "prettier" (some fun _ => .broken (.of "Broken pipe (os error 32)"))).format "a"
        .unset).ending = .failed (.of "Broken pipe (os error 32)") := by
  have accepted := (accepts_exactly_replies "node" "prettier"
    (complaining listedReply (.signal 9 false))).1 "a" .unset
  have refused := (accepts_exactly_replies "node" "prettier"
    (complaining repeatedFlag (.code 1))).1 "a" .unset
  have killed := (accepts_exactly_replies "node" "prettier"
    (complaining [] (.signal 9 false))).2 "a"
  have broken := (accepts_exactly_replies "node" "prettier"
    fun _ => .broken (.of "Broken pipe (os error 32)")).1 "a" .unset
  refine ⟨?_, ?_, ?_, (broken.failed _).2 (.inl (.broken _))⟩
  · have text : Mean [.unit 0x41] "A".toList := .unit (by decide) .nil
    have said := (said_iff_replies written_listedReply).2 (.list (.once (.text text)) .absent)
    exact (accepted.done "A").2 ⟨_, .said said rfl, rfl⟩
  · have answered : Text.encode (String.ofList repeatedFlag) ≠ [] := by
      rw [Text.encode_chars]
      decide
    have unsaid : ∀ r, ¬ Says (Text.encode (String.ofList repeatedFlag)) r := by
      rintro r said
      rcases (said_iff_replies written_repeatedFlag).1 said with ⟨-, flag⟩
      cases flag
    exact (refused.failed _).2 (.inl (.unreadable answered unsaid))
  · have nothing : Text.encode (String.ofList []) = [] := Text.encode_chars _
    have silent : Refuses "node" (complaining [] (.signal 9 false) []) _ := .silent nothing
    rw [Text.decodeLossy_encode] at silent
    exact (killed.failed _).2 (.inl silent)

end FormatPreview.Bridge
