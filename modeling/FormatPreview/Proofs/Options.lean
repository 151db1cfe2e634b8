import FormatPreview.Options
import FormatPreview.Proofs.Dictionary
import Mathlib.Tactic.Tauto

/-!
Options as members of an object. What options set is told key by key, and options of which the
engine's own keep clear of the fields' keys are the same when they set the same. Reading a member
sets its key and nothing else, so options are written as they were read, save for what is never
written, and are read back as they were, save for whether to compare.
-/
namespace FormatPreview.Options

/-- The keys of the fields. -/
def fieldKeys : List String := ["diffCheck", "parser", "filepath"]

/-- None of the engine's own options is under the key of a field. -/
def Separate (o : Options) : Prop := ∀ key ∈ fieldKeys, o.extra.get? key = none

theorem notMem_fieldKeys {key : String} :
    key ∉ fieldKeys ↔ key ≠ "diffCheck" ∧ key ≠ "parser" ∧ key ≠ "filepath" := by
  simp [fieldKeys]

theorem key_cases (key : String) :
    key = "diffCheck" ∨ key = "parser" ∨ key = "filepath" ∨ key ∉ fieldKeys := by
  rw [notMem_fieldKeys]
  tauto

/-- What options set under a key. Whether to compare is not among it. -/
def setting? (o : Options) (key : String) : Option Json :=
  if key = "diffCheck" then none
  else if key = "parser" then o.parser.map .text
  else if key = "filepath" then o.filepath.map .text
  else o.extra.get? key

theorem setting?_own (o : Options) {key : String} (own : key ∉ fieldKeys) :
    o.setting? key = o.extra.get? key := by
  rw [notMem_fieldKeys] at own
  simp [setting?, own]

/-- Options are told by what they set, and by whether they compare. -/
theorem eq_of_setting? {o o' : Options} (separate : Separate o) (separate' : Separate o')
    (compares : o.compares = o'.compares) (same : ∀ key, o.setting? key = o'.setting? key) :
    o = o' := by
  have injective : Function.Injective (Option.map Json.text) :=
    Option.map_injective fun _ _ => Json.text.inj
  have parser : o.parser = o'.parser := injective (by simpa [setting?] using same "parser")
  have filepath : o.filepath = o'.filepath := injective (by simpa [setting?] using same "filepath")
  have extra : o.extra = o'.extra := by
    apply Dictionary.ext_get?
    intro key
    by_cases field : key ∈ fieldKeys
    · rw [separate key field, separate' key field]
    · rw [← setting?_own o field, ← setting?_own o' field, same]
  cases o
  cases o'
  simp_all

/-! Written members. -/

theorem mem_members (o : Options) (key : String) (value : Json) :
    (key, value) ∈ o.members ↔
      (key = "parser" ∧ o.parser.map .text = some value) ∨
      (key = "filepath" ∧ o.filepath.map .text = some value) ∨ o.extra.get? key = some value := by
  simp only [members, List.mem_append, Option.mem_toList, Dictionary.get?_eq_some_iff]
  cases o.parser <;> cases o.filepath <;> simp <;> grind

theorem nodup_members {o : Options} (separate : Separate o) :
    (o.members.map Prod.fst).Nodup := by
  have own (key : String) (field : key ∈ fieldKeys) : key ∉ o.extra.entries.map Prod.fst :=
    (o.extra.get?_eq_none_iff key).1 (separate key field)
  have distinct := Dictionary.nodup_keys o.extra.ordered
  have parser := own "parser" (by decide)
  have filepath := own "filepath" (by decide)
  unfold members
  cases o.parser <;> cases o.filepath <;> simp [distinct] <;> grind

theorem lookup_members {o : Options} (separate : Separate o) (key : String) :
    o.members.lookup key = o.setting? key := by
  apply Option.ext
  intro value
  rw [Dictionary.lookup_eq_some_iff (nodup_members separate), mem_members]
  rcases key_cases key with rfl | rfl | rfl | own
  · simp [setting?, separate "diffCheck" (by decide)]
  · simp [setting?, separate "parser" (by decide)]
  · simp [setting?, separate "filepath" (by decide)]
  · rw [setting?_own o own]
    rw [notMem_fieldKeys] at own
    simp [own]

/-! Reading members. -/

/-- Whether a member that was read is written again. -/
def kept (member : String × Json) : Bool :=
  match member with
  | ("diffCheck", _) | ("parser", .null) | ("filepath", .null) => false
  | _ => true

theorem kept_own {key : String} (own : key ∉ fieldKeys) (value : Json) :
    kept (key, value) = true := by
  rw [notMem_fieldKeys] at own
  unfold kept
  split <;> simp_all

theorem readMember_own (o : Options) {key : String} (own : key ∉ fieldKeys) (value : Json) :
    o.readMember (key, value) = .ok (o.withExtra key value) := by
  rw [notMem_fieldKeys] at own
  unfold readMember
  split <;> simp_all

theorem boolean_ok {value : Json} {b : Bool} (read : boolean value = .ok b) : value = .bool b := by
  unfold boolean at read
  split at read
  · rw [Except.ok.inj read]
  · simp at read

theorem text_ok {value : Json} {s : Option String} (read : text value = .ok s) :
    value = (s.map Json.text).getD .null := by
  unfold text at read
  split at read
  · simp [← Except.ok.inj read]
  · simp [← Except.ok.inj read]
  · simp at read

/-- What a member that can be read does to options. -/
theorem readMember_cases {o o' : Options} {key : String} {value : Json}
    (read : o.readMember (key, value) = .ok o') :
    (key = "diffCheck" ∧ ∃ b, value = .bool b ∧ o' = { o with compares := b }) ∨
    (key = "parser" ∧ ∃ s : Option String,
      value = (s.map Json.text).getD .null ∧ o' = { o with parser := s }) ∨
    (key = "filepath" ∧ ∃ s : Option String,
      value = (s.map Json.text).getD .null ∧ o' = { o with filepath := s }) ∨
    (key ∉ fieldKeys ∧ o' = o.withExtra key value) := by
  rcases key_cases key with rfl | rfl | rfl | own
  · cases field : boolean value with
    | error e => simp [readMember, field, Except.map] at read
    | ok b =>
      have after : o' = { o with compares := b } := by
        simpa [readMember, field, Except.map, eq_comm] using read
      exact .inl ⟨rfl, b, boolean_ok field, after⟩
  · cases field : text value with
    | error e => simp [readMember, field, Except.map] at read
    | ok s =>
      have after : o' = { o with parser := s } := by
        simpa [readMember, field, Except.map, eq_comm] using read
      exact .inr (.inl ⟨rfl, s, text_ok field, after⟩)
  · cases field : text value with
    | error e => simp [readMember, field, Except.map] at read
    | ok s =>
      have after : o' = { o with filepath := s } := by
        simpa [readMember, field, Except.map, eq_comm] using read
      exact .inr (.inr (.inl ⟨rfl, s, text_ok field, after⟩))
  · rw [readMember_own o own] at read
    exact .inr (.inr (.inr ⟨own, (Except.ok.inj read).symm⟩))

theorem separate_withExtra {o : Options} (separate : Separate o) {key : String}
    (own : key ∉ fieldKeys) (value : Json) : Separate (o.withExtra key value) := by
  intro field mem
  have apart : field ≠ key := fun same => own (same ▸ mem)
  simp [withExtra, Dictionary.get?_insert, apart, separate field mem]

theorem setting?_withExtra (o : Options) {key : String} (own : key ∉ fieldKeys) (value : Json)
    (other : String) :
    (o.withExtra key value).setting? other = if other = key then some value else o.setting? other := by
  by_cases same : other = key
  · subst same
    simp [setting?_own _ own, withExtra, Dictionary.get?_insert]
  · simp [setting?, withExtra, Dictionary.get?_insert, same]

/-- A member sets its own key, if it is one that is kept, and no other. -/
theorem setting?_readMember {o o' : Options} {key : String} {value : Json}
    (read : o.readMember (key, value) = .ok o') (other : String) :
    o'.setting? other =
      if other = key then (some value).filter fun value => kept (key, value)
      else o.setting? other := by
  rcases readMember_cases read with
    ⟨rfl, b, rfl, rfl⟩ | ⟨rfl, s, rfl, rfl⟩ | ⟨rfl, s, rfl, rfl⟩ | ⟨own, rfl⟩
  · by_cases same : other = "diffCheck" <;> simp [setting?, same, kept]
  · by_cases same : other = "parser"
    · subst same
      cases s <;> rfl
    · simp [setting?, same]
  · by_cases same : other = "filepath"
    · subst same
      cases s <;> rfl
    · simp [setting?, same]
  · simp [setting?_withExtra o own, kept_own own, Option.filter_some]

theorem separate_readMember {o o' : Options} {member : String × Json} (separate : Separate o)
    (read : o.readMember member = .ok o') : Separate o' := by
  rcases readMember_cases read with
    ⟨_, b, _, rfl⟩ | ⟨_, s, _, rfl⟩ | ⟨_, s, _, rfl⟩ | ⟨own, rfl⟩
  · exact separate
  · exact separate
  · exact separate
  · exact separate_withExtra separate own _

theorem compares_readMember {o o' : Options} {member : String × Json}
    (other : member.1 ≠ "diffCheck") (read : o.readMember member = .ok o') :
    o'.compares = o.compares := by
  rcases readMember_cases read with
    ⟨same, b, _, rfl⟩ | ⟨_, s, _, rfl⟩ | ⟨_, s, _, rfl⟩ | ⟨own, rfl⟩
  · exact absurd same other
  all_goals rfl

/-! Reading all members. -/

/-- The members are read in turn, and all of them can be. -/
inductive Reads : Options → List (String × Json) → Options → Prop where
  | nil {o : Options} : Reads o [] o
  | cons {o o' o'' : Options} {member : String × Json} {rest : List (String × Json)}
      (here : o.readMember member = .ok o') (there : Reads o' rest o'') :
      Reads o (member :: rest) o''

theorem reads_iff {o o' : Options} {members : List (String × Json)} :
    members.foldlM readMember o = .ok o' ↔ Reads o members o' := by
  constructor
  · intro read
    induction members generalizing o with
    | nil =>
      obtain rfl := Except.ok.inj read
      exact .nil
    | cons member rest ih =>
      rw [List.foldlM_cons] at read
      cases here : o.readMember member with
      | error e => simp [here, bind, Except.bind] at read
      | ok next => exact .cons here (ih (by simpa [here, bind, Except.bind] using read))
  · intro reads
    induction reads with
    | nil => rfl
    | cons here _ ih => simpa [List.foldlM_cons, here, bind, Except.bind] using ih

variable {o o' : Options} {members : List (String × Json)}

theorem Reads.separate (reads : Reads o members o') (separate : Separate o) : Separate o' := by
  induction reads with
  | nil => exact separate
  | cons here _ ih => exact ih (separate_readMember separate here)

theorem Reads.compares (reads : Reads o members o') (silent : "diffCheck" ∉ members.map Prod.fst) :
    o'.compares = o.compares := by
  induction reads with
  | nil => rfl
  | cons here _ ih =>
    rw [List.map_cons, List.mem_cons, not_or] at silent
    rw [ih silent.2, compares_readMember (Ne.symm silent.1) here]

/-- A key that is among the members is set as its member says. -/
theorem Reads.setting? (reads : Reads o members o') (distinct : (members.map Prod.fst).Nodup)
    (key : String) :
    o'.setting? key =
      if key ∈ members.map Prod.fst then (members.filter kept).lookup key else o.setting? key := by
  induction reads with
  | nil => simp
  | @cons o o₁ o₂ member rest here _ ih =>
    obtain ⟨k, value⟩ := member
    obtain ⟨fresh, distinct'⟩ := List.nodup_cons.1 distinct
    rw [ih distinct', setting?_readMember here, Dictionary.lookup_filter distinct,
      Dictionary.lookup_filter distinct']
    by_cases same : key = k
    · subst same
      simp [fresh]
    · have apart : (key == k) = false := beq_false_of_ne same
      simp only [List.map_cons, List.mem_cons, List.lookup_cons, same, apart, false_or, if_false]

theorem exists_reads (readable : ∀ member ∈ members, ∀ o : Options, ∃ o', o.readMember member = .ok o')
    (o : Options) : ∃ o', Reads o members o' := by
  induction members generalizing o with
  | nil => exact ⟨o, .nil⟩
  | cons member rest ih =>
    obtain ⟨next, here⟩ := readable member (by simp) o
    obtain ⟨o', there⟩ := ih (fun m mem => readable m (by simp [mem])) next
    exact ⟨o', .cons here there⟩

/-- The written members can be read, and are kept when they are. -/
theorem readable_of_mem_members (separate : Separate o) {member : String × Json}
    (mem : member ∈ o.members) :
    kept member = true ∧ ∀ base : Options, ∃ o', base.readMember member = .ok o' := by
  obtain ⟨key, value⟩ := member
  rcases (mem_members o key value).1 mem with ⟨rfl, set⟩ | ⟨rfl, set⟩ | set
  · obtain ⟨s, _, rfl⟩ := Option.map_eq_some_iff.1 set
    exact ⟨rfl, fun base => ⟨_, rfl⟩⟩
  · obtain ⟨s, _, rfl⟩ := Option.map_eq_some_iff.1 set
    exact ⟨rfl, fun base => ⟨_, rfl⟩⟩
  · have own : key ∉ fieldKeys := by
      intro field
      simp [separate key field] at set
    exact ⟨kept_own own value, fun base => ⟨_, readMember_own base own value⟩⟩

@[simp] theorem separate_unset : Separate unset := by
  intro key _
  rfl

theorem setting?_unset (key : String) : unset.setting? key = none := by
  rcases key_cases key with rfl | rfl | rfl | own
  · rfl
  · rfl
  · rfl
  · rw [setting?_own _ own]
    rfl

theorem separate_of_ofJson {value : Json} (read : ofJson value = .ok o) : Separate o := by
  unfold ofJson at read
  split at read
  · exact (reads_iff.1 read).separate separate_unset
  · simp at read

/-- What is read from an object is what its members that are kept say. -/
theorem setting?_of_ofJson {object : Dictionary Json} (read : ofJson (.record object.entries) = .ok o)
    (key : String) : o.setting? key = (object.entries.filter kept).lookup key := by
  have distinct := Dictionary.nodup_keys object.ordered
  rw [(reads_iff.1 read).setting? distinct, setting?_unset]
  split
  · rfl
  · next absent =>
    rw [Dictionary.lookup_filter distinct, (Dictionary.lookup_eq_none_iff distinct key).2 absent]
    rfl

theorem members_of_ofJson {object : Dictionary Json} (read : ofJson (.record object.entries) = .ok o) :
    o.members.Perm (object.entries.filter kept) := by
  have separate := separate_of_ofJson read
  have ordered := object.ordered.filter kept
  refine Dictionary.perm_of_lookup (nodup_members separate) (Dictionary.nodup_keys ordered) ?_
  intro key
  rw [lookup_members separate, setting?_of_ofJson read]

/-- The written members, in any order, stand for the options that do not compare. -/
theorem ofJson_members (separate : Separate o) (perm : members.Perm o.members) :
    ofJson (.record members) = .ok { o with compares := false } := by
  have distinct : (members.map Prod.fst).Nodup :=
    (perm.map _).nodup_iff.2 (nodup_members separate)
  have readable : ∀ member ∈ members, kept member = true ∧
      ∀ base : Options, ∃ o', base.readMember member = .ok o' :=
    fun member mem => readable_of_mem_members separate (perm.subset mem)
  have lookup (key : String) : members.lookup key = o.setting? key := by
    rw [Dictionary.lookup_perm distinct perm, lookup_members separate]
  obtain ⟨o', reads⟩ := exists_reads (fun member mem => (readable member mem).2) unset
  have compares : o'.compares = false := by
    refine reads.compares ?_
    rw [← Dictionary.lookup_eq_none_iff distinct, lookup]
    rfl
  have same (key : String) : o'.setting? key = o.setting? key := by
    rw [reads.setting? distinct, setting?_unset,
      List.filter_eq_self.2 fun member mem => (readable member mem).1, lookup]
    split
    · rfl
    · next absent => rw [← lookup, (Dictionary.lookup_eq_none_iff distinct key).2 absent]
  have result : o' = { o with compares := false } :=
    eq_of_setting? (reads.separate separate_unset) separate compares same
  rw [← result]
  exact reads_iff.2 reads

theorem toJson_of_perm (object : Dictionary Json) (perm : o.members.Perm object.entries) :
    o.toJson = .record object.entries := by
  rw [toJson, Json.ofMembers, Dictionary.ofList_perm object perm]

/-- The members of the value are the written ones. -/
theorem toJson_perm_members (separate : Separate o) :
    (Dictionary.ofList o.members).entries.Perm o.members := by
  refine Dictionary.perm_of_lookup ?_ (nodup_members separate) ?_
  · exact Dictionary.nodup_keys (Dictionary.ofList o.members).ordered
  · exact fun key => Dictionary.get?_ofList (nodup_members separate) key

theorem ofJson_toJson (separate : Separate o) :
    ofJson o.toJson = .ok { o with compares := false } :=
  ofJson_members separate (toJson_perm_members separate)

/-- An object that was read as options is written without the members that are not kept and with all
others as they were; options are read back as they were, without whether to compare. -/
theorem written_as_read :
    (∀ (object : Dictionary Json) (o : Options), ofJson (.record object.entries) = .ok o →
      o.toJson = .record (object.entries.filter kept) ∧
        o.members.Perm (object.entries.filter kept)) ∧
    ∀ o : Options, Separate o →
      ofJson o.toJson = .ok { o with compares := false } ∧
        ofJson o.written = .ok { o with compares := false } := by
  constructor
  · intro object o read
    have perm := members_of_ofJson read
    exact ⟨toJson_of_perm ⟨_, object.ordered.filter kept⟩ perm, perm⟩
  · intro o separate
    exact ⟨ofJson_toJson separate, ofJson_members separate (.refl _)⟩

theorem written_as_read_nested :
    let nested : Json := .list [.record [("files", .text "*.md"), ("parser", .null)], .ofNat 3]
    let object : Dictionary Json :=
      ⟨[("diffCheck", .bool true), ("filepath", .null), ("overrides", nested),
        ("parser", .text "css")], by decide⟩
    let o : Options := ⟨true, some "css", none, ⟨[("overrides", nested)], by decide⟩⟩
    ofJson (.record object.entries) = .ok o ∧
      o.toJson = .record [("overrides", nested), ("parser", .text "css")] ∧
      Separate o ∧ ofJson o.written = .ok { o with compares := false } := by
  intro nested object o
  have read : ofJson (.record object.entries) = .ok o := rfl
  have separate : Separate o := separate_of_ofJson read
  exact ⟨read, (written_as_read.1 object o read).1, separate, (written_as_read.2 o separate).2⟩

end FormatPreview.Options
