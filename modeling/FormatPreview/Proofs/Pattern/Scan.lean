import FormatPreview.Pattern.Scan
import FormatPreview.Proofs.Pattern.Glob
import FormatPreview.Proofs.Pattern.Target
import FormatPreview.Proofs.Text.Utf8
import Mathlib

/-!
Finding braces by byte positions never stumbles. A byte of a character that takes several is none of
the braces and commas, so the scan goes through the bytes as the nesting goes through the characters;
the positions it finds lie between characters, in order, and what stands between them are the parts
of the group. A part with what is around its group takes fewer bytes than the pattern.
-/
namespace FormatPreview.Pattern

variable {text inside part front back pattern : List Char} {c : Char}

@[simp] theorem width_nil : width [] = 0 := rfl

@[simp] theorem width_cons (c : Char) (rest : List Char) :
    width (c :: rest) = c.utf8Size + width rest := rfl

@[simp] theorem width_append (first second : List Char) :
    width (first ++ second) = width first + width second := by
  induction first with
  | nil => simp
  | cons c rest ih => simp [ih, Nat.add_assoc]

theorem bytes_eq (text : List Char) : bytes text = text.flatMap String.utf8EncodeChar := by
  rw [bytes, Text.encode_chars, String.toList_ofList]

@[simp] theorem bytes_cons (c : Char) (rest : List Char) :
    bytes (c :: rest) = String.utf8EncodeChar c ++ bytes rest := by
  simp [bytes_eq]

@[simp] theorem bytes_append (first second : List Char) :
    bytes (first ++ second) = bytes first ++ bytes second := by
  simp [bytes_eq]

@[simp] theorem length_bytes (text : List Char) : (bytes text).length = width text := by
  induction text with
  | nil => simp [bytes_eq]
  | cons c rest ih => simp [ih]

theorem width_le_of_sublist {first second : List Char} (inner : first.Sublist second) :
    width first ≤ width second := by
  induction inner with
  | slnil => exact Nat.le_refl 0
  | cons c _ ih => exact Nat.le_trans ih (Nat.le_add_left _ _)
  | cons_cons c _ ih => exact Nat.add_le_add_left ih _

/-! Scanning. -/

/-- A byte below 128 is all of its character. -/
theorem toNat_of_mem_encodeChar {b : UInt8} (mem : b ∈ String.utf8EncodeChar c)
    (ascii : b.toNat < 128) : c.toNat = b.toNat := by
  have value : c.toNat = c.val.toNat := rfl
  rw [value]
  unfold String.utf8EncodeChar at mem
  generalize c.val.toNat = v at mem
  dsimp only at mem
  split at mem
  · obtain rfl := List.mem_singleton.1 mem
    rw [Text.toNat_ofNat (by omega)]
  · -- Every byte of a longer character has its highest bit set.
    exfalso
    have high {n : Nat} (least : 128 ≤ n) (most : n < 256) (same : b = UInt8.ofNat n) : False := by
      rw [same, Text.toNat_ofNat most] at ascii
      omega
    split at mem
    · rcases mem with _ | ⟨_, _ | ⟨_, ⟨⟩⟩⟩
      all_goals exact high (by omega) (by omega) rfl
    · split at mem
      · rcases mem with _ | ⟨_, _ | ⟨_, _ | ⟨_, ⟨⟩⟩⟩⟩
        all_goals exact high (by omega) (by omega) rfl
      · rcases mem with _ | ⟨_, _ | ⟨_, _ | ⟨_, _ | ⟨_, ⟨⟩⟩⟩⟩⟩
        all_goals exact high (by omega) (by omega) rfl

/-- A byte that is no brace and no comma. -/
def Inert (b : UInt8) : Prop := b ≠ '\x7b'.toUInt8 ∧ b ≠ '\x7d'.toUInt8 ∧ b ≠ ','.toUInt8

theorem inert_of_mem_encodeChar {b : UInt8} (opening : c ≠ '\x7b') (closing : c ≠ '\x7d')
    (comma : c ≠ ',') (mem : b ∈ String.utf8EncodeChar c) : Inert b := by
  have other {d : Char} (ascii : d.toUInt8.toNat = d.toNat) (small : d.toNat < 128)
      (apart : c ≠ d) : b ≠ d.toUInt8 := by
    rintro rfl
    exact apart (Char.toNat_inj.1 ((toNat_of_mem_encodeChar mem (by omega)).trans ascii))
  exact ⟨other rfl (by decide) opening, other rfl (by decide) closing, other rfl (by decide) comma⟩

theorem scan_cons (place depth : Nat) (b : UInt8) (rest : List UInt8) :
    scan place depth (b :: rest) =
      if b = '\x7b'.toUInt8 then scan (place + 1) (depth + 1) rest
      else if b = '\x7d'.toUInt8 then
        match depth with
        | 0 => .error .depthBelowZero
        | 1 => .ok (some ⟨[], place⟩)
        | depth + 2 => scan (place + 1) (depth + 1) rest
      else if b = ','.toUInt8 ∧ depth = 1 then
        (scan (place + 1) depth rest).map (·.map fun found => ⟨place :: found.commas, found.close⟩)
      else scan (place + 1) depth rest := rfl

theorem scan_inert {bs : List UInt8} (inert : ∀ b ∈ bs, Inert b) (place depth : Nat)
    (rest : List UInt8) : scan place depth (bs ++ rest) = scan (place + bs.length) depth rest := by
  induction bs generalizing place with
  | nil => rfl
  | cons b bs ih =>
    obtain ⟨opening, closing, comma⟩ := inert b (by simp)
    rw [List.cons_append, scan_cons, if_neg opening, if_neg closing, if_neg (fun both => comma both.1),
      ih fun b mem => inert b (by simp [mem])]
    rw [List.length_cons, Nat.add_assoc, Nat.add_comm 1]

/-- The byte positions of the commas that stand in no brace, for a text that starts at a depth. -/
def commaPlaces (place depth : Nat) : List Char → List Nat
  | [] => []
  | c :: rest =>
    if c = ',' ∧ depth = 0 then place :: commaPlaces (place + c.utf8Size) depth rest
    else commaPlaces (place + c.utf8Size) (deeper depth c) rest

/-- The bytes behind an opening brace are scanned as the characters are nested. -/
theorem scan_bytes (place depth : Nat) (text : List Char) :
    scan place (depth + 1) (bytes text) = .ok ((closing? depth text).map fun found =>
      ⟨commaPlaces place depth found.1, place + width found.1⟩) := by
  induction text generalizing place depth with
  | nil => simp [bytes_eq, scan, closing?]
  | cons c rest ih =>
    rw [bytes_cons, closing?]
    by_cases opening : c = '\x7b'
    · subst opening
      have encoded : String.utf8EncodeChar '\x7b' = ['\x7b'.toUInt8] := rfl
      have size : '\x7b'.utf8Size = 1 := rfl
      rw [encoded, List.singleton_append, scan_cons, if_pos rfl, ih (place + 1) (depth + 1)]
      simp [deeper, commaPlaces, Function.comp_def, size, Nat.add_assoc]
    · by_cases closing : c = '\x7d'
      · subst closing
        have encoded : String.utf8EncodeChar '\x7d' = ['\x7d'.toUInt8] := rfl
        have size : '\x7d'.utf8Size = 1 := rfl
        rw [encoded, List.singleton_append, scan_cons, if_neg (by decide), if_pos rfl]
        cases depth with
        | zero => simp [commaPlaces]
        | succ depth =>
          dsimp only
          rw [ih (place + 1) depth]
          simp [deeper, commaPlaces, Function.comp_def, size, Nat.add_assoc]
      · by_cases comma : c = ','
        · subst comma
          have encoded : String.utf8EncodeChar ',' = [','.toUInt8] := rfl
          have size : ','.utf8Size = 1 := rfl
          rw [encoded, List.singleton_append, scan_cons, if_neg (by decide), if_neg (by decide),
            ih (place + 1) depth]
          cases depth <;>
            simp [deeper, commaPlaces, Function.comp_def, size, Nat.add_assoc, Except.map]
        · rw [scan_inert fun b mem => inert_of_mem_encodeChar opening closing comma mem,
            String.length_utf8EncodeChar, ih]
          simp [deeper, commaPlaces, Function.comp_def, opening, closing, comma, Nat.add_assoc]

theorem length_commaPlaces (place depth : Nat) (text : List Char) :
    (commaPlaces place depth text).length = commas depth text := by
  induction text generalizing place depth with
  | nil => rfl
  | cons c rest ih =>
    by_cases comma : c = ',' ∧ depth = 0
    · obtain ⟨rfl, rfl⟩ := comma
      simp [commaPlaces, commas, deeper, ih, Nat.add_comm]
    · simp [commaPlaces, commas, comma, ih]

/-! Cutting. -/

theorem cutAt?_width (front back : List Char) :
    cutAt? (width front) (front ++ back) = some (front, back) := by
  induction front with
  | nil => cases back <;> rfl
  | cons c front ih =>
    have some := c.utf8Size_pos
    rw [List.cons_append, width_cons, cutAt?, if_neg (by omega), if_neg (by omega),
      Nat.add_sub_cancel_left, ih]
    rfl

/-- What stands between the ends of two beginnings is cut out, bytes of its characters whole. -/
theorem slice_between (front middle back : List Char) :
    slice (front ++ (middle ++ back)) (width front) (width front + width middle) = .ok middle := by
  have ordered : ¬ width front + width middle < width front := by omega
  rw [slice, if_neg ordered, ← width_append, ← List.append_assoc, cutAt?_width]
  simp only [cutAt?_width]

/-- Between the bounds of a group stand its parts. `done` is what has been passed of the current
one, which begins behind `front`. -/
theorem alternatives_cut (before after back : List Char) {left depth : Nat} {front done : List Char}
    (starts : left + 1 = width front) :
    alternatives (front ++ (done ++ (inside ++ back))) before after left
        (commaPlaces (width front + width done) depth inside ++
          [width front + width done + width inside]) =
      .ok (((cut depth inside).modifyHead (done ++ ·)).map fun part => before ++ part ++ after) := by
  induction inside generalizing left depth front done with
  | nil =>
    have part := slice_between front done back
    simp [commaPlaces, cut, alternatives, starts, part, bind, Except.bind, pure, Except.pure]
  | cons c rest ih =>
    by_cases comma : c = ',' ∧ depth = 0
    · obtain ⟨rfl, rfl⟩ := comma
      have size : ','.utf8Size = 1 := rfl
      have part := slice_between front done (',' :: rest ++ back)
      have further := @ih (width front + width done) 0 (front ++ done ++ [',']) []
        (by simp [size, Nat.add_assoc])
      have whole : (cut 0 rest).modifyHead (fun part => part) = cut 0 rest := by
        cases cut 0 rest <;> rfl
      simp only [width_append, width_cons, width_nil, size, Nat.add_zero, List.append_assoc,
        List.nil_append, List.cons_append, ← Nat.add_assoc, whole] at further part
      simp [commaPlaces, cut, alternatives, starts, part, further, size, bind, Except.bind, pure,
        Except.pure, ← Nat.add_assoc]
    · have further := @ih left (deeper depth c) front (done ++ [c]) starts
      simp only [width_append, width_cons, width_nil, Nat.add_zero, List.append_assoc,
        List.nil_append, List.cons_append, ← Nat.add_assoc] at further
      simp [commaPlaces, cut, comma, further, ← Nat.add_assoc, Function.comp_def]

/-- The cuts around and within a group. -/
structure CutAround (pattern front inside after : List Char) : Prop where
  before : slice pattern 0 (width front) = .ok front
  behind : slice pattern (width front + 1 + width inside + 1) (width pattern) = .ok after
  parts : alternatives pattern front after (width front)
      (commaPlaces (width front + 1) 0 inside ++ [width front + 1 + width inside]) =
    .ok ((cut 0 inside).map fun part => front ++ part ++ after)

theorem cutAround_group (front inside after : List Char) :
    CutAround (front ++ '\x7b' :: (inside ++ '\x7d' :: after)) front inside after := by
  have size : '\x7b'.utf8Size = 1 ∧ '\x7d'.utf8Size = 1 := ⟨rfl, rfl⟩
  constructor
  · simpa using slice_between [] front ('\x7b' :: (inside ++ '\x7d' :: after))
  · simpa [size, Nat.add_assoc] using slice_between (front ++ '\x7b' :: inside ++ ['\x7d']) after []
  · have alone : (cut 0 inside).modifyHead (fun part => part) = cut 0 inside := by
      cases cut 0 inside <;> rfl
    have parts := @alternatives_cut inside front after ('\x7d' :: after) (width front) 0
      (front ++ ['\x7b']) [] (by simp [size])
    simpa [size, alone] using parts

/-- An opening brace begins by bytes what it begins by characters. -/
theorem expandAt?_width (front text : List Char) :
    expandAt? (front ++ '\x7b' :: text) (width front) =
      .ok ((groupHere? text).map fun g => g.parts.map fun part => front ++ part ++ g.after) := by
  have encoded : String.utf8EncodeChar '\x7b' = ['\x7b'.toUInt8] := rfl
  have here : (bytes (front ++ '\x7b' :: text)).drop (width front) =
      '\x7b'.toUInt8 :: bytes text := by
    rw [bytes_append, ← length_bytes front, List.drop_left, bytes_cons, encoded]
    rfl
  rw [expandAt?, here, scan_cons, if_pos rfl, scan_bytes, groupHere?_eq]
  cases closed : closing? 0 text with
  | none => rfl
  | some found =>
    obtain ⟨inside, after⟩ := found
    obtain ⟨rfl, -⟩ := closing?_eq_some_iff.1 closed
    have number := length_commaPlaces (width front + 1) 0 inside
    have around := cutAround_group front inside after
    generalize front ++ '\x7b' :: (inside ++ '\x7d' :: after) = pattern at around
    by_cases none : commas 0 inside = 0
    · have empty : commaPlaces (width front + 1) 0 inside = [] := by
        rwa [← List.length_eq_zero_iff, number]
      simp [none, empty, bind, Except.bind, pure, Except.pure]
    · have some : commaPlaces (width front + 1) 0 inside ≠ [] := by
        rwa [ne_eq, ← List.length_eq_zero_iff, number]
      simp [none, some, around.before, around.behind, around.parts, bind, Except.bind, Functor.map,
        Except.map]

theorem before_of_groupHere? {g : Group} (here : groupHere? text = some g) : g.before = [] := by
  rw [groupHere?_eq] at here
  obtain ⟨found, -, begins⟩ := Option.bind_eq_some_iff.1 here
  split at begins
  · cases begins
  · cases begins
    rfl

/-- The first opening brace by bytes that begins a group is the first by characters. -/
theorem expandFirst?_width (front text : List Char) :
    expandFirst? (front ++ text) (openings (width front) text) =
      .ok ((group? text).map fun g =>
        g.parts.map fun part => front ++ g.before ++ part ++ g.after) := by
  induction text generalizing front with
  | nil => rfl
  | cons c rest ih =>
    have further := ih (front ++ [c])
    simp only [List.append_assoc, List.singleton_append, width_append, width_cons, width_nil,
      Nat.add_zero] at further
    rw [openings]
    by_cases opening : c = '\x7b'
    · subst opening
      rw [if_pos rfl, expandFirst?, expandAt?_width]
      cases here : groupHere? rest with
      | some g =>
        have none := before_of_groupHere? here
        simp [group?, here, none, bind, Except.bind, pure, Except.pure]
      | none =>
        rw [group?_cons (.inr here)]
        simp [further, bind, Except.bind, Function.comp_def]
    · rw [if_neg opening, further, group?_cons (.inl opening)]
      simp [Function.comp_def]

/-- A step by bytes goes from a pattern to the alternatives of its first group. -/
theorem expandOnce?_eq (pattern : List Char) :
    expandOnce? pattern =
      .ok ((group? pattern).map fun g => g.parts.map fun part => g.before ++ part ++ g.after) := by
  simpa [expandOnce?] using expandFirst?_width [] pattern

/-- An alternative of a group, with what is around the group, takes fewer bytes than the pattern. -/
theorem width_of_group? {g : Group} (found : group? pattern = some g) (mem : part ∈ g.parts) :
    width (g.before ++ part ++ g.after) < width pattern := by
  obtain ⟨inside, stands⟩ := stands_of_group? found
  have inner := width_le_of_sublist (sublist_of_mem_cut (stands.parts ▸ mem))
  have size : '\x7b'.utf8Size = 1 := rfl
  rw [stands.text]
  simp only [width_append, width_cons, size]
  omega

theorem scanWords_eq (pattern : List Char) : scanWords pattern = .ok (words pattern) := by
  induction pattern using words.induct with
  | case1 pattern none =>
    rw [scanWords, expandOnce?_eq, none, words_of_none none]
    rfl
  | case2 pattern g found ih =>
    have each : ∀ next ∈ g.parts.map fun part => g.before ++ part ++ g.after,
        (if _shorter : width next < width pattern then scanWords next else .error .notShorter) =
          .ok (words next) := by
      intro next mem
      obtain ⟨part, inside, rfl⟩ := List.mem_map.1 mem
      rw [dif_pos (width_of_group? found inside), ih ⟨part, inside⟩]
    rw [scanWords, expandOnce?_eq, found, words_of_some found]
    simp only [Option.map_some, mapM_ok each]
    simp [bind, Except.bind, pure, Except.pure, List.flatMap_def, Function.comp_def]

/-- Expanding a pattern by byte positions comes to an end without stumbling, with the words that the
pattern expands to. Each step is to patterns of fewer bytes, there is a word at least, and no word can
be expanded further. -/
theorem expands_by_bytes (pattern : String) :
    scanWords pattern.toList = .ok ((expandBraces pattern).map String.toList) ∧
      (∃ expanded, expandOnce? pattern.toList = .ok expanded ∧ ∀ nexts ∈ expanded,
        ∀ next ∈ nexts, (bytes next).length < (bytes pattern.toList).length) ∧
      expandBraces pattern ≠ [] ∧
      (∀ word ∈ expandBraces pattern, expandBraces word = [word]) ∧
      (expandBraces pattern).flatMap expandBraces = expandBraces pattern := by
  refine ⟨?_, ⟨_, expandOnce?_eq _, ?_⟩, ?_, fun word mem => expandBraces_of_mem mem, ?_⟩
  · rw [scanWords_eq, expandBraces, List.map_map]
    simp [Function.comp_def]
  · intro nexts expanded next mem
    obtain ⟨g, found, rfl⟩ := Option.map_eq_some_iff.1 expanded
    obtain ⟨part, inside, rfl⟩ := List.mem_map.1 mem
    rw [length_bytes, length_bytes]
    exact width_of_group? found inside
  · simpa [expandBraces] using words_ne_nil pattern.toList
  · rw [List.flatMap_congr fun word mem => expandBraces_of_mem mem]
    simp

/-- Longer characters stand beside the braces and within them, and one brace is never closed. -/
theorem expands_by_bytes_umlauts :
    let pattern := "é\x7bä,\x7bü\x7d\x7d\x7b"
    expandBraces pattern = ["éä\x7b", "é\x7bü\x7d\x7b"] ∧
      scanWords pattern.toList = .ok ["éä\x7b".toList, "é\x7bü\x7d\x7b".toList] ∧
      expandBraces "é\x7bü\x7d\x7b" = ["é\x7bü\x7d\x7b"] := by
  intro pattern
  have words : expandBraces pattern = ["éä\x7b", "é\x7bü\x7d\x7b"] := by cbv
  obtain ⟨scanned, _, _, last, _⟩ := expands_by_bytes pattern
  rw [words] at scanned last
  exact ⟨words, scanned, last _ (by simp)⟩

end FormatPreview.Pattern
