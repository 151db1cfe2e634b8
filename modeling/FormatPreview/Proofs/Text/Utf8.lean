import Mathlib.Tactic.IntervalCases
import FormatPreview.Text.Utf8

/-!
Decoding undoes encoding. A character of several bytes is begun by its first byte with the bits that
this byte has, and each byte after it adds six more, so the symbols of an encoded text are its
characters and nothing is broken.
-/
namespace FormatPreview.Text

theorem toList_loop (bytes : ByteArray) (i : Nat) (done : List UInt8) :
    ByteArray.toList.loop bytes i done = done.reverse ++ bytes.data.toList.drop i := by
  fun_induction ByteArray.toList.loop bytes i done with
  | case1 i done inside ih =>
    have here : i < bytes.data.toList.length := inside
    rw [ih, List.drop_eq_getElem_cons here, List.reverse_cons, List.append_assoc]
    simp [ByteArray.get!, getElem!_pos bytes.data i here]
  | case2 i done outside =>
    have none : bytes.data.toList.length ≤ i := Nat.le_of_not_lt outside
    rw [List.drop_of_length_le none, List.append_nil]

theorem encode_eq (text : String) : encode text = text.toByteArray.data.toList :=
  toList_loop _ 0 []

theorem encode_join (texts : List String) :
    encode (String.join texts) = (texts.map encode).flatten := by
  induction texts with
  | nil => simp [encode_eq]
  | cons text rest ih =>
    rw [List.map_cons, List.flatten_cons, ← ih, String.join_cons]
    simp [encode_eq]

theorem encode_chars (text : String) : encode text = text.toList.flatMap String.utf8EncodeChar := by
  rw [encode_eq, ← String.utf8Encode_toList, List.utf8Encode]
  simp

/-! The bytes of a character. -/

theorem ofLead?_two {k : Nat} (low : 2 ≤ k) (high : k < 32) :
    Begun.ofLead? (UInt8.ofNat (k + 192)) = some ⟨k, 1, 0x80, 0xBF⟩ := by
  interval_cases k <;> rfl

/-- The second of three bytes leaves out overlong forms after the least first byte, and surrogates. -/
theorem ofLead?_three {k : Nat} (high : k < 16) :
    Begun.ofLead? (UInt8.ofNat (k + 224)) =
      some ⟨k, 2, if k = 0 then 0xA0 else 0x80, if k = 13 then 0x9F else 0xBF⟩ := by
  interval_cases k <;> rfl

/-- The second of four bytes leaves out overlong forms, and numbers past the last character. -/
theorem ofLead?_four {k : Nat} (high : k ≤ 4) :
    Begun.ofLead? (UInt8.ofNat (k + 240)) =
      some ⟨k, 3, if k = 0 then 0x90 else 0x80, if k = 4 then 0x8F else 0xBF⟩ := by
  interval_cases k <;> rfl

theorem toNat_ofNat {n : Nat} (small : n < 256) : (UInt8.ofNat n).toNat = n := by
  rw [UInt8.toNat_ofNat', Nat.mod_eq_of_lt small]

theorem ascii_iff {n : Nat} (small : n < 256) : UInt8.ofNat n < 0x80 ↔ n < 128 := by
  rw [UInt8.lt_iff_toNat_lt, toNat_ofNat small]
  rfl

/-- A byte within the bounds adds its six bits; the last one completes the character. -/
theorem symbolsFrom_push (p : Begun) {t : Nat} (small : t < 64) (low : p.low.toNat ≤ t + 128)
    (high : t + 128 ≤ p.high.toNat) (rest : List UInt8) :
    symbolsFrom (some p) (UInt8.ofNat (t + 128) :: rest) =
      if p.owed - 1 = 0 then some (Char.ofNat (p.bits * 64 + t)) :: symbolsFrom none rest
      else symbolsFrom (some ⟨p.bits * 64 + t, p.owed - 1, 0x80, 0xBF⟩) rest := by
  have byte : (UInt8.ofNat (t + 128)).toNat = t + 128 := toNat_ofNat (by omega)
  generalize UInt8.ofNat (t + 128) = b at byte
  have accepted : p.accepts b = true := by
    rw [Begun.accepts, Bool.and_eq_true, decide_eq_true_eq, decide_eq_true_eq,
      UInt8.le_iff_toNat_le, UInt8.le_iff_toNat_le, byte]
    exact ⟨low, high⟩
  have pushed : p.push b = ⟨p.bits * 64 + t, p.owed - 1, 0x80, 0xBF⟩ := by
    have six : b.toNat - 0x80 = t := by omega
    rw [← six]
    rfl
  simp only [symbolsFrom, nextSymbol, accepted, pushed, if_true]
  split <;> simp

theorem symbolsFrom_lead {n : Nat} {p : Begun} (multiple : 128 ≤ n) (small : n < 256)
    (lead : Begun.ofLead? (UInt8.ofNat n) = some p) (rest : List UInt8) :
    symbolsFrom none (UInt8.ofNat n :: rest) = symbolsFrom (some p) rest := by
  have other : ¬ UInt8.ofNat n < 0x80 := by
    rw [ascii_iff small]
    omega
  rw [symbolsFrom, nextSymbol, beginSymbol, if_neg other, lead]
  rfl

theorem symbolsFrom_one {v : Nat} (high : v ≤ 0x7F) (rest : List UInt8) :
    symbolsFrom none (UInt8.ofNat v :: rest) = some (Char.ofNat v) :: symbolsFrom none rest := by
  rw [symbolsFrom, nextSymbol, beginSymbol, if_pos ((ascii_iff (by omega)).2 (by omega)),
    toNat_ofNat (by omega)]
  rfl

theorem symbolsFrom_two {v : Nat} (low : 0x7F < v) (high : v ≤ 0x7FF) (rest : List UInt8) :
    symbolsFrom none (UInt8.ofNat (v / 64 % 32 + 192) :: UInt8.ofNat (v % 64 + 128) :: rest) =
      some (Char.ofNat v) :: symbolsFrom none rest := by
  have bits : v / 64 % 32 * 64 + v % 64 = v := by omega
  rw [symbolsFrom_lead (by omega) (by omega) (ofLead?_two (by omega) (by omega)),
    symbolsFrom_push _ (by omega) (by simp) (by simp; omega)]
  simp [bits]

theorem symbolsFrom_three {v : Nat} (low : 0x7FF < v) (high : v ≤ 0xFFFF)
    (valid : v < 0xD800 ∨ 0xDFFF < v) (rest : List UInt8) :
    symbolsFrom none (UInt8.ofNat (v / 4096 % 16 + 224) :: UInt8.ofNat (v / 64 % 64 + 128) ::
      UInt8.ofNat (v % 64 + 128) :: rest) = some (Char.ofNat v) :: symbolsFrom none rest := by
  have bits : (v / 4096 % 16 * 64 + v / 64 % 64) * 64 + v % 64 = v := by omega
  rw [symbolsFrom_lead (by omega) (by omega) (ofLead?_three (by omega)),
    symbolsFrom_push _ (by omega), symbolsFrom_push _ (by omega) (by simp) (by simp; omega)]
  · simp [bits]
  · dsimp only
    split
    · simp
      omega
    · simp
  · dsimp only
    split <;> simp <;> omega

theorem symbolsFrom_four {v : Nat} (low : 0xFFFF < v) (high : v < 0x110000) (rest : List UInt8) :
    symbolsFrom none (UInt8.ofNat (v / 262144 % 8 + 240) :: UInt8.ofNat (v / 4096 % 64 + 128) ::
      UInt8.ofNat (v / 64 % 64 + 128) :: UInt8.ofNat (v % 64 + 128) :: rest) =
      some (Char.ofNat v) :: symbolsFrom none rest := by
  have bits : ((v / 262144 % 8 * 64 + v / 4096 % 64) * 64 + v / 64 % 64) * 64 + v % 64 = v := by
    omega
  rw [symbolsFrom_lead (by omega) (by omega) (ofLead?_four (by omega)),
    symbolsFrom_push _ (by omega), symbolsFrom_push _ (by omega) (by simp) (by simp; omega),
    symbolsFrom_push _ (by omega) (by simp) (by simp; omega)]
  · simp [bits]
  · dsimp only
    split
    · simp
      omega
    · simp
  · dsimp only
    split <;> simp <;> omega

/-- The bytes of a character are read as the character, whatever comes after them. -/
theorem symbolsFrom_encodeChar (c : Char) (rest : List UInt8) :
    symbolsFrom none (String.utf8EncodeChar c ++ rest) = some c :: symbolsFrom none rest := by
  have valid : c.val.toNat < 0xD800 ∨ 0xDFFF < c.val.toNat ∧ c.val.toNat < 0x110000 := c.valid
  have whole : Char.ofNat c.val.toNat = c := Char.ofNat_toNat c
  unfold String.utf8EncodeChar
  generalize c.val.toNat = v at valid whole
  subst whole
  dsimp only
  split
  · next one => exact symbolsFrom_one one rest
  · split
    · next more two => exact symbolsFrom_two (by omega) two rest
    · split
      · next more three => exact symbolsFrom_three (by omega) three (by omega) rest
      · next more => exact symbolsFrom_four (by omega) (by omega) rest

theorem symbols_encode (text : String) : symbols (encode text) = text.toList.map some := by
  rw [encode_chars, symbols]
  induction text.toList with
  | nil => rfl
  | cons c cs ih => rw [List.flatMap_cons, symbolsFrom_encodeChar, ih, List.map_cons]

theorem decodeLossy_encode (text : String) : decodeLossy (encode text) = text := by
  rw [decodeLossy, symbols_encode, List.map_map]
  exact (congrArg String.ofList (List.map_id _)).trans String.ofList_toList

end FormatPreview.Text
