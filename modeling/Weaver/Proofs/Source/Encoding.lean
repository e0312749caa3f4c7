import Weaver.Proofs.Source.Head
/-!
Characters as the bytes of a file.

A file is decoded from the left, and each glyph stands for the bytes that were taken for it: a
character for the bytes that encode it, a stray byte for itself. So the bytes of a file can be put
together again from its glyphs, and where a file has no stray bytes it is the encoding of its
characters.
-/
set_option autoImplicit false

namespace Weaver.Source

open Weaver.Text (Glyph)

/-- The bytes of characters, one character after the other. -/
def encoded (cs : List Char) : List UInt8 := cs.flatMap String.utf8EncodeChar

@[simp] theorem encoded_nil : encoded [] = [] := rfl

@[simp] theorem encoded_append (cs ds : List Char) : encoded (cs ++ ds) = encoded cs ++ encoded ds :=
  List.flatMap_append ..

@[simp] theorem length_encoded (cs : List Char) : (encoded cs).length = bytes cs := by
  rw [encoded, List.length_flatMap, bytes]
  simp only [String.length_utf8EncodeChar]

/-- The bytes of a text are those of its characters. -/
theorem toUTF8_eq_encoded (s : String) : s.toUTF8.data.toList = encoded s.toList := by
  rw [String.toUTF8_eq_toByteArray, ← String.utf8Encode_toList, List.utf8Encode,
    List.toList_data_toByteArray, encoded]

theorem utf8ByteSize_eq_bytes (s : String) : s.utf8ByteSize = bytes s.toList := by
  rw [← length_encoded, ← toUTF8_eq_encoded, Array.length_toList]
  rfl

/-- Characters take bytes. -/
theorem encoded_eq_nil {cs : List Char} : encoded cs = [] ↔ cs = [] := by
  rw [← List.length_eq_zero_iff, length_encoded]
  cases cs with
  | nil => exact iff_of_true rfl rfl
  | cons c cs =>
    have size := c.utf8Size_pos
    rw [bytes_cons]
    exact iff_of_false (by omega) (List.cons_ne_nil c cs)

/-- The bytes of characters are found in the place of these. -/
theorem extract_encoded (before here behind : List Char) :
    (encoded (before ++ (here ++ behind))).extract (bytes before) (bytes before + bytes here) =
      encoded here := by
  rw [List.extract_eq_take_drop, Nat.add_sub_cancel_left, encoded_append, encoded_append,
    ← length_encoded before, List.drop_left, ← length_encoded here, List.take_left]

/-! ## Decoding -/

/-- The bytes that a glyph stands for. -/
def glyphBytes : Glyph → List UInt8
  | .char c => String.utf8EncodeChar c
  | .stray b => [b]

/-- A code point is encoded by its bits, six in each byte behind the first one. -/
theorem utf8EncodeChar_ofNat {n : Nat} (valid : n.isValidChar) : String.utf8EncodeChar (Char.ofNat n) =
    if n ≤ 127 then [UInt8.ofNat n]
    else if n ≤ 2047 then [UInt8.ofNat (n / 64 % 32 + 192), UInt8.ofNat (n % 64 + 128)]
    else if n ≤ 65535 then
      [UInt8.ofNat (n / 4096 % 16 + 224), UInt8.ofNat (n / 64 % 64 + 128), UInt8.ofNat (n % 64 + 128)]
    else [UInt8.ofNat (n / 262144 % 8 + 240), UInt8.ofNat (n / 4096 % 64 + 128),
      UInt8.ofNat (n / 64 % 64 + 128), UInt8.ofNat (n % 64 + 128)] := by
  have code : (Char.ofNat n).val.toNat = n := by
    rw [Char.ofNat, dif_pos valid]
    rfl
  rw [String.utf8EncodeChar, code]

/-! The bits of a code point that is put together from well-formed bytes are those of the bytes. The
bounds on the second byte exclude the forms that are longer than need be, and the surrogates. -/

theorem encode_two {a b : Nat} (ha : 0xC2 ≤ a ∧ a ≤ 0xDF) (hb : 0x80 ≤ b ∧ b ≤ 0xBF) :
    String.utf8EncodeChar (Char.ofNat (a % 32 * 64 + b % 64)) = [UInt8.ofNat a, UInt8.ofNat b] := by
  have valid : (a % 32 * 64 + b % 64).isValidChar := by
    unfold Nat.isValidChar
    omega
  rw [utf8EncodeChar_ofNat valid, if_neg (by omega), if_pos (by omega)]
  have first : (a % 32 * 64 + b % 64) / 64 % 32 + 192 = a := by omega
  have second : (a % 32 * 64 + b % 64) % 64 + 128 = b := by omega
  rw [first, second]

theorem encode_three {a b c : Nat} (ha : 0xE0 ≤ a ∧ a ≤ 0xEF) (hb : 0x80 ≤ b ∧ b ≤ 0xBF)
    (short : a = 0xE0 → 0xA0 ≤ b) (surrogate : a = 0xED → b ≤ 0x9F) (hc : 0x80 ≤ c ∧ c ≤ 0xBF) :
    String.utf8EncodeChar (Char.ofNat (a % 16 * 4096 + b % 64 * 64 + c % 64)) =
      [UInt8.ofNat a, UInt8.ofNat b, UInt8.ofNat c] := by
  have valid : (a % 16 * 4096 + b % 64 * 64 + c % 64).isValidChar := by
    unfold Nat.isValidChar
    omega
  rw [utf8EncodeChar_ofNat valid, if_neg (by omega), if_neg (by omega), if_pos (by omega)]
  have first : (a % 16 * 4096 + b % 64 * 64 + c % 64) / 4096 % 16 + 224 = a := by omega
  have second : (a % 16 * 4096 + b % 64 * 64 + c % 64) / 64 % 64 + 128 = b := by omega
  have third : (a % 16 * 4096 + b % 64 * 64 + c % 64) % 64 + 128 = c := by omega
  rw [first, second, third]

theorem encode_four {a b c d : Nat} (ha : 0xF0 ≤ a ∧ a ≤ 0xF4) (hb : 0x80 ≤ b ∧ b ≤ 0xBF)
    (short : a = 0xF0 → 0x90 ≤ b) (high : a = 0xF4 → b ≤ 0x8F) (hc : 0x80 ≤ c ∧ c ≤ 0xBF)
    (hd : 0x80 ≤ d ∧ d ≤ 0xBF) :
    String.utf8EncodeChar
        (Char.ofNat (a % 8 * 262144 + b % 64 * 4096 + c % 64 * 64 + d % 64)) =
      [UInt8.ofNat a, UInt8.ofNat b, UInt8.ofNat c, UInt8.ofNat d] := by
  have valid : (a % 8 * 262144 + b % 64 * 4096 + c % 64 * 64 + d % 64).isValidChar := by
    unfold Nat.isValidChar
    omega
  rw [utf8EncodeChar_ofNat valid, if_neg (by omega), if_neg (by omega), if_neg (by omega)]
  have first : (a % 8 * 262144 + b % 64 * 4096 + c % 64 * 64 + d % 64) / 262144 % 8 + 240 = a := by
    omega
  have second : (a % 8 * 262144 + b % 64 * 4096 + c % 64 * 64 + d % 64) / 4096 % 64 + 128 = b := by
    omega
  have third : (a % 8 * 262144 + b % 64 * 4096 + c % 64 * 64 + d % 64) / 64 % 64 + 128 = c := by
    omega
  have fourth : (a % 8 * 262144 + b % 64 * 4096 + c % 64 * 64 + d % 64) % 64 + 128 = d := by omega
  rw [first, second, third, fourth]

section Bytes

variable {a b : UInt8}

theorem between_iff {low high : UInt8} : (decide (low ≤ b) && decide (b ≤ high)) = true ↔
    low.toNat ≤ b.toNat ∧ b.toNat ≤ high.toNat := by
  rw [Bool.and_eq_true, decide_eq_true_eq, decide_eq_true_eq, UInt8.le_iff_toNat_le,
    UInt8.le_iff_toNat_le]

theorem continues_bounds (h : Glyph.continues b = true) : 0x80 ≤ b.toNat ∧ b.toNat ≤ 0xBF :=
  between_iff.mp h

/-- The second byte is a continuing one, and keeps to a bound of its own behind the least and the
greatest first byte. -/
theorem second_bounds {least greatest low high : UInt8} (differ : least.toNat ≠ greatest.toNat)
    (hl : 0x80 ≤ low.toNat) (hh : high.toNat ≤ 0xBF)
    (h : (if a == least then decide (low ≤ b) && decide (b ≤ 0xBF)
      else if a == greatest then decide (0x80 ≤ b) && decide (b ≤ high)
      else Glyph.continues b) = true) :
    (0x80 ≤ b.toNat ∧ b.toNat ≤ 0xBF) ∧ (a.toNat = least.toNat → low.toNat ≤ b.toNat) ∧
      (a.toNat = greatest.toNat → b.toNat ≤ high.toNat) := by
  by_cases first : a = least
  · rw [if_pos (beq_iff_eq.mpr first)] at h
    have bounds : low.toNat ≤ b.toNat ∧ b.toNat ≤ 0xBF := between_iff.mp h
    subst first
    exact ⟨⟨Nat.le_trans hl bounds.1, bounds.2⟩, fun _ => bounds.1, fun same => absurd same differ⟩
  · have unlike : a.toNat ≠ least.toNat := fun same => first (UInt8.toNat_inj.mp same)
    rw [if_neg (mt beq_iff_eq.mp first)] at h
    by_cases last : a = greatest
    · rw [if_pos (beq_iff_eq.mpr last)] at h
      have bounds : 0x80 ≤ b.toNat ∧ b.toNat ≤ high.toNat := between_iff.mp h
      exact ⟨⟨bounds.1, Nat.le_trans bounds.2 hh⟩, fun same => absurd same unlike, fun _ => bounds.2⟩
    · have unlike' : a.toNat ≠ greatest.toNat := fun same => last (UInt8.toNat_inj.mp same)
      rw [if_neg (mt beq_iff_eq.mp last)] at h
      exact ⟨continues_bounds h, fun same => absurd same unlike, fun same => absurd same unlike'⟩

theorem secondOfThree_bounds (h : Glyph.secondOfThree a b = true) :
    (0x80 ≤ b.toNat ∧ b.toNat ≤ 0xBF) ∧ (a.toNat = 0xE0 → 0xA0 ≤ b.toNat) ∧
      (a.toNat = 0xED → b.toNat ≤ 0x9F) :=
  second_bounds (by decide) (by decide) (by decide) h

theorem secondOfFour_bounds (h : Glyph.secondOfFour a b = true) :
    (0x80 ≤ b.toNat ∧ b.toNat ≤ 0xBF) ∧ (a.toNat = 0xF0 → 0x90 ≤ b.toNat) ∧
      (a.toNat = 0xF4 → b.toNat ≤ 0x8F) :=
  second_bounds (by decide) (by decide) (by decide) h

end Bytes

/-- A character that is decoded has been encoded by the bytes taken for it. -/
theorem utf8EncodeChar_first? {b : UInt8} {rest : List UInt8} {code more : Nat}
    (h : Glyph.first? b rest = some (code, more)) :
    String.utf8EncodeChar (Char.ofNat code) = b :: rest.take more := by
  unfold Glyph.first? at h
  split at h
  · next small =>
    cases h
    have ascii : b.toNat < 128 := UInt8.lt_iff_toNat_lt.mp small
    rw [utf8EncodeChar_ofNat (.inl (by omega)), if_pos (by omega), UInt8.ofNat_toNat,
      List.take_zero]
  · next large =>
    split at h
    · next b1 rest =>
      split at h
      · next two =>
        split at h
        · next tail =>
          cases h
          rw [Glyph.low, encode_two (between_iff.mp (by simpa using two)) (continues_bounds tail)]
          simp only [UInt8.ofNat_toNat, List.take_succ_cons, List.take_zero]
        · cases h
      · split at h
        · next b2 rest =>
          split at h
          · next three =>
            split at h
            · next tail =>
              cases h
              obtain ⟨second, third⟩ := Bool.and_eq_true_iff.mp tail
              obtain ⟨bounds, short, surrogate⟩ := secondOfThree_bounds second
              rw [Glyph.low, Glyph.low, encode_three (between_iff.mp (by simpa using three)) bounds
                short surrogate (continues_bounds third)]
              simp only [UInt8.ofNat_toNat, List.take_succ_cons, List.take_zero]
            · cases h
          · split at h
            · next b3 _ =>
              split at h
              · next tail =>
                cases h
                simp only [Bool.and_eq_true] at tail
                obtain ⟨⟨⟨four, second⟩, third⟩, fourth⟩ := tail
                obtain ⟨bounds, short, high⟩ := secondOfFour_bounds second
                rw [Glyph.low, Glyph.low, Glyph.low, encode_four (between_iff.mp (by simpa using four))
                  bounds short high (continues_bounds third) (continues_bounds fourth)]
                simp only [UInt8.ofNat_toNat, List.take_succ_cons, List.take_zero]
              · cases h
            · cases h
        · cases h
    · cases h

/-- The glyphs of a file stand for its bytes. -/
theorem glyphBytes_decodeFrom (skip : Nat) (bs : List UInt8) :
    (Glyph.decodeFrom skip bs).flatMap glyphBytes = bs.drop skip := by
  fun_induction Glyph.decodeFrom skip bs with
  | case1 skip => rw [List.flatMap_nil, List.drop_nil]
  | case2 skip b rest ih => rw [ih, List.drop_succ_cons]
  | case3 b rest code more first ih =>
    rw [List.flatMap_cons, ih, glyphBytes, utf8EncodeChar_first? first, List.cons_append,
      List.take_append_drop, List.drop_zero]
  | case4 b rest first ih => rw [List.flatMap_cons, ih, glyphBytes, List.singleton_append]; rfl

/-- A file without stray bytes encodes its characters. -/
theorem encoded_of_decode {bs : List UInt8} {cs : List Char}
    (h : Glyph.decode bs = cs.map Glyph.char) : encoded cs = bs := by
  have whole := glyphBytes_decodeFrom 0 bs
  rw [show Glyph.decodeFrom 0 bs = cs.map Glyph.char from h, List.flatMap_map, List.drop_zero] at whole
  exact whole

end Weaver.Source
