import CxxSymbols.Text.Utf8
/-! Text that was encoded reads back: no byte of a well-formed sequence is replaced. -/
namespace CxxSymbols.Text

theorem decodeLast {p : Pending} {n : Nat} {c : Char} (missing : p.missing = 1) (small : n < 64)
    (low : p.low ≤ n + 128) (high : n + 128 ≤ p.high) (bits : p.bits * 64 + n = c.toNat)
    (rest : List UInt8) :
    decodeFrom (some p) (UInt8.ofNat (n + 128) :: rest) = c :: decodeFrom none rest := by
  have byte := UInt8.toNat_ofNat_of_lt' (by omega : n + 128 < 256)
  have admitted : p.admits (UInt8.ofNat (n + 128)) = true := by
    rw [Pending.admits, byte, Bool.and_eq_true, decide_eq_true_iff, decide_eq_true_iff]
    exact ⟨low, high⟩
  have whole : (p.extend (UInt8.ofNat (n + 128))).bits = c.toNat := by
    rw [Pending.extend, byte]
    simp only
    omega
  rw [decodeFrom, if_pos admitted, if_pos (Nat.le_of_eq missing), whole, Char.ofNat_toNat]

theorem decodeMiddle {p : Pending} {n : Nat} (missing : 1 < p.missing) (small : n < 64)
    (low : p.low ≤ n + 128) (high : n + 128 ≤ p.high) (rest : List UInt8) :
    decodeFrom (some p) (UInt8.ofNat (n + 128) :: rest) =
      decodeFrom (some ⟨p.missing - 1, p.bits * 64 + n, 0x80, 0xBF⟩) rest := by
  have byte := UInt8.toNat_ofNat_of_lt' (by omega : n + 128 < 256)
  have admitted : p.admits (UInt8.ofNat (n + 128)) = true := by
    rw [Pending.admits, byte, Bool.and_eq_true, decide_eq_true_iff, decide_eq_true_iff]
    exact ⟨low, high⟩
  have grown : p.extend (UInt8.ofNat (n + 128)) =
      ⟨p.missing - 1, p.bits * 64 + n, 0x80, 0xBF⟩ := by
    rw [Pending.extend, byte, Nat.add_sub_cancel]
  rw [decodeFrom, if_pos admitted, if_neg (by omega), grown]

theorem decodeChar (c : Char) (rest : List UInt8) :
    decodeFrom none (String.utf8EncodeChar c ++ rest) = c :: decodeFrom none rest := by
  -- surrogates are no characters, so the ranges of the second byte leave none out
  have valid : c.toNat < 0xD800 ∨ 0xDFFF < c.toNat ∧ c.toNat < 0x110000 := c.valid
  have value : c.val.toNat = c.toNat := rfl
  generalize size : c.toNat = v at valid value
  simp only [String.utf8EncodeChar, value]
  split
  · have byte := UInt8.toNat_ofNat_of_lt' (by omega : v < 256)
    have first : lead (UInt8.ofNat v) = .whole c := by
      rw [lead, byte]
      simp only [if_pos (by omega : v < 0x80)]
      rw [← size, Char.ofNat_toNat]
    rw [List.cons_append, List.nil_append, decodeFrom, first]
  · split
    · have byte := UInt8.toNat_ofNat_of_lt' (by omega : v / 64 % 32 + 192 < 256)
      have first : lead (UInt8.ofNat (v / 64 % 32 + 192)) = .more ⟨1, v / 64, 0x80, 0xBF⟩ := by
        rw [lead, byte]
        simp only [if_neg (by omega : ¬v / 64 % 32 + 192 < 0x80),
          if_neg (by omega : ¬v / 64 % 32 + 192 < 0xC2),
          if_pos (by omega : v / 64 % 32 + 192 < 0xE0)]
        have same : v / 64 % 32 + 192 - 0xC0 = v / 64 := by omega
        simp only [same]
      simp only [List.cons_append, List.nil_append]
      rw [decodeFrom, first]
      exact decodeLast rfl (by omega) (by simp only; omega) (by simp only; omega)
        (by simp only; omega) rest
    · split
      · have byte := UInt8.toNat_ofNat_of_lt' (by omega : v / 4096 % 16 + 224 < 256)
        have first : lead (UInt8.ofNat (v / 4096 % 16 + 224)) = .more ⟨2, v / 4096,
            if v / 4096 = 0 then 0xA0 else 0x80, if v / 4096 = 13 then 0x9F else 0xBF⟩ := by
          rw [lead, byte]
          simp only [if_neg (by omega : ¬v / 4096 % 16 + 224 < 0x80),
            if_neg (by omega : ¬v / 4096 % 16 + 224 < 0xC2),
            if_neg (by omega : ¬v / 4096 % 16 + 224 < 0xE0),
            if_pos (by omega : v / 4096 % 16 + 224 < 0xF0)]
          have same : v / 4096 % 16 + 224 - 0xE0 = v / 4096 := by omega
          have zero : v / 4096 % 16 + 224 = 0xE0 ↔ v / 4096 = 0 := by omega
          have surrogate : v / 4096 % 16 + 224 = 0xED ↔ v / 4096 = 13 := by omega
          simp only [same, zero, surrogate]
        simp only [List.cons_append, List.nil_append]
        rw [decodeFrom, first]
        refine (decodeMiddle (by simp only; omega) (by omega) ?_ ?_ _).trans ?_
        · simp only
          split <;> omega
        · simp only
          split <;> omega
        · exact decodeLast rfl (by omega) (by simp only; omega) (by simp only; omega)
            (by simp only; omega) rest
      · have byte := UInt8.toNat_ofNat_of_lt' (by omega : v / 262144 % 8 + 240 < 256)
        have first : lead (UInt8.ofNat (v / 262144 % 8 + 240)) = .more ⟨3, v / 262144,
            if v / 262144 = 0 then 0x90 else 0x80, if v / 262144 = 4 then 0x8F else 0xBF⟩ := by
          rw [lead, byte]
          simp only [if_neg (by omega : ¬v / 262144 % 8 + 240 < 0x80),
            if_neg (by omega : ¬v / 262144 % 8 + 240 < 0xC2),
            if_neg (by omega : ¬v / 262144 % 8 + 240 < 0xE0),
            if_neg (by omega : ¬v / 262144 % 8 + 240 < 0xF0),
            if_pos (by omega : v / 262144 % 8 + 240 < 0xF5)]
          have same : v / 262144 % 8 + 240 - 0xF0 = v / 262144 := by omega
          have zero : v / 262144 % 8 + 240 = 0xF0 ↔ v / 262144 = 0 := by omega
          have last : v / 262144 % 8 + 240 = 0xF4 ↔ v / 262144 = 4 := by omega
          simp only [same, zero, last]
        simp only [List.cons_append, List.nil_append]
        rw [decodeFrom, first]
        refine (decodeMiddle (by simp only; omega) (by omega) ?_ ?_ _).trans
          ((decodeMiddle (by simp only; omega) (by omega) (by simp only; omega)
            (by simp only; omega) _).trans ?_)
        · simp only
          split <;> omega
        · simp only
          split <;> omega
        · exact decodeLast rfl (by omega) (by simp only; omega) (by simp only; omega)
            (by simp only; omega) rest

theorem decodeFront (cs : List Char) (rest : List UInt8) :
    decodeFrom none (cs.flatMap String.utf8EncodeChar ++ rest) = cs ++ decodeFrom none rest := by
  induction cs with
  | nil => rfl
  | cons c cs ih => rw [List.flatMap_cons, List.append_assoc, decodeChar, ih, List.cons_append]

theorem decodeChars (cs : List Char) :
    decodeFrom none (cs.flatMap String.utf8EncodeChar) = cs := by
  have front := decodeFront cs []
  rwa [List.append_nil, decodeFrom, List.append_nil] at front

theorem encodeChars (s : String) : encode s = s.toList.flatMap String.utf8EncodeChar := by
  have bytes : s.toUTF8 = s.toList.utf8Encode := String.utf8Encode_toList.symm
  rw [encode, bytes, List.utf8Encode, List.data_toByteArray]

theorem encodeAppend (a b : String) : encode (a ++ b) = encode a ++ encode b := by
  rw [encodeChars, encodeChars, encodeChars, String.toList_append, List.flatMap_append]

theorem encodeBegins {s t : String} : encode s <+: encode t ↔ s.toList <+: t.toList := by
  rw [encodeChars, encodeChars]
  constructor
  · rintro ⟨rest, whole⟩
    have decoded := congrArg (decodeFrom none) whole
    rw [decodeFront, decodeChars] at decoded
    exact ⟨_, decoded⟩
  · rintro ⟨more, whole⟩
    rw [← whole, List.flatMap_append]
    exact List.prefix_append _ _

theorem decodeLossyEncode (s : String) : decodeLossy (encode s) = s := by
  rw [decodeLossy, encodeChars, decodeChars, String.ofList_toList]

end CxxSymbols.Text
