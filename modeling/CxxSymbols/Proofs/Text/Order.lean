import CxxSymbols.Proofs.Text.Utf8
/-! Text is ordered as its bytes are. Of two characters the later one has the larger bytes, and a
longer sequence begins with a larger byte than a shorter one. -/
namespace CxxSymbols.Text

theorem byteBelow {n m : Nat} (left : n < 256) (right : m < 256) :
    UInt8.ofNat n < UInt8.ofNat m ↔ n < m := by
  rw [UInt8.lt_iff_toNat_lt, UInt8.toNat_ofNat_of_lt' left, UInt8.toNat_ofNat_of_lt' right]

theorem byteSame {n m : Nat} (left : n < 256) (right : m < 256) :
    UInt8.ofNat n = UInt8.ofNat m ↔ n = m := by
  rw [← UInt8.toNat_inj, UInt8.toNat_ofNat_of_lt' left, UInt8.toNat_ofNat_of_lt' right]

/- The bytes of a character are below those of any character behind it, whatever follows. -/
theorem encodeCharBelow {c d : Char} (below : c < d) (rest behind : List UInt8) :
    String.utf8EncodeChar c ++ rest < String.utf8EncodeChar d ++ behind := by
  have less : c.toNat < d.toNat := below
  have valid : d.toNat < 0xD800 ∨ 0xDFFF < d.toNat ∧ d.toNat < 0x110000 := d.valid
  have left : c.val.toNat = c.toNat := rfl
  have right : d.val.toNat = d.toNat := rfl
  generalize c.toNat = v at less left
  generalize d.toNat = w at less valid right
  have sixes (n : Nat) : n / 64 / 64 = n / 4096 ∧ n / 4096 / 64 = n / 262144 :=
    ⟨Nat.div_div_eq_div_mul n 64 64, Nat.div_div_eq_div_mul n 4096 64⟩
  have lastBits {n : Nat} (within : n < 0x110000) : n / 262144 % 8 = n / 262144 :=
    Nat.mod_eq_of_lt (by omega)
  have leftSixes := sixes v
  have rightSixes := sixes w
  simp only [String.utf8EncodeChar, left, right, lastBits (by omega : v < 0x110000),
    lastBits (by omega : w < 0x110000)]
  -- one goal for each two lengths
  repeat' split
  all_goals
    simp (disch := omega) only [List.cons_append, List.nil_append, List.cons_lt_cons_iff,
      byteBelow, byteSame]
    omega

theorem encodeCharsBelow {cs ds : List Char} (below : cs < ds) :
    cs.flatMap String.utf8EncodeChar < ds.flatMap String.utf8EncodeChar := by
  induction cs generalizing ds with
  | nil =>
    cases ds with
    | nil => exact absurd below (List.not_lt_nil [])
    | cons d ds =>
      obtain ⟨b, bytes, shape⟩ := List.exists_cons_of_ne_nil (@String.utf8EncodeChar_ne_nil d)
      rw [List.flatMap_cons, shape]
      exact List.nil_lt_cons b _
  | cons c cs ih =>
    cases ds with
    | nil => exact absurd below (List.not_lt_nil _)
    | cons d ds =>
      rw [List.flatMap_cons, List.flatMap_cons]
      rcases List.cons_lt_cons_iff.mp below with first | ⟨rfl, later⟩
      · exact encodeCharBelow first _ _
      · exact List.append_left_lt (ih later)

theorem encodeOrdered {s t : String} : encode s < encode t ↔ s < t := by
  have up {s t : String} (below : s < t) : encode s < encode t := by
    rw [encodeChars, encodeChars]
    exact encodeCharsBelow below
  refine ⟨fun bytes => ?_, up⟩
  have notAbove : s ≤ t := String.not_lt.mp fun above => List.lt_asymm bytes (up above)
  refine String.not_le.mp fun notBelow => ?_
  cases String.le_antisymm notAbove notBelow
  exact List.lt_irrefl _ bytes

end CxxSymbols.Text
