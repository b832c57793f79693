import CxxSymbols.Text.Number
/-! Numbers as bytes. So many bytes hold the numbers below a bound, each of which is read back, and
in two's complement the numbers on both sides of zero that are less than half of it away. -/
namespace CxxSymbols.Text
variable {count n : Nat}

def byteBound (count : Nat) : Nat := 1 <<< (8 * count)

theorem byteBoundNext (count : Nat) : byteBound (count + 1) = 256 * byteBound count := by
  simp only [byteBound, Nat.shiftLeft_eq, Nat.mul_add, Nat.pow_add]
  omega

theorem byteBoundPositive (count : Nat) : 0 < byteBound count := by
  rw [byteBound, Nat.shiftLeft_eq, Nat.one_mul]
  exact Nat.two_pow_pos _

theorem byteBoundMono {few : Nat} (fewer : few ≤ count) : byteBound few ≤ byteBound count := by
  rw [byteBound, byteBound, Nat.shiftLeft_eq, Nat.shiftLeft_eq, Nat.one_mul, Nat.one_mul]
  exact Nat.pow_le_pow_right (by decide) (Nat.mul_le_mul_left 8 fewer)

theorem littleEndianBelow (bytes : List UInt8) : littleEndian bytes < byteBound bytes.length := by
  induction bytes with
  | nil => exact byteBoundPositive 0
  | cons b bytes ih =>
    have byte := b.toNat_lt
    rw [littleEndian, List.length_cons, byteBoundNext]
    omega

theorem littleEndianReadsBack (fits : n < byteBound count) :
    littleEndian (toLittleEndian count n) = n := by
  induction count generalizing n with
  | zero =>
    have zero : n = 0 := by simpa [byteBound] using fits
    rw [zero]
    rfl
  | succ count ih =>
    rw [byteBoundNext] at fits
    have high : n / 256 < byteBound count := by omega
    have low : (UInt8.ofNat n).toNat = n % 256 := UInt8.toNat_ofNat'
    rw [toLittleEndian, littleEndian, ih high, low]
    omega

/-! ### Two's complement -/

def twosComplement (count : Nat) (n : Int) : Nat := (n % byteBound count).toNat

def FitsSigned (count : Nat) (n : Int) : Prop := -byteBound count ≤ 2 * n ∧ 2 * n < byteBound count

theorem twosComplementFits (count : Nat) (n : Int) : twosComplement count n < byteBound count := by
  have positive := byteBoundPositive count
  have below := Int.emod_lt_of_pos n (Int.ofNat_lt.mpr positive)
  rw [twosComplement]
  omega

theorem signedReadsBack {n : Int} (fits : FitsSigned count n) :
    signed count (twosComplement count n) = n := by
  have positive := Int.ofNat_lt.mpr (byteBoundPositive count)
  have natural : ((n % byteBound count).toNat : Int) = n % byteBound count :=
    Int.toNat_of_nonneg (Int.emod_nonneg n (Int.ne_of_gt positive))
  obtain ⟨above, below⟩ := fits
  rw [signed, twosComplement, natural]
  change Int.bmod (n % byteBound count) (byteBound count) = n
  rw [Int.emod_bmod]
  exact Int.bmod_eq_of_le (by omega) (by omega)

end CxxSymbols.Text
