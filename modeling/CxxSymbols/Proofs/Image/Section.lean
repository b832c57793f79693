import CxxSymbols.Image.Section
import CxxSymbols.Proofs.Rtti.View
import Mathlib.Data.Nat.Digits.Defs
/-! Addresses and places in the data of a section. Every check decides the same: whether an address
is that of a place in the data. The size in memory plays no part in it. -/
namespace CxxSymbols.Image.Section
open Text (littleEndian)

def Holds (s : Section) (address : Address) (offset : Nat) : Prop :=
  address.toNat = s.address.toNat + offset ∧ offset < s.data.size

def bytesAt (s : Section) (offset count : Nat) : List UInt8 :=
  (s.data.data.toList.drop offset).take count

variable {s : Section} {address : Address} {offset other n : Nat}

theorem placeUnique (holds : s.Holds address offset) (again : s.Holds address other) :
    other = offset :=
  Nat.add_left_cancel (again.1.symm.trans holds.1)

/-! ### Both ways -/

theorem offsetOfHeld : s.offsetOf? address = some offset ↔ s.Holds address offset := by
  have above : s.address ≤ address ↔ s.address.toNat ≤ address.toNat := UInt64.le_iff_toNat_le
  simp only [offsetOf?, Holds, Option.ite_none_right_eq_some, Option.some.injEq, above]
  omega

/- The data has to end with the last address at the latest, or places would start again at zero. -/
theorem addressOfHeld (fits : s.address.toNat + s.data.size ≤ UInt64.size) :
    s.addressOf? offset = some address ↔ s.Holds address offset := by
  have sum (inside : offset < s.data.size) :
      (s.address + UInt64.ofNat offset).toNat = s.address.toNat + offset := by
    rw [UInt64.toNat_add, UInt64.toNat_ofNat', Nat.add_mod_mod]
    exact Nat.mod_eq_of_lt (Nat.lt_of_lt_of_le (Nat.add_lt_add_left inside _) fits)
  rw [addressOf?, Holds]
  constructor
  · intro found
    split at found
    · rename_i inside
      cases found
      exact ⟨sum inside, inside⟩
    · cases found
  · rintro ⟨place, inside⟩
    rw [if_pos inside]
    exact congrArg some (UInt64.toNat_inj.mp ((sum inside).trans place.symm))

/-! ### The view -/

@[simp] theorem viewBase (s : Section) : s.view.base = s.address := rfl

@[simp] theorem viewBytes (s : Section) : s.view.bytes = s.data := rfl

@[simp] theorem viewWidth (s : Section) : s.view.width = s.width := rfl

theorem containsHeld : s.view.contains address = true ↔ ∃ offset, s.Holds address offset := by
  rw [Rtti.View.contains, Bool.and_eq_true, decide_eq_true_eq, decide_eq_true_eq]
  simp only [viewBase, viewBytes]
  constructor
  · rintro ⟨above, inside⟩
    rw [UInt64.toNat_sub_of_le _ _ above] at inside
    exact ⟨_, (Nat.add_sub_of_le (UInt64.le_iff_toNat_le.mp above)).symm, inside⟩
  · rintro ⟨offset, place, inside⟩
    have above : s.address ≤ address := UInt64.le_iff_toNat_le.mpr (by omega)
    refine ⟨above, ?_⟩
    rw [UInt64.toNat_sub_of_le _ _ above]
    omega

theorem wordHeld : s.view.Holds address.toNat s.width.bytes ↔
    ∃ offset, s.Holds address offset ∧ offset + s.width.bytes ≤ s.data.size := by
  have some : 0 < s.width.bytes := by cases s.width <;> decide
  simp only [Rtti.View.Holds, viewBase, viewBytes]
  constructor
  · rintro ⟨above, below⟩
    exact ⟨address.toNat - s.address.toNat, ⟨by omega, by omega⟩, by omega⟩
  · rintro ⟨offset, ⟨place, _⟩, inside⟩
    omega

theorem littleEndianDigits (bytes : List UInt8) :
    littleEndian bytes = Nat.ofDigits 256 (bytes.map UInt8.toNat) := by
  induction bytes with
  | nil => rfl
  | cons b bytes ih => rw [littleEndian, List.map_cons, Nat.ofDigits_cons, ih]

theorem wordAtPlace (holds : s.Holds address offset) : s.view.wordAt address.toNat =
    Nat.ofDigits 256 ((s.bytesAt offset s.width.bytes).map UInt8.toNat) := by
  have place : address.toNat - s.address.toNat = offset := by
    rw [holds.1, Nat.add_sub_cancel_left]
  simp only [Rtti.View.wordAt, Rtti.View.numberAt, Rtti.View.bytesAt, littleEndianDigits, bytesAt,
    viewBase, viewBytes, viewWidth, place]

theorem readWordHeld : s.view.readWord address.toNat = .ok n ↔
    ∃ offset, s.Holds address offset ∧ offset + s.width.bytes ≤ s.data.size ∧
      n = Nat.ofDigits 256 ((s.bytesAt offset s.width.bytes).map UInt8.toNat) := by
  by_cases held : s.view.Holds address.toNat s.width.bytes
  · obtain ⟨offset, holds, inside⟩ := wordHeld.mp held
    rw [Rtti.View.readWordHeld held, wordAtPlace holds]
    constructor
    · intro same
      cases same
      exact ⟨offset, holds, inside, rfl⟩
    · rintro ⟨other, again, _, rfl⟩
      rw [placeUnique holds again]
  · rw [Rtti.View.readWordOutside held]
    refine iff_of_false nofun ?_
    rintro ⟨offset, holds, inside, _⟩
    exact held (wordHeld.mpr ⟨offset, holds, inside⟩)

/- In a section whose data ends with the address space or before, an address in the data is that of
one place, whichever way it is asked for, the view contains these addresses, and a word is read
where all of its bytes are data. The size in memory may be any. -/
theorem addressesAgree (s : Section) (fits : s.address.toNat + s.data.size ≤ UInt64.size) :
    (∀ address offset, s.offsetOf? address = some offset ↔
      address.toNat = s.address.toNat + offset ∧ offset < s.data.size) ∧
    (∀ address offset, s.offsetOf? address = some offset ↔ s.addressOf? offset = some address) ∧
    (∀ address, (s.offsetOf? address).isSome = true ↔ s.view.contains address = true) ∧
    ∀ address n, s.view.readWord address.toNat = .ok n ↔
      ∃ offset, s.offsetOf? address = some offset ∧ offset + s.width.bytes ≤ s.data.size ∧
        n = Nat.ofDigits 256 ((s.bytesAt offset s.width.bytes).map UInt8.toNat) := by
  refine ⟨fun address offset => offsetOfHeld, fun address offset => ?_, fun address => ?_,
    fun address n => ?_⟩
  · rw [offsetOfHeld, addressOfHeld fits]
  · simp only [Option.isSome_iff_exists, offsetOfHeld, containsHeld]
  · simp only [offsetOfHeld, readWordHeld]

theorem lastWordAgrees :
    let s : Section := ⟨0xfffffffffffffff4, 4096, .bits64, ⟨#[0, 0, 0, 0, 1, 2, 0, 0, 0, 0, 0, 0]⟩⟩
    s.address.toNat + s.data.size ≤ UInt64.size ∧
      s.offsetOf? 0xfffffffffffffff8 = some 4 ∧ s.addressOf? 4 = some 0xfffffffffffffff8 ∧
      s.view.contains 0xfffffffffffffff8 = true ∧
      s.view.readWord 0xfffffffffffffff8 = .ok 513 ∧
      ∀ n, s.view.readWord 0xfffffffffffffff9 ≠ .ok n := by
  intro s
  have fits : s.address.toNat + s.data.size ≤ UInt64.size := by decide
  obtain ⟨places, back, contained, words⟩ := addressesAgree s fits
  have found : s.offsetOf? 0xfffffffffffffff8 = some 4 := (places _ _).mpr (by decide)
  have next : s.offsetOf? 0xfffffffffffffff9 = some 5 := (places _ _).mpr (by decide)
  refine ⟨fits, found, (back _ _).mp found, (contained _).mp (by rw [found]; rfl),
    (words 0xfffffffffffffff8 513).mpr ⟨4, found, by decide, by decide⟩, fun n read => ?_⟩
  obtain ⟨offset, place, inside, _⟩ := (words 0xfffffffffffffff9 n).mp read
  rw [next] at place
  cases place
  exact absurd inside (by decide)

end CxxSymbols.Image.Section
