import CxxSymbols.Proofs.Rtti.View
import CxxSymbols.Rtti.VTable
import Mathlib.Data.Nat.Find
/-! Where a table ends. The entries of a table are the words of its slots up to the first slot that
does not lie in the view, or that is zero and not one for the loader to fill. So with more slots for
the loader to fill a table can only go on for longer. -/
namespace CxxSymbols.Rtti
open View (Answers Field)

abbrev Pending := Std.ExtTreeSet Address

def Ends (v : View) (pending : Pending) (slot : Nat) : Prop :=
  ¬v.Holds slot v.width.bytes ∨ v.wordAt slot = 0 ∧ UInt64.ofNat slot ∉ pending

variable {v : View} {pending : Pending} {address : Address} {slot slots n : Nat}

/-! ### One slot -/

theorem entriesEnd (ends : Ends v pending slot) : entriesFrom v pending slot slots = [] := by
  cases slots with
  | zero => rfl
  | succ slots =>
    by_cases held : v.Holds slot v.width.bytes
    · obtain ⟨zero, filled⟩ := ends.resolve_left (not_not.mpr held)
      have stop : v.wordAt slot = 0 ∧ ¬pending.contains (.ofNat slot) = true :=
        ⟨zero, fun mem => filled (Std.ExtTreeSet.contains_iff_mem.mp mem)⟩
      simp only [entriesFrom, View.readWordHeld held, if_pos stop]
    · simp only [entriesFrom, View.readWordOutside held]

theorem entriesGoOn (goes : ¬Ends v pending slot) : entriesFrom v pending slot (slots + 1) =
    .ofNat (v.wordAt slot) :: entriesFrom v pending (slot + v.width.bytes) slots := by
  have held : v.Holds slot v.width.bytes := not_not.mp fun missing => goes (.inl missing)
  have on : ¬(v.wordAt slot = 0 ∧ ¬pending.contains (.ofNat slot) = true) := fun stop =>
    goes (.inr ⟨stop.1, fun mem => stop.2 (Std.ExtTreeSet.contains_iff_mem.mpr mem)⟩)
  simp only [entriesFrom, View.readWordHeld held, if_neg on]

/-! ### All slots -/

theorem endsWithin (v : View) (pending : Pending) (slot : Nat) :
    ∃ n ≤ v.bytes.size, Ends v pending (slot + n * v.width.bytes) := by
  have wide : 4 ≤ v.width.bytes := by cases v.width <;> decide
  by_cases below : slot < v.base.toNat
  · refine ⟨0, Nat.zero_le _, .inl fun held => ?_⟩
    have above := held.1
    omega
  · refine ⟨v.bytes.size, Nat.le_refl _, .inl fun held => ?_⟩
    have within := held.2
    have many := Nat.le_mul_of_pos_right v.bytes.size (Nat.lt_of_lt_of_le (by decide) wide)
    omega

theorem endsFirst (v : View) (pending : Pending) (slot : Nat) :
    ∃ n ≤ v.bytes.size, Ends v pending (slot + n * v.width.bytes) ∧
      ∀ i < n, ¬Ends v pending (slot + i * v.width.bytes) := by
  classical
  obtain ⟨last, within, ends⟩ := endsWithin v pending slot
  have somewhere : ∃ n, Ends v pending (slot + n * v.width.bytes) := ⟨last, ends⟩
  exact ⟨Nat.find somewhere, Nat.le_trans (Nat.find_min' somewhere ends) within,
    Nat.find_spec somewhere, fun i before => Nat.find_min somewhere before⟩

theorem entriesUntil (ends : Ends v pending (slot + n * v.width.bytes))
    (goes : ∀ i < n, ¬Ends v pending (slot + i * v.width.bytes)) (enough : n ≤ slots) :
    entriesFrom v pending slot slots =
      (List.range n).map fun i => .ofNat (v.wordAt (slot + i * v.width.bytes)) := by
  induction n generalizing slot slots with
  | zero =>
    rw [Nat.zero_mul] at ends
    exact entriesEnd ends
  | succ n ih =>
    have next (i : Nat) : slot + v.width.bytes + i * v.width.bytes =
        slot + (i + 1) * v.width.bytes := by
      rw [Nat.succ_mul]
      omega
    have first : ¬Ends v pending slot := by simpa using goes 0 (Nat.succ_pos n)
    cases slots with
    | zero => cases enough
    | succ slots =>
      have behind : Ends v pending (slot + v.width.bytes + n * v.width.bytes) := by rwa [next]
      have goesBehind (i : Nat) (before : i < n) :
          ¬Ends v pending (slot + v.width.bytes + i * v.width.bytes) := by
        rw [next]
        exact goes (i + 1) (Nat.succ_lt_succ before)
      have rest := ih behind goesBehind (Nat.le_of_succ_le_succ enough)
      simp [entriesGoOn first, rest, List.range_succ_eq_map, next]

theorem endsFewer {others : Pending} (all : ∀ a ∈ pending, a ∈ others)
    (ends : Ends v others slot) : Ends v pending slot :=
  ends.imp_right fun ⟨zero, filled⟩ => ⟨zero, fun mem => filled (all _ mem)⟩

theorem entriesLonger {others : Pending} (all : ∀ a ∈ pending, a ∈ others) (slot slots : Nat) :
    entriesFrom v pending slot slots <+: entriesFrom v others slot slots := by
  induction slots generalizing slot with
  | zero => exact List.prefix_rfl
  | succ slots ih =>
    by_cases ends : Ends v pending slot
    · rw [entriesEnd ends]
      exact List.nil_prefix
    · rw [entriesGoOn ends, entriesGoOn fun others => ends (endsFewer all others)]
      exact (List.prefix_cons_inj _).mpr (ih _)

namespace VTable

def header (v : View) (address : Address) : List Field :=
  [(address.toNat, v.width.bytes), (address.toNat + v.width.bytes, v.width.bytes)]

def slotAt (v : View) (address : Address) (i : Nat) : Nat :=
  address.toNat + (2 + i) * v.width.bytes

structure Complete (v : View) (pending : Pending) (place : Address) (table : VTable) : Prop where
  address : table.address = place
  words : table.entries.map UInt64.toNat =
    (List.range table.entries.length).map fun i => v.wordAt (slotAt v place i)
  goes : ∀ i < table.entries.length, ¬Ends v pending (slotAt v place i)
  ends : Ends v pending (slotAt v place table.entries.length)

def found (v : View) (pending : Pending) (address : Address) : VTable :=
  ⟨address, entriesFrom v pending (address.toNat + 2 * v.width.bytes) v.bytes.size⟩

theorem foundComplete (v : View) (pending : Pending) (address : Address) :
    Complete v pending address (found v pending address) := by
  obtain ⟨n, within, ends, goes⟩ := endsFirst v pending (address.toNat + 2 * v.width.bytes)
  have place (i : Nat) : address.toNat + 2 * v.width.bytes + i * v.width.bytes =
      slotAt v address i := by
    rw [slotAt, Nat.add_mul, Nat.add_assoc]
  have entries : (found v pending address).entries =
      (List.range n).map fun i => .ofNat (v.wordAt (slotAt v address i)) := by
    have words := entriesUntil ends goes within
    simp only [place] at words
    exact words
  have length : (found v pending address).entries.length = n := by simp [entries]
  simp only [place] at ends goes
  refine ⟨rfl, ?_, by rwa [length], by rwa [length]⟩
  rw [length, entries, List.map_map]
  exact List.map_congr_left fun i _ => UInt64.toNat_ofNat_of_lt' (View.wordBelow v _)

theorem vtableAnswers (v : View) (pending : Pending) (address : Address) :
    Answers v (· = found v pending address) (header v address)
      (VTable.read v address pending) := by
  refine View.answersNext View.readWordHeld View.readWordOutside ?_
  exact View.answersNext View.readWordHeld View.readWordOutside (.done rfl)

theorem zeroFilled {table : VTable} (complete : Complete v pending address table) {i : Nat}
    (zero : table.entries[i]? = some 0) : UInt64.ofNat (slotAt v address i) ∈ pending := by
  obtain ⟨within, _⟩ := List.getElem?_eq_some_iff.mp zero
  have word : (table.entries.map UInt64.toNat)[i]? = some 0 := by
    rw [List.getElem?_map, zero]
    rfl
  rw [complete.words, List.getElem?_map, List.getElem?_range within] at word
  have nothing : v.wordAt (slotAt v address i) = 0 := Option.some.inj word
  refine Decidable.byContradiction fun missing => ?_
  exact complete.goes i within (.inr ⟨nothing, missing⟩)

end VTable

/- A table is refused exactly where one of the two words in front of it does not lie in the view.
Otherwise its entries are the words up to the first slot at which it ends, an entry of it that is
zero is one for the loader to fill, and with more of these it begins with the same entries. -/
theorem tableEndsFirst (v : View) (address : Address) :
    (∀ pending,
      ((∃ place, VTable.read v address pending = .error (.outOfBounds place)) ↔
        ∃ f ∈ VTable.header v address, ¬v.Holds f.1 f.2) ∧
      ((∀ f ∈ VTable.header v address, v.Holds f.1 f.2) →
        ∃ table, VTable.read v address pending = .ok table ∧
          VTable.Complete v pending address table) ∧
      ∀ table, VTable.read v address pending = .ok table →
        ∀ i, table.entries[i]? = some 0 →
          UInt64.ofNat (VTable.slotAt v address i) ∈ pending) ∧
    ∀ pending others, (∀ a ∈ pending, a ∈ others) →
      ∀ shorter longer, VTable.read v address pending = .ok shorter →
        VTable.read v address others = .ok longer → shorter.entries <+: longer.entries := by
  refine ⟨fun pending => ?_, fun pending others all shorter longer ran ran' => ?_⟩
  · have answers := VTable.vtableAnswers v pending address
    have complete := VTable.foundComplete v pending address
    refine ⟨View.answersFail answers, fun held => ?_, fun table ran i zero => ?_⟩
    · obtain ⟨table, ran, rfl⟩ := View.answersInside answers held
      exact ⟨_, ran, complete⟩
    · cases View.answersHold answers ran
      exact VTable.zeroFilled complete zero
  · cases View.answersHold (VTable.vtableAnswers v pending address) ran
    cases View.answersHold (VTable.vtableAnswers v others address) ran'
    exact entriesLonger all _ _

theorem filledSlotGoesOn :
    let words : List UInt8 := [0, 0x9000, 0x1111, 0, 0x3333].flatMap (Text.toLittleEndian 8)
    let v : View := ⟨0x200000, ⟨(words ++ [1, 2, 3]).toArray⟩, .bits64⟩
    let filled : Pending := Std.ExtTreeSet.empty.insert 0x200018
    ∃ shorter longer, VTable.read v 0x200000 ∅ = .ok shorter ∧
      VTable.read v 0x200000 filled = .ok longer ∧ VTable.Complete v filled 0x200000 longer ∧
      shorter.entries = [0x1111] ∧ longer.entries = [0x1111, 0, 0x3333] ∧
      shorter.entries <+: longer.entries ∧ UInt64.ofNat (VTable.slotAt v 0x200000 1) ∈ filled := by
  intro words v filled
  have shorter : VTable.read v 0x200000 ∅ = .ok ⟨0x200000, [0x1111]⟩ := by decide +kernel
  have longer : VTable.read v 0x200000 filled = .ok ⟨0x200000, [0x1111, 0, 0x3333]⟩ := by
    decide +kernel
  obtain ⟨each, together⟩ := tableEndsFirst v 0x200000
  obtain ⟨table, ran, complete⟩ := (each filled).2.1 (by decide)
  cases longer.symm.trans ran
  have slot := (each filled).2.2 ⟨0x200000, [0x1111, 0, 0x3333]⟩ longer 1 rfl
  refine ⟨_, _, shorter, longer, complete, rfl, rfl, ?_, slot⟩
  exact together ∅ filled (fun a mem => absurd mem Std.ExtTreeSet.not_mem_empty) _ _ shorter longer

end CxxSymbols.Rtti
