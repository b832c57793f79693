import CxxSymbols.Proofs.Store.Reader
import Mathlib.Data.Nat.Digits.Defs
/-! The numbers in front of a message, for all bytes that may stand there. A byte from 128 on says
that the number goes on, and ten bytes are the most that are read. The digits of a number are the
bytes without that sign; what they come to may need more than 64 bits. -/
namespace CxxSymbols.Store
open Stateful

def numberOf (bytes : List UInt8) : Nat := Nat.ofDigits 128 (bytes.map fun b => b.toNat % 128)

theorem numberNext (b : UInt8) (bytes : List UInt8) :
    numberOf (b :: bytes) = b.toNat % 128 + 128 * numberOf bytes := Nat.ofDigits_cons ..

abbrev GoesOn (bytes : List UInt8) : Prop := ∀ b ∈ bytes, 128 ≤ b.toNat

/-! ### Bytes -/

theorem leb128InEnds {left : Nat} {front behind : List UInt8} {last : UInt8}
    (goesOn : GoesOn front) (ends : last.toNat < 128) (short : front.length < left) :
    leb128In left (front ++ last :: behind) =
      .ok (numberOf (front ++ [last]), front.length + 1) := by
  induction front generalizing left with
  | nil =>
    obtain ⟨left, rfl⟩ := Nat.exists_eq_add_one_of_ne_zero (Nat.ne_zero_of_lt short)
    rw [List.nil_append, leb128In, if_pos ends, List.nil_append, numberNext, Nat.mod_eq_of_lt ends]
    rfl
  | cons b front ih =>
    obtain ⟨left, rfl⟩ := Nat.exists_eq_add_one_of_ne_zero (Nat.ne_zero_of_lt short)
    obtain ⟨high, others⟩ := List.forall_mem_cons.mp goesOn
    have byte : b.toNat - 128 = b.toNat % 128 := by
      have small := b.toNat_lt
      omega
    rw [List.cons_append, leb128In, if_neg (Nat.not_lt.mpr high),
      ih others (Nat.lt_of_succ_lt_succ short), List.cons_append, numberNext, byte]
    rfl

theorem leb128InEndless {left : Nat} {bytes : List UInt8} (goesOn : GoesOn (bytes.take left))
    (enough : left ≤ bytes.length) : leb128In left bytes = .error .varintTooLong := by
  induction left generalizing bytes with
  | zero => rw [leb128In]
  | succ left ih =>
    obtain ⟨b, bytes, rfl⟩ := List.exists_cons_of_length_pos (Nat.zero_lt_of_lt enough)
    rw [List.take_succ_cons] at goesOn
    obtain ⟨high, others⟩ := List.forall_mem_cons.mp goesOn
    rw [leb128In, if_neg (Nat.not_lt.mpr high), ih others (Nat.le_of_succ_le_succ enough)]
    rfl

theorem leb128InStops {left : Nat} {bytes : List UInt8} (goesOn : GoesOn bytes)
    (short : bytes.length < left) : leb128In left bytes = .error .io := by
  induction bytes generalizing left with
  | nil =>
    obtain ⟨left, rfl⟩ := Nat.exists_eq_add_one_of_ne_zero (Nat.ne_zero_of_lt short)
    rw [leb128In]
  | cons b bytes ih =>
    obtain ⟨left, rfl⟩ := Nat.exists_eq_add_one_of_ne_zero (Nat.ne_zero_of_lt short)
    obtain ⟨high, others⟩ := List.forall_mem_cons.mp goesOn
    rw [leb128In, if_neg (Nat.not_lt.mpr high), ih others (Nat.lt_of_succ_lt_succ short)]
    rfl

namespace Reader
variable {before : List UInt8} {strings : Array String}

/-! ### The next number of a file -/

theorem number?Ends {front behind : List UInt8} {last : UInt8} (goesOn : GoesOn front)
    (ends : last.toNat < 128) (short : front.length < 10) :
    number? (between before (front ++ last :: behind) strings) =
      .ok (some (numberOf (front ++ [last]) % UInt64.size))
        (between (before ++ (front ++ [last])) behind strings) := by
  have reads : leb128 (front ++ [last]) =
      .ok (numberOf (front ++ [last]) % UInt64.size, (front ++ [last]).length) := by
    rw [leb128, leb128Size, leb128InEnds goesOn ends short, List.length_append]
    rfl
  have bytes : front ++ last :: behind = front ++ [last] ++ behind := List.append_cons ..
  rw [bytes]
  exact number?Front reads behind

theorem number?Endless {front behind : List UInt8} (goesOn : GoesOn front)
    (length : front.length = 10) : number? (between before (front ++ behind) strings) =
      .error .varintTooLong (between (before ++ front) behind strings) := by
  have fails : leb128 front = .error .varintTooLong := by
    have all : front.take 10 = front := List.take_of_length_le (Nat.le_of_eq length)
    rw [leb128, leb128Size, leb128InEndless (all.symm ▸ goesOn) (Nat.le_of_eq length.symm)]
    rfl
  exact number?Error (List.take_left' length) fails (List.ne_nil_of_length_eq_add_one length)

theorem number?Stops {bytes : List UInt8} (goesOn : GoesOn bytes) (short : bytes.length < 10)
    (something : bytes ≠ []) : number? (between before bytes strings) =
      .error .io (between (before ++ bytes) [] strings) := by
  have fails : leb128 bytes = .error .io := by
    rw [leb128, leb128Size, leb128InStops goesOn short]
    rfl
  exact number?ErrorAtEnd (Nat.le_of_lt short) fails something

theorem goesOnUpTo (bytes : List UInt8) : ∃ front behind, bytes = front ++ behind ∧
    GoesOn front ∧ (behind = [] ∨ ∃ last rest, behind = last :: rest ∧ last.toNat < 128) := by
  induction bytes with
  | nil => exact ⟨[], [], rfl, nofun, .inl rfl⟩
  | cons b bytes ih =>
    by_cases ends : b.toNat < 128
    · exact ⟨[], b :: bytes, rfl, nofun, .inr ⟨b, bytes, rfl, ends⟩⟩
    · obtain ⟨front, behind, rfl, goesOn, stops⟩ := ih
      exact ⟨b :: front, behind, rfl,
        List.forall_mem_cons.mpr ⟨Nat.le_of_not_lt ends, goesOn⟩, stops⟩

/- What the next number of a file is, whatever the bytes are. There is none at the end of the file.
If one of the first ten bytes ends the number, the bytes up to there are read and the answer is what
they tell, of which 64 bits are kept. Ten bytes that go on are too long, and fewer than ten that go
on are cut off by the end of the file. -/
theorem numberRead (before bytes : List UInt8) (strings : Array String) :
    (bytes = [] ∧
      number? (between before bytes strings) = .ok none (between before [] strings)) ∨
    (∃ front last behind, bytes = front ++ last :: behind ∧ front.length < 10 ∧ GoesOn front ∧
      last.toNat < 128 ∧ number? (between before bytes strings) =
        .ok (some (numberOf (front ++ [last]) % UInt64.size))
          (between (before ++ (front ++ [last])) behind strings)) ∨
    (∃ front behind, bytes = front ++ behind ∧ front.length = 10 ∧ GoesOn front ∧
      number? (between before bytes strings) =
        .error .varintTooLong (between (before ++ front) behind strings)) ∨
    (bytes ≠ [] ∧ bytes.length < 10 ∧ GoesOn bytes ∧ number? (between before bytes strings) =
      .error .io (between (before ++ bytes) [] strings)) := by
  obtain ⟨front, behind, rfl, goesOn, stops⟩ := goesOnUpTo bytes
  by_cases long : 10 ≤ front.length
  · have first : GoesOn (front.take 10) := fun b mem => goesOn b (List.mem_of_mem_take mem)
    have length : (front.take 10).length = 10 := List.length_take_of_le long
    have cut : front ++ behind = front.take 10 ++ (front.drop 10 ++ behind) := by
      rw [← List.append_assoc, List.take_append_drop]
    rw [cut]
    exact .inr (.inr (.inl ⟨_, _, rfl, length, first, number?Endless first length⟩))
  · have short : front.length < 10 := Nat.lt_of_not_le long
    rcases stops with rfl | ⟨last, rest, rfl, ends⟩
    · rw [List.append_nil]
      by_cases nothing : front = []
      · rw [nothing]
        exact .inl ⟨rfl, number?AtEnd⟩
      · exact .inr (.inr (.inr ⟨nothing, short, goesOn, number?Stops goesOn short nothing⟩))
    · exact .inr (.inl ⟨front, last, rest, rfl, short, goesOn, ends, number?Ends goesOn ends short⟩)

/- Ten bytes can tell more than 64 bits hold. Then they are no error but another number: here zero,
so that a message without bytes seems to begin. -/
theorem overlongReadAsZero :
    let bytes : List UInt8 := List.replicate 9 128 ++ [2]
    UInt64.size ≤ numberOf bytes ∧
      number? (between [] bytes #[]) = .ok (some 0) (between bytes [] #[]) := by
  intro bytes
  have value : numberOf bytes = UInt64.size := by decide
  have goesOn : GoesOn (List.replicate 9 128) := by
    intro b mem
    rw [List.eq_of_mem_replicate mem]
    decide
  have read := @number?Ends [] #[] _ [] 2 goesOn (by decide) (by decide)
  refine ⟨Nat.le_of_eq value.symm, read.trans ?_⟩
  rw [value]
  rfl

end Reader
end CxxSymbols.Store
