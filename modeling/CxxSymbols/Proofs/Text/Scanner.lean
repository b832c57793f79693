import CxxSymbols.Proofs.Stateful
import CxxSymbols.Text.Scanner
/-! What a scanner does at the front of known bytes. -/
namespace CxxSymbols.Scanner
open Stateful

variable {μ α : Type} {m : μ} {bytes behind : List UInt8} {b : UInt8} {text : String}

theorem acceptFound (found : after? text.toList bytes = some behind) (m : μ) :
    accept text ⟨bytes, m⟩ = .ok true ⟨behind, m⟩ := by
  refine (bindOk rfl).trans ?_
  rw [found]
  rfl

theorem acceptMissing (missing : after? text.toList bytes = none) (m : μ) :
    accept text ⟨bytes, m⟩ = .ok false ⟨bytes, m⟩ := by
  refine (bindOk rfl).trans ?_
  rw [missing]
  rfl

theorem expectFound (found : after? text.toList bytes = some behind) (m : μ) :
    expect text ⟨bytes, m⟩ = .ok () ⟨behind, m⟩ :=
  bindOk (acceptFound found m)

theorem afterMissing {c : Char} {cs : List Char}
    (other : ∀ b ∈ bytes.head?, Char.ofUInt8 b ≠ c) : after? (c :: cs) bytes = none := by
  cases bytes with
  | nil => rfl
  | cons b bytes => rw [after?, if_neg (other b rfl)]

theorem acceptOther {c : Char} {cs : List Char} (shape : text.toList = c :: cs)
    (other : ∀ b ∈ bytes.head?, Char.ofUInt8 b ≠ c) (m : μ) :
    accept text ⟨bytes, m⟩ = .ok false ⟨bytes, m⟩ :=
  acceptMissing (by rw [shape]; exact afterMissing other) m

theorem manyAfterNone {item : Scanner μ α} {c : Cursor μ} (missing : accept text c = .ok false c) :
    manyAfter text item c = .ok [] c := by
  have stop : (return !(← accept text) : Scanner μ Bool) c = .ok true c := bindOk missing
  exact (bindOk rfl).trans (bindOk stop)

theorem restoringOk {rule : Scanner μ α} {a : α} {c d : Cursor μ} (putBack : μ → μ → μ)
    (ran : rule c = .ok a d) :
    restoring putBack rule c = .ok a { d with memory := putBack c.memory d.memory } := by
  rw [restoring, ran]

theorem afterSingle {c : Char} (same : Char.ofUInt8 b = c) (behind : List UInt8) :
    after? [c] (b :: behind) = some behind := by
  rw [after?, if_pos same, after?]

theorem stretchBefore {β : Type} {test : β → Bool} {behind : List β}
    (stop : ∀ b ∈ behind.head?, test b = false) (front : List β) :
    (front ++ behind).takeWhile test = front.takeWhile test ∧
      (front ++ behind).dropWhile test = front.dropWhile test ++ behind := by
  induction front with
  | nil =>
    cases behind with
    | nil => exact ⟨rfl, rfl⟩
    | cons b behind =>
      have other := stop b rfl
      exact ⟨List.takeWhile_cons_of_neg (by simp [other]),
        List.dropWhile_cons_of_neg (by simp [other])⟩
  | cons b front ih =>
    cases passes : test b with
    | true => simp [passes, ih]
    | false => simp [passes]

theorem stretchWithin {β : Type} {test : β → Bool} {front : List β} {b : β} (mem : b ∈ front)
    (stop : test b = false) (behind : List β) :
    (front ++ behind).takeWhile test = front.takeWhile test ∧
      (front ++ behind).dropWhile test = front.dropWhile test ++ behind := by
  obtain ⟨before, after, rfl⟩ := List.append_of_mem mem
  have stops (more : List β) : ∀ d ∈ (b :: more).head?, test d = false := by
    rintro d ⟨⟩
    exact stop
  obtain ⟨taken, left⟩ := stretchBefore (stops after) before
  obtain ⟨takenBefore, leftBefore⟩ := stretchBefore (stops (after ++ behind)) before
  rw [List.append_assoc, List.cons_append, taken, left, takenBefore, leftBefore]
  exact ⟨rfl, by rw [List.append_assoc, List.cons_append]⟩

theorem takeStretch {β : Type} {test : β → Bool} {stretch behind : List β}
    (all : ∀ b ∈ stretch, test b = true) (stop : ∀ b ∈ behind.head?, test b = false) :
    (stretch ++ behind).takeWhile test = stretch ∧
      (stretch ++ behind).dropWhile test = behind := by
  have rest : behind.takeWhile test = [] ∧ behind.dropWhile test = behind := stretchBefore stop []
  rw [List.takeWhile_append_of_pos all, List.dropWhile_append_of_pos all, rest.1, rest.2,
    List.append_nil]
  exact ⟨rfl, rfl⟩

end CxxSymbols.Scanner
