import CxxSymbols.Proofs.Text.Scanner
import CxxSymbols.Search.Token
import Mathlib.Data.List.TakeWhile
/-! The punctuation that names an operator. It is a pair of parentheses, or it goes on up to a
parenthesis, a blank or the end; so what follows it tells no more than that it ends there. -/
namespace CxxSymbols.Search

def opensSpelling (c : Char) : Bool := isPunctuation c && c ≠ '(' && c ≠ ':' && c ≠ '_' && c ≠ '$'

def goesOn (c : Char) : Bool := c ≠ '(' && c ≠ ' '

def StopsSpelling (cs : List Char) : Prop := ∀ c ∈ cs.head?, goesOn c = false

inductive Spells : List Char → List Char → Prop where
  | call (rest : List Char) : Spells ['(', ')'] rest
  | sign {c : Char} {more rest : List Char} (opens : opensSpelling c = true)
      (all : ∀ d ∈ more, goesOn d = true) (stops : StopsSpelling rest) : Spells (c :: more) rest

theorem stopsLeft (cs : List Char) : StopsSpelling (cs.dropWhile goesOn) := by
  intro c first
  have stop := List.head?_dropWhile_not goesOn cs
  rw [first] at stop
  exact stop

theorem opensApart {c : Char} (opens : opensSpelling c = true) : c ≠ '(' := by
  rintro rfl
  cases opens

theorem spellingOfSign {c : Char} (opens : opensSpelling c = true) (rest : List Char) :
    operatorSpelling? (c :: rest) = some (c :: rest.takeWhile goesOn) := by
  unfold operatorSpelling?
  split
  · rename_i shape
    cases shape
    exact absurd rfl (opensApart opens)
  · rename_i shape
    cases shape
    exact if_pos opens
  · rename_i shape
    cases shape

theorem spellingSource {cs spelling : List Char} (found : operatorSpelling? cs = some spelling) :
    ∃ rest, cs = spelling ++ rest ∧ Spells spelling rest := by
  unfold operatorSpelling? at found
  split at found
  · rename_i rest
    cases found
    exact ⟨rest, rfl, .call rest⟩
  · rename_i c rest _
    split at found
    · rename_i opens
      cases found
      refine ⟨rest.dropWhile goesOn, ?_, .sign opens (fun d mem => ?_) (stopsLeft rest)⟩
      · exact congrArg (c :: ·) List.takeWhile_append_dropWhile.symm
      · exact List.mem_takeWhile_imp mem
    · cases found
  · cases found

theorem spellingRead {spelling rest : List Char} (spells : Spells spelling rest) :
    operatorSpelling? (spelling ++ rest) = some spelling := by
  cases spells with
  | call => rfl
  | sign opens all stops =>
    rw [List.cons_append, spellingOfSign opens, (Scanner.takeStretch all stops).1]

theorem spellingUnpaired {d : Char} (unpaired : d ≠ ')') (rest : List Char) :
    operatorSpelling? ('(' :: d :: rest) = none := by
  unfold operatorSpelling?
  split
  · rename_i shape
    cases shape
    exact absurd rfl unpaired
  · rename_i shape
    cases shape
    rfl
  · rfl

/- Only whether a parenthesis is a pair depends on what stands behind the first character. -/
theorem spellingNone {c : Char} {rest : List Char} (other : c ≠ '(') :
    operatorSpelling? (c :: rest) = none ↔ opensSpelling c = false := by
  cases opens : opensSpelling c with
  | true => simp [spellingOfSign opens]
  | false =>
    refine iff_of_true ?_ rfl
    unfold operatorSpelling?
    split
    · rename_i shape
      cases shape
      exact absurd rfl other
    · rename_i shape
      cases shape
      exact if_neg (ne_true_of_eq_false opens)
    · rfl

theorem nameCode {c : Char} (name : isNameChar c = true) :
    (65 ≤ c.toNat ∧ c.toNat ≤ 90) ∨ (97 ≤ c.toNat ∧ c.toNat ≤ 122) ∨
      (48 ≤ c.toNat ∧ c.toNat ≤ 57) ∨ c = '_' ∨ c = '$' := by
  simp only [isNameChar] at name
  delta Char.isAlphanum Char.isAlpha Char.isUpper Char.isLower Char.isDigit at name
  simp only [Bool.or_eq_true, Bool.and_eq_true, decide_eq_true_eq, UInt32.le_iff_toNat_le,
    ge_iff_le] at name
  grind [Char.toNat]

theorem nameOpensNothing {c : Char} (name : isNameChar c = true) : opensSpelling c = false := by
  have code := nameCode name
  grind [opensSpelling, isPunctuation]

end CxxSymbols.Search
