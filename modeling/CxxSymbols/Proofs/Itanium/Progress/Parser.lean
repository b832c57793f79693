import CxxSymbols.Proofs.Itanium.Progress.Rules
/-! The grammar tied together gets on in its input. A production that is called where nothing has
been taken stands lower than the one that calls it, so between two bytes that are taken there are
no more than three in a row, and the levels that a parser starts with are enough for its input. -/
namespace CxxSymbols.Itanium.Grammar
open Scanner

/- What a production calls before it takes anything stands lower. -/
def Production.height : Production → Nat
  | name | expression => 0
  | encoding | type | braced => 1
  | templateArg => 2

theorem Production.heightBelow (p : Production) : p.height < 3 := by
  cases p <;> decide

variable {most : Nat} {below : Below}

theorem stepMoves (calls : ∀ q, Onward most true below q) (p : Production)
    (lower : ∀ q : Production, q.height < p.height → Onward most false below q) :
    Moves most false [] true (step below p) := by
  cases p with
  | encoding => exact encodingRuleMoves calls (lower .name (by decide))
  | name => exact nameRuleMoves calls
  | type => exact typeRuleMoves calls (lower .name (by decide))
  | templateArg => exact templateArgRuleMoves calls (lower .type (by decide))
  | expression => exact expressionRuleMoves calls
  | braced => exact bracedRuleMoves calls (lower .expression (by decide))

/- Three levels are enough for every byte that is left, and behind the last for what calls no
other before it would take one. -/
theorem runMoves {levels : Nat} (p : Production) (enough : 3 * most + p.height < levels) :
    Moves most false [] true (run levels p) := by
  induction levels generalizing most p with
  | zero => exact absurd enough (Nat.not_lt_zero _)
  | succ levels ih =>
    refine stepMoves (fun q => ?_) p fun q lower => (ih q (by omega)).onward (Nat.le_refl _)
    cases most with
    | zero => exact fun _ _ => ⟨fun near _ => absurd near (Nat.not_succ_le_zero _)⟩
    | succ most =>
      have height := q.heightBelow
      have fewer : 3 * most + q.height < levels := by omega
      exact (ih q fewer).onward (Nat.le_refl _)

/- At every place of an input, and whatever is remembered there, a rule that succeeds comes to a
later place, and one that fails has met a mismatch at a place that is not before it. So it has not
run out of rounds or levels, and has not skipped bytes that are not there. -/
def Advances {α : Type} (input : List UInt8) (rule : Rule α) : Prop :=
  ∀ place ≤ input.length, ∀ memory, match rule ⟨input.drop place, memory⟩ with
    | .ok _ t => ∃ further, place < further ∧ further ≤ input.length ∧ t.rest = input.drop further
    | .error e t => e = .mismatch ∧
      ∃ reached, place ≤ reached ∧ reached ≤ input.length ∧ t.rest = input.drop reached

theorem placeOfSuffix {input rest : List UInt8} {place : Nat} (inside : place ≤ input.length)
    (within : rest <:+ input.drop place) : ∃ reached, place ≤ reached ∧ reached ≤ input.length ∧
      rest = input.drop reached ∧ rest.length + reached = input.length := by
  have short := within.length_le
  have suffix := within.trans (List.drop_suffix place input)
  rw [List.length_drop] at short
  refine ⟨input.length - rest.length, by omega, Nat.sub_le _ _, ?_, by omega⟩
  exact List.suffix_iff_eq_drop.mp suffix

theorem advances {α : Type} {input : List UInt8} {rule : Rule α}
    (moves : Moves input.length false [] true rule) : Advances input rule := by
  intro place inside memory
  have near : (input.drop place).length ≤ input.length := (List.drop_suffix place input).length_le
  have ends := moves.ends (s := ⟨input.drop place, memory⟩) near List.nil_prefix
  cases ran : rule ⟨input.drop place, memory⟩ with
  | ok a t =>
    rw [ran] at ends
    obtain ⟨further, -, within, same, all⟩ := placeOfSuffix inside ends.1
    have less : t.rest.length + 1 ≤ (input.drop place).length := ends.2
    rw [List.length_drop] at less
    exact ⟨further, by omega, within, same⟩
  | error e t =>
    rw [ran] at ends
    obtain ⟨reached, behind, within, same, -⟩ := placeOfSuffix inside ends.2
    exact ⟨ends.1, reached, behind, within, same⟩

/- Every production gets on in the input, however many levels are to spare, and so do the rules for
names, identifiers and argument lists. The loops of the grammar are over these, so each round of one
takes something, and it ends. -/
theorem productionsAdvance (input : List UInt8) (spare : Nat) (scope : Option Node) :
    let below := run (levelsFor input + spare)
    (∀ p, Advances input (below p)) ∧ Advances input (unqualifiedName below scope) ∧
      Advances input identifier ∧ Advances input (templateArgs below) ∧
      Advances input (unresolvedName below) ∧ Advances input (simpleId below) := by
  intro below
  have moves (p : Production) : Moves input.length false [] true (below p) := by
    have height := p.heightBelow
    exact runMoves p (by rw [levelsFor]; omega)
  have calls (p : Production) : Onward input.length true below p :=
    (moves p).onward (Nat.le_succ _)
  exact ⟨fun p => advances (moves p), advances inferInstance, advances inferInstance,
    advances inferInstance, advances inferInstance, advances inferInstance⟩

example :
    (∃ node m, run (levelsFor [49, 102, 118]) .encoding ⟨[49, 102, 118], {}⟩ =
      .ok node ⟨[], m⟩) ∧
    ∃ m, run (levelsFor [49, 102, 80]) .encoding ⟨[49, 102, 80], {}⟩ =
      .error .mismatch ⟨[], m⟩ :=
  ⟨⟨_, _, rfl⟩, ⟨_, rfl⟩⟩

end CxxSymbols.Itanium.Grammar
