import CxxSymbols.Proofs.Itanium.Size.Expression
/-! What encodings cost, and from that how large the tree of a mangled name can be. A function costs
one more than its name and its types do: something stands between its name and its end. -/
namespace CxxSymbols.Itanium.Grammar
open Scanner Std.Do

set_option mvcgen.warning false

theorem typesSpec {below : Below} (paid : Paid below) (rounds : Nat) (s : Cursor Memory) :
    ⦃At s⦄ manyUntilIn atEncodingEnd (below .type) rounds
    ⦃⇓? params t => ⌜Spends s t (Node.allSpelled params) ∧
      (¬Ended s → Spends s t (Node.allSpelled params + 1))⌝⦄ := by
  have stops (s : Cursor Memory) : ⦃At s⦄ atEncodingEnd
      ⦃Leaves s fun _ => 0⦄ := by
    mvcgen with grind -linarith -order
  have type := paid.type
  cases rounds with
  | zero => mvcgen [manyUntilIn]
  | succ rounds =>
    have others := manyUntilInSpec stops type rounds
    mvcgen [manyUntilIn, type, others]
    all_goals grind -linarith -order [listSpelled]

theorem attributesSpec {below : Below} (paid : Paid below) (rounds : Nat) (s : Cursor Memory) :
    ⦃At s⦄ manyUntilIn (return !(← accept "Ua9enable_if")) (templateArgs below) rounds
    ⦃⇓? _ t => ⌜t = s ∨ Spends s t 1⌝⦄ := by
  have stops (s : Cursor Memory) : ⦃At s⦄ (return !(← accept "Ua9enable_if") : Rule Bool)
      ⦃Leaves s fun _ => 0⦄ := by
    mvcgen with grind -linarith -order
  have args := templateArgsSpec paid
  cases rounds with
  | zero => mvcgen [manyUntilIn]
  | succ rounds =>
    have others := manyUntilInSpec stops args rounds
    mvcgen [manyUntilIn, args, others]
    all_goals grind -linarith -order

section Encodings
variable {below : Below} (paid : Paid below)
include paid

theorem specialNameSpec (s : Cursor Memory) : ⦃At s⦄ specialName below
    ⦃Leaves s fun node => node.spelled + 1⦄ := by
  have encoding := paid.encoding
  have type := paid.type
  have name := plainNameSpec paid
  refine enough fun P enough => ?_
  mvcgen [specialName, callOffset, encoding, type, name] with grind -linarith -order

theorem parametersSpec (s : Cursor Memory) : ⦃At s⦄ parameters below
    ⦃⇓? params t => ⌜Spends s t (Node.allSpelled params) ∧
      (¬Ended s → Spends s t (Node.allSpelled params + 1))⌝⦄ := by
  have types := typesSpec paid
  mvcgen [parameters, manyUntil, types] with grind -linarith -order

theorem declarationSpec (s : Cursor Memory) : ⦃At s⦄ declaration below
    ⦃Leaves s fun node => node.spelled + 1⦄ := by
  have name := paid.name
  have type := paid.type
  have attributes := attributesSpec paid
  have params := parametersSpec paid
  refine enough fun P enough => ?_
  mvcgen [declaration, completed, manyAfter, manyUntil, name, type, attributes, params] with
    grind -linarith -order

theorem encodingRuleSpec (s : Cursor Memory) : ⦃At s⦄ encodingRule below
    ⦃Leaves s fun node => node.spelled + 1⦄ := by
  have special := specialNameSpec paid
  have declared := declarationSpec paid
  refine nestedSpec (fun s => ?_) s
  refine enough fun P enough => ?_
  mvcgen [special, declared] with grind -linarith -order

end Encodings

theorem runPaid (levels : Nat) : Paid (run levels) := by
  induction levels with
  | zero =>
    constructor <;> intro s <;> mvcgen [run]
  | succ levels ih =>
    exact ⟨encodingRuleSpec ih, nameRuleSpec ih, typeRuleSpec ih, templateArgRuleSpec ih,
      expressionRuleSpec ih, bracedRuleSpec ih⟩

end CxxSymbols.Itanium.Grammar

namespace CxxSymbols.Itanium
open Grammar

theorem encodingOf {mangled : List UInt8} {node : Node}
    (read : Node.ofMangled? mangled = some node) :
    ∃ input root t, input.length ≤ mangled.length ∧
      run (levelsFor input) .encoding ⟨input, {}⟩ = .ok root t ∧
      (node = root ∨ ∃ suffix, node = .clone root suffix) := by
  rw [Node.ofMangled?, Node.ofMangledFor?] at read
  split at read
  · extract_lets input at read
    split at read
    · cases read
    · rename_i root t ran
      refine ⟨_, root, t, ?_, ran, ?_⟩
      · rw [List.length_drop]
        exact Nat.sub_le _ _
      · split at read
        · split at read
          · cases read
            exact .inl rfl
          · cases read
        · extract_lets clone at read
          split at read
          · exact .inr ⟨_, (Option.some.inj read).symm⟩
          · cases read
        · cases read
  · cases read

/- The tree of a mangled name has at most two nodes for each byte and as many more as references may
add, apart from the classes that its constructors and destructors hold. -/
theorem treeWithinBudget (mangled : List UInt8) (node : Node)
    (read : Node.ofMangled? mangled = some node) :
    node.size ≤ 2 * mangled.length + referenceBudget + node.copied := by
  obtain ⟨input, root, t, shorter, ran, same⟩ := encodingOf read
  have within : root.spelled + 1 + fund t ≤ 2 * input.length + referenceBudget :=
    (runOf ((runPaid _).encoding _) ran).within rfl
  have parts := sizeOfParts node
  rcases same with rfl | ⟨suffix, rfl⟩
  · omega
  · rw [Node.spelled] at parts
    omega

theorem constructorWithinBudget :
    let constructor := Node.nested (.name "A") (.structor (.name "A") false none)
    Node.ofMangled? (Text.encode "_ZN1AC1Ev") = some (.function none constructor [] {} .none) ∧
      constructor.copied = 1 ∧
      (Node.function none constructor [] {} .none).size ≤ 2 * 9 + referenceBudget + 1 := by
  have read : Node.ofMangled? (Text.encode "_ZN1AC1Ev") = some
      (.function none (.nested (.name "A") (.structor (.name "A") false none)) [] {} .none) := by
    rfl
  exact ⟨read, rfl, treeWithinBudget _ _ read⟩

/- Each constructor that stands in the scope of the one before holds all of that scope again.
Fifteen of them are more than the budget, though nothing is referred to. -/
theorem constructorsPassBudget :
    let mangled := Text.encode ("_ZN1A" ++ "C1C1C1C1C1C1C1C1C1C1C1C1C1C1C1" ++ "E")
    ∃ node, Node.ofMangled? mangled = some node ∧
      2 * mangled.length + referenceBudget < node.size := by
  intro mangled
  have passes : (Node.ofMangled? mangled).any
      (fun node => 2 * mangled.length + referenceBudget < node.size) = true := by
    decide +kernel
  cases read : Node.ofMangled? mangled with
  | none =>
    rw [read] at passes
    cases passes
  | some node =>
    rw [read] at passes
    exact ⟨node, rfl, of_decide_eq_true passes⟩

end CxxSymbols.Itanium
