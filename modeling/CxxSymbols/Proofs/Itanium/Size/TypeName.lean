import CxxSymbols.Proofs.Itanium.Size.Name
/-! What types cost. A letter in front of a type pays for the node on top of it, so the rules for
what such a letter begins are about a state that the letter is at the front of. -/
namespace CxxSymbols.Itanium.Grammar
open Scanner Std.Do

set_option mvcgen.warning false

@[spec]
theorem builtinSpec (s : Cursor Memory) : ⦃At s⦄ builtin? ⦃⇓? node t =>
    ⌜(∀ found, node = some found → Spends s t (found.spelled + 1)) ∧
      (node = none → t.memory.reading = s.memory.reading ∧ t.memory.budget = s.memory.budget ∧
        t.rest = s.rest)⌝⦄ := by
  mvcgen [builtin?] with grind -linarith -order [sizedBuiltin?]

section Types
variable {below : Below} (paid : Paid below)
include paid

theorem exceptionsSpec (s : Cursor Memory) : ⦃At s⦄ exceptions below ⦃Leaves s fun _ => 0⦄ := by
  have expression := paid.expression
  have thrown := manyToSpec (by decide : "E" ≠ "") paid.type
  refine enough fun P enough => ?_
  mvcgen [exceptions, expression, thrown] with grind -linarith -order

theorem functionParametersSpec (rounds : Nat) (s : Cursor Memory) :
    ⦃At s⦄ functionType.parameters below rounds
    ⦃Leaves s fun params => Node.allSpelled params.1⦄ := by
  induction rounds generalizing s with
  | zero => mvcgen [functionType.parameters]
  | succ rounds ih =>
    have type := paid.type
    refine enough fun P enough => ?_
    mvcgen [functionType.parameters, type, ih] with grind -linarith -order

theorem functionTypeSpec (s : Cursor Memory) : ⦃At s⦄ functionType below
    ⦃Leaves s fun node => node.spelled + 1⦄ := by
  have exceptions := exceptionsSpec paid
  have type := paid.type
  have params := functionParametersSpec paid
  refine enough fun P enough => ?_
  mvcgen [functionType, exceptions, type, params] with grind -linarith -order

theorem arrayTypeSpec (s : Cursor Memory) : ⦃At s⦄ arrayType below
    ⦃Leaves s fun node => node.spelled + 1⦄ := by
  have expression := paid.expression
  have type := paid.type
  refine enough fun P enough => ?_
  mvcgen [arrayType, expression, type] with grind -linarith -order

theorem vectorTypeSpec (s : Cursor Memory) : ⦃At s⦄ vectorType below
    ⦃Leaves s fun node => node.spelled + 1⦄ := by
  have expression := paid.expression
  have type := paid.type
  refine enough fun P enough => ?_
  mvcgen [vectorType, expression, type] with grind -linarith -order

theorem parameterTypeSpec (s : Cursor Memory) : ⦃At s⦄ parameterType below
    ⦃Leaves s fun node => node.spelled + 1⦄ := by
  have args := templateArgsSpec paid
  refine enough fun P enough => ?_
  mvcgen [parameterType, remember, args] with grind -linarith -order

end Types

section Letters
variable {below : Below} (paid : Paid below) {s : Cursor Memory} {c : Char}
  (first : s.rest.head?.map Char.ofUInt8 = some c)
include paid first

theorem qualifiedTypeSpec (letter : c ∈ ['r', 'V', 'K']) : ⦃At s⦄ qualifiedType below
    ⦃Leaves s fun node => node.spelled + 1⦄ := by
  have type := paid.type
  have function := functionTypeSpec paid
  refine enough fun P enough => ?_
  mvcgen [qualifiedType, atFunctionType, type, function] with grind -linarith -order

theorem compoundTypeSpec (second : Option Char) : ⦃At s⦄ compoundType below c second
    ⦃Leaves s fun node => node.spelled + 1⦄ := by
  have type := paid.type
  have function := functionTypeSpec paid
  have array := arrayTypeSpec paid
  have vector := vectorTypeSpec paid
  have decltype := decltypeNameSpec paid
  have parameter := parameterTypeSpec paid
  have name := plainNameSpec paid
  have args := withTemplateArgsSpec paid
  refine enough fun P enough => ?_
  have qualified := qualifiedTypeSpec paid first
  mvcgen [compoundType, type, function, array, vector, decltype, parameter, name, args, qualified]
    with grind -linarith -order

theorem otherTypeSpec (second : Option Char) : ⦃At s⦄ otherType below c second
    ⦃Leaves s fun node => node.spelled + 1⦄ := by
  have args := templateArgsSpec paid
  have compound := compoundTypeSpec paid first
  refine enough fun P enough => ?_
  mvcgen [otherType, remember, args, compound] with grind -linarith -order

end Letters

theorem typeRuleSpec {below : Below} (paid : Paid below) (s : Cursor Memory) :
    ⦃At s⦄ typeRule below ⦃Leaves s fun node => node.spelled + 1⦄ := by
  have other (s : Cursor Memory) (c : Char) := @otherTypeSpec below paid s c
  refine nestedSpec (fun s => ?_) s
  refine enough fun P enough => ?_
  mvcgen [other] with grind -linarith -order

end CxxSymbols.Itanium.Grammar
