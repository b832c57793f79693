import CxxSymbols.Proofs.Itanium.Size.TypeName
/-! What expressions cost. An expression is one node whatever it is made of, so a rule for one only
has to take a byte. -/
namespace CxxSymbols.Itanium.Grammar
open Scanner Std.Do

set_option mvcgen.warning false

theorem somethingSpelled (node : Node) : 1 ≤ node.spelled := by
  cases node <;> rw [Node.spelled] <;> omega

@[spec]
theorem functionParamSpec (s : Cursor Memory) : ⦃At s⦄ functionParam
    ⦃Leaves s fun node => node.spelled + 1⦄ := by
  refine enough fun P enough => ?_
  mvcgen [functionParam, functionParamTail] with grind -linarith -order

section Expressions
variable {below : Below} (paid : Paid below)
include paid

theorem literalSpec (s : Cursor Memory) : ⦃At s⦄ literal below
    ⦃Leaves s fun node => node.spelled + 1⦄ := by
  have encoding := paid.encoding
  have type := paid.type
  refine enough fun P enough => ?_
  mvcgen [literal, acceptAny, encoding, type] with grind -linarith -order

theorem simpleIdSpec (s : Cursor Memory) : ⦃At s⦄ simpleId below ⦃Leaves s fun _ => 2⦄ := by
  have args := withTemplateArgsSpec paid
  refine enough fun P enough => ?_
  mvcgen [simpleId, args] with grind -linarith -order

theorem unresolvedTypeSpec (s : Cursor Memory) : ⦃At s⦄ unresolvedType below
    ⦃Leaves s fun _ => 0⦄ := by
  have decltype := decltypeNameSpec paid
  refine enough fun P enough => ?_
  mvcgen [unresolvedType, unresolvedType.remembered, remember, decltype] with grind -linarith -order

theorem baseUnresolvedNameSpec (s : Cursor Memory) : ⦃At s⦄ baseUnresolvedName below
    ⦃Leaves s fun _ => 2⦄ := by
  have simple := simpleIdSpec paid
  have unresolved := unresolvedTypeSpec paid
  have operator := operatorNameSpec paid
  have args := withTemplateArgsSpec paid
  refine enough fun P enough => ?_
  mvcgen [baseUnresolvedName, simple, unresolved, operator, args] with
    grind -linarith -order [somethingSpelled]

theorem unresolvedScopeSpec (s : Cursor Memory) : ⦃At s⦄ unresolvedScope below
    ⦃Leaves s fun _ => 0⦄ := by
  have unresolved := unresolvedTypeSpec paid
  have simples := manyToSpec (by decide : "E" ≠ "") (simpleIdSpec paid)
  have args := withTemplateArgsSpec paid
  refine enough fun P enough => ?_
  mvcgen [unresolvedScope, unresolved, simples, args] with grind -linarith -order

theorem unresolvedNameSpec (s : Cursor Memory) : ⦃At s⦄ unresolvedName below
    ⦃Leaves s fun node => node.spelled + 1⦄ := by
  have scope := unresolvedScopeSpec paid
  have base := baseUnresolvedNameSpec paid
  refine enough fun P enough => ?_
  mvcgen [unresolvedName, scope, base] with grind -linarith -order

theorem bracedRuleSpec (s : Cursor Memory) : ⦃At s⦄ bracedRule below
    ⦃Leaves s fun node => node.spelled + 1⦄ := by
  have name := unqualifiedNameSpec paid
  have expression := paid.expression
  have braced := paid.braced
  refine enough fun P enough => ?_
  mvcgen [bracedRule, name, expression, braced] with grind -linarith -order

theorem operandsSpec (count : Nat) (s : Cursor Memory) : ⦃At s⦄ operands below count
    ⦃Leaves s fun _ => 0⦄ := by
  induction count generalizing s with
  | zero =>
    mvcgen [operands]
    grind -linarith -order
  | succ count ih =>
    have expression := paid.expression
    refine enough fun P enough => ?_
    mvcgen [operands, expression, ih] with grind -linarith -order

theorem foldSpec (isBinary : Bool) (s : Cursor Memory) : ⦃At s⦄ fold below isBinary
    ⦃Leaves s fun node => node.spelled + 1⦄ := by
  have operands := operandsSpec paid
  refine enough fun P enough => ?_
  mvcgen [fold, next, operands] with grind -linarith -order

theorem newInitializerSpec (s : Cursor Memory) : ⦃At s⦄ newInitializer below
    ⦃Leaves s fun _ => 0⦄ := by
  have expressions := manyToSpec (by decide : "E" ≠ "") paid.expression
  have braced := manyToSpec (by decide : "E" ≠ "") paid.braced
  refine enough fun P enough => ?_
  mvcgen [newInitializer, expressions, braced] with grind -linarith -order

theorem codedSpec {s : Cursor Memory} (both : 2 ≤ s.rest.length) (c₀ c₁ : Char) :
    ⦃At s⦄ coded below c₀ c₁ ⦃Leaves s fun node => node.spelled + 1⦄ := by
  have expression := paid.expression
  have type := paid.type
  have name := unresolvedNameSpec paid
  have operands := operandsSpec paid
  have expressions := manyToSpec (by decide : "E" ≠ "") paid.expression
  have placement := manyToSpec (by decide : "_" ≠ "") paid.expression
  have braced := manyToSpec (by decide : "E" ≠ "") paid.braced
  have args := manyToSpec (by decide : "E" ≠ "") paid.templateArg
  have initializer := newInitializerSpec paid
  refine enough fun P enough => ?_
  mvcgen [coded, expression, type, name, operands, expressions, placement, braced, args,
    initializer] with grind -linarith -order

theorem vendorExpressionSpec (s : Cursor Memory) : ⦃At s⦄ vendorExpression below
    ⦃Leaves s fun node => node.spelled + 1⦄ := by
  have args := manyToSpec (by decide : "E" ≠ "") paid.templateArg
  refine enough fun P enough => ?_
  mvcgen [vendorExpression, args] with grind -linarith -order

theorem localExpressionSpec (s : Cursor Memory) : ⦃At s⦄ localExpression below
    ⦃Leaves s fun node => node.spelled + 1⦄ := by
  have literal := literalSpec paid
  have fold := foldSpec paid
  have name := unresolvedNameSpec paid
  have vendor := vendorExpressionSpec paid
  have coded (s : Cursor Memory) := @codedSpec below paid s
  refine enough fun P enough => ?_
  mvcgen [localExpression, literal, fold, name, vendor, coded] with grind -linarith -order

theorem expressionRuleSpec (s : Cursor Memory) : ⦃At s⦄ expressionRule below
    ⦃Leaves s fun node => node.spelled + 1⦄ := by
  have localExpression := localExpressionSpec paid
  refine nestedSpec (fun s => ?_) s
  refine enough fun P enough => ?_
  mvcgen [localExpression] with grind -linarith -order

theorem templateArgRuleSpec (s : Cursor Memory) : ⦃At s⦄ templateArgRule below
    ⦃Leaves s fun node => node.spelled + 1⦄ := by
  have expression := paid.expression
  have type := paid.type
  have literal := literalSpec paid
  have args := manyToSpec (by decide : "E" ≠ "") paid.templateArg
  refine enough fun P enough => ?_
  mvcgen [templateArgRule, expression, type, literal, args] with
    grind -linarith -order [listSpelled]

end Expressions

end CxxSymbols.Itanium.Grammar
