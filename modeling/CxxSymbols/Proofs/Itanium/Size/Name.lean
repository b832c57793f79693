import CxxSymbols.Proofs.Itanium.Size.Fund
/-! What names cost. Every rule here is over the productions one level down, each of which is taken
to spend one more than the tree that it yields has nodes. -/
namespace CxxSymbols.Itanium.Grammar
open Scanner Std.Do

set_option mvcgen.warning false

/-! ### Productions -/

/- Each production spends one more than its tree is worth. -/
structure Paid (below : Below) : Prop where
  encoding : ∀ s, ⦃At s⦄ below .encoding ⦃Leaves s fun node : Node => node.spelled + 1⦄
  name : ∀ s, ⦃At s⦄ below .name ⦃Leaves s fun named : Node × NameShape => named.1.spelled + 1⦄
  type : ∀ s, ⦃At s⦄ below .type ⦃Leaves s fun node : Node => node.spelled + 1⦄
  templateArg : ∀ s, ⦃At s⦄ below .templateArg ⦃Leaves s fun node : Node => node.spelled + 1⦄
  expression : ∀ s, ⦃At s⦄ below .expression ⦃Leaves s fun node : Node => node.spelled + 1⦄
  braced : ∀ s, ⦃At s⦄ below .braced ⦃Leaves s fun node : Node => node.spelled + 1⦄

theorem listSpelled (nodes : List Node) :
    (nodes.map fun node => node.spelled + 1).sum = Node.allSpelled nodes + nodes.length := by
  induction nodes with
  | nil => rfl
  | cons node nodes ih =>
    rw [List.map_cons, List.sum_cons, ih, Node.allSpelled, List.length_cons]
    omega

theorem namesSpelled (items : List String) :
    Node.allSpelled (items.map Node.name) = items.length := by
  induction items with
  | nil => rfl
  | cons item items ih =>
    rw [List.map_cons, Node.allSpelled, ih, Node.spelled, List.length_cons, Nat.add_comm]

section Names
variable {below : Below} (paid : Paid below)
include paid

theorem templateArgsSpec (s : Cursor Memory) : ⦃At s⦄ templateArgs below
    ⦃Leaves s fun args => Node.allSpelled args + 2⦄ := by
  have args := asideSpec (manyToSpec (by decide : "E" ≠ "") paid.templateArg)
  refine enough fun P enough => ?_
  mvcgen [templateArgs, args] with grind -linarith -order [listSpelled]

theorem withTemplateArgsSpec (base : Node) (s : Cursor Memory) :
    ⦃At s⦄ withTemplateArgs below base ⦃Leaves s fun node => node.spelled - base.spelled⦄ := by
  have args := templateArgsSpec paid
  refine enough fun P enough => ?_
  mvcgen [withTemplateArgs, args] with grind -linarith -order

theorem operatorNameSpec (s : Cursor Memory) : ⦃At s⦄ operatorName below
    ⦃Leaves s fun named => named.1.spelled + 1⦄ := by
  have type := paid.type
  refine enough fun P enough => ?_
  mvcgen [operatorName, type] with grind -linarith -order

theorem structorSpec (scope : Node) (s : Cursor Memory) : ⦃At s⦄ structor below scope
    ⦃Leaves s fun node => node.spelled + 1⦄ := by
  have type := paid.type
  refine enough fun P enough => ?_
  mvcgen [structor, structorNumber, namesake?, next, type] with grind -linarith -order

theorem unnamedNameSpec (s : Cursor Memory) : ⦃At s⦄ unnamedName below
    ⦃Leaves s fun node => node.spelled + 1⦄ := by
  have stops (s : Cursor Memory) : ⦃At s⦄ (return (← peek) = some 'E' : Rule Bool)
      ⦃Leaves s fun _ => 0⦄ := by
    mvcgen with grind -linarith -order
  have params := manyUntilSpec stops paid.type
  refine enough fun P enough => ?_
  mvcgen [unnamedName, params] with grind -linarith -order [listSpelled]

theorem unqualifiedNameSpec (scope : Option Node) (s : Cursor Memory) :
    ⦃At s⦄ unqualifiedName below scope ⦃Leaves s fun named => named.1.spelled + 1⦄ := by
  have unnamed := unnamedNameSpec paid
  have structor := structorSpec paid
  have operator := operatorNameSpec paid
  have items := manyToSpec (by decide : "E" ≠ "") identifierSpec
  refine enough fun P enough => ?_
  mvcgen [unqualifiedName, unnamed, structor, operator, items] with
    grind -linarith -order [eachTwo, namesSpelled]

theorem unscopedNameSpec (s : Cursor Memory) : ⦃At s⦄ unscopedName below
    ⦃Leaves s fun named => named.1.spelled + 1⦄ := by
  have unqualified := unqualifiedNameSpec paid
  refine enough fun P enough => ?_
  mvcgen [unscopedName, unqualified] with grind -linarith -order

theorem decltypeNameSpec (s : Cursor Memory) : ⦃At s⦄ nestedComponents.decltypeName below
    ⦃Leaves s fun node => node.spelled + 1⦄ := by
  have expression := paid.expression
  refine enough fun P enough => ?_
  mvcgen [nestedComponents.decltypeName, acceptAny, expression] with grind -linarith -order

theorem nestedComponentsSpec (rounds : Nat) (scope : Option Node) (shape : NameShape)
    (s : Cursor Memory) : ⦃At s⦄ nestedComponents below rounds scope shape
    ⦃Leaves s fun named => Node.optionSpelled named.1 - Node.optionSpelled scope⦄ := by
  induction rounds generalizing scope shape s with
  | zero => mvcgen [nestedComponents]
  | succ rounds ih =>
    have args := templateArgsSpec paid
    have decltype := decltypeNameSpec paid
    have structor := structorSpec paid
    have unqualified := unqualifiedNameSpec paid
    refine enough fun P enough => ?_
    mvcgen [nestedComponents, within, remember, args, decltype, structor, unqualified, ih]
      with grind -linarith -order

theorem nestedNameSpec (s : Cursor Memory) : ⦃At s⦄ nestedName below
    ⦃Leaves s fun named => named.1.spelled + 1⦄ := by
  have components := nestedComponentsSpec paid
  refine enough fun P enough => ?_
  mvcgen [nestedName, components] with grind -linarith -order

theorem localNameSpec (s : Cursor Memory) : ⦃At s⦄ localName below
    ⦃Leaves s fun named => named.1.spelled + 1⦄ := by
  have encoding := paid.encoding
  have name := paid.name
  refine enough fun P enough => ?_
  mvcgen [localName, encoding, name] with grind -linarith -order

theorem plainNameSpec (s : Cursor Memory) : ⦃At s⦄ plainName below
    ⦃Leaves s fun node => node.spelled + 1⦄ := by
  have name := paid.name
  refine enough fun P enough => ?_
  mvcgen [plainName, name] with grind -linarith -order

theorem nameRuleSpec (s : Cursor Memory) : ⦃At s⦄ nameRule below
    ⦃Leaves s fun named => named.1.spelled + 1⦄ := by
  have nested := nestedNameSpec paid
  have inBody := localNameSpec paid
  have unscoped := unscopedNameSpec paid
  have args := templateArgsSpec paid
  refine nestedSpec (fun s => ?_) s
  refine enough fun P enough => ?_
  mvcgen [remember, nested, inBody, unscoped, args] with grind -linarith -order

end Names

end CxxSymbols.Itanium.Grammar
