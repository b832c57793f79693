import CxxSymbols.Proofs.Itanium.Progress.Rules
/-! Every rule of the grammar does the same over two grammars below it that do the same. -/
namespace CxxSymbols.Itanium.Grammar
open Scanner

set_option synthInstance.maxSize 2000

variable {tail : List UInt8} {level left : Nat} [ends : Appendix tail]

/-! ### Rules that hold no other -/

theorem signBefore (bytes : List UInt8) :
    ((bytes ++ tail).head? = some 110) = (bytes.head? = some 110) := by
  cases bytes with
  | cons b bytes => rfl
  | nil =>
    rw [List.nil_append, List.head?_nil, eq_iff_iff]
    constructor
    · intro first
      have dot := ends.dot 110 first
      cases dot
    · intro none
      cases none

omit ends in
theorem bodyBefore (bytes : List UInt8) :
    (if bytes.head? = some 110 then (bytes ++ tail).drop 1 else bytes ++ tail) =
      (if bytes.head? = some 110 then bytes.drop 1 else bytes) ++ tail := by
  cases bytes with
  | nil => rfl
  | cons b bytes => split <;> rfl

instance : Agree tail level left number? number? := by
  unfold number?
  refine .bindRest fun bytes _ => ?_
  simp only [signBefore, bodyBefore]
  have stop : ∀ b ∈ tail.head?, isDigit b = false := appendixStops rfl
  generalize (if bytes.head? = some 110 then bytes.drop 1 else bytes) = body
  obtain ⟨digits, behind⟩ := stretchBefore stop body
  rw [digits, behind]
  infer_instance

instance : Agree tail level left number number := by unfold number; infer_instance

instance : Agree tail level left natural? natural? := by
  unfold natural?
  refine .bindRest fun bytes _ => ?_
  have stop : ∀ b ∈ tail.head?, isDigit b = false := appendixStops rfl
  obtain ⟨digits, behind⟩ := stretchBefore stop bytes
  simp only [digits, behind]
  infer_instance

instance : Agree tail level left natural natural := by unfold natural; infer_instance

instance : Agree tail level left sequenceId? sequenceId? := by
  unfold sequenceId?
  exact .bind (.takeWhile rfl) fun _ => inferInstance

instance : Agree tail level left identifier identifier := by
  unfold identifier
  refine .bind inferInstance fun length => .bindRest fun bytes _ => ?_
  by_cases short : bytes.length < length
  · rw [if_pos short]
    infer_instance
  · have enough : length ≤ bytes.length := Nat.le_of_not_lt short
    have longer : ¬(bytes ++ tail).length < length :=
      Nat.not_lt.mpr (Nat.le_trans enough (List.prefix_append bytes tail).length_le)
    rw [if_neg short, if_neg longer, List.drop_append_of_le_length enough,
      List.take_append_of_le_length enough]
    infer_instance

instance : Agree tail level left ordinal ordinal := by
  unfold ordinal
  refine .bind inferInstance fun n => ?_
  split <;> infer_instance

instance : Agree tail level left qualifiers qualifiers := by unfold qualifiers; infer_instance

instance : Agree tail level left refQualifier refQualifier := by unfold refQualifier; infer_instance

instance : Agree tail level left discriminator discriminator := by
  unfold discriminator
  refine .bindSeen peekLooks (Nat.zero_le _) (by simp) (fun c => ?_) ?_
  · split
    · refine .bindSeen (peekAtLooks 1) (Nat.le_refl _) (by simp) (fun c => ?_) inferInstance
      split
      · refine .bindRest fun bytes within => .bind (.skip within) fun _ =>
          .bind inferInstance fun n => ?_
        split <;> infer_instance
      · infer_instance
      · infer_instance
    · infer_instance
  · rw [if_neg nofun]
    infer_instance

instance : Agree tail level left atEncodingEnd atEncodingEnd := by
  unfold atEncodingEnd
  refine .glance peekLooks (Nat.zero_le _) rfl fun c => ?_
  split <;> infer_instance

instance (node : Node) : Agree tail level left (remember node) (remember node) := by
  unfold remember; infer_instance

instance (node : Node) : Agree tail level left (refer node) (refer node) := by
  unfold refer; infer_instance

instance (index : Nat) : Agree tail level left (candidate index) (candidate index) := by
  unfold candidate; infer_instance

instance : Agree tail level left substitution substitution := by
  unfold substitution
  refine .bind inferInstance fun _ => .bindCurrent fun c => ?_
  split <;> infer_instance

instance (index : Nat) : Agree tail level left (argument index) (argument index) := by
  unfold argument
  refine .bindMemory fun m _ => ?_
  split <;> infer_instance

instance : Agree tail level left templateParam templateParam := by
  unfold templateParam; infer_instance

instance (name : Node) : Agree tail level left (withAbiTags name) (withAbiTags name) := by
  unfold withAbiTags; infer_instance

instance : Agree tail level left functionParamTail functionParamTail := by
  unfold functionParamTail; infer_instance

instance : Agree tail level left functionParam functionParam := by
  unfold functionParam; infer_instance

instance (allowed : List Char) :
    Agree tail level left (structorNumber allowed) (structorNumber allowed) := by
  unfold structorNumber; infer_instance

instance (cls : Node) : Agree tail level left (namesake? cls) (namesake? cls) := by
  unfold namesake?; infer_instance

instance : Agree tail level left builtin? builtin? := by
  unfold builtin?
  refine .bindCurrent fun c₀ => ?_
  split
  · infer_instance
  · split
    · infer_instance
    · split
      · refine .bindSeen (peekAtLooks 1) (Nat.le_refl _) (by simp [builtinAfterD?])
          (fun c₁ => ?_) ?_
        · split
          · infer_instance
          · split
            · refine .bindRest fun bytes within => .bind (.skip within) fun _ =>
                .bind inferInstance fun bits => ?_
              split <;> infer_instance
            · infer_instance
        · simp
          infer_instance
      · infer_instance

theorem builtinUnread {s t : Cursor Memory} (ran : builtin? s = .ok none t) : t.rest = s.rest := by
  have finds := builtinFinds s
  rw [ran] at finds
  exact finds

instance : Agree tail level left atFunctionType atFunctionType := by
  unfold atFunctionType
  refine .bindSeen peekLooks (Nat.zero_le _) rfl (fun c => ?_) ?_
  · refine .glance (peekAtLooks 1) (Nat.le_refl _) ?_ fun c => ?_
    · by_cases letter : c = 'D'
      · rw [letter]
        rfl
      · split <;> simp_all
    · split <;> infer_instance
  · exact .bindLook (peekAtLooks 1) fun s _ enough => ⟨left, enough, inferInstance⟩

instance : Agree tail level left callOffset callOffset := by unfold callOffset; infer_instance

instance (symbol : Node) : Agree tail level left (completed symbol) (completed symbol) := by
  unfold completed
  refine .bindMemory fun m _ => ?_
  split <;> infer_instance

/-! ### Names -/

variable {below below' : Below}

abbrev Same (tail : List UInt8) (level : Nat) (below below' : Below) (p : Production) : Prop :=
  ∀ left, Agree tail level left (below p) (below' p)

section Names

instance [Same tail level below below' .templateArg] :
    Agree tail level left (templateArgs below) (templateArgs below') := by
  unfold templateArgs; infer_instance

instance [Same tail level below below' .templateArg] (base : Node) :
    Agree tail level left (withTemplateArgs below base) (withTemplateArgs below' base) := by
  unfold withTemplateArgs
  exact .glance peekLooks (Nat.zero_le _) rfl fun _ => inferInstance

variable [Same tail level below below' .type]

instance : Agree tail level left (operatorName below) (operatorName below') := by
  unfold operatorName; infer_instance

instance (scope : Node) : Agree tail level left (structor below scope) (structor below' scope) := by
  unfold structor; infer_instance

instance : Agree tail level left (unnamedName below) (unnamedName below') := by
  have stop (left : Nat) : Agree tail level left
      (return (← peek) = some 'E' : Rule Bool) (return (← peek) = some 'E') :=
    .glance peekLooks (Nat.zero_le _) rfl fun _ => inferInstance
  unfold unnamedName; infer_instance

instance (scope : Option Node) :
    Agree tail level left (unqualifiedName below scope) (unqualifiedName below' scope) := by
  unfold unqualifiedName
  refine .bindSeen peekLooks (Nat.zero_le _) rfl
    (fun c => .glance (peekAtLooks 1) (Nat.le_refl _) (by simp) fun c₁ =>
      .joined inferInstance fun _ => ?_)
    (.bindLook (peekAtLooks 1) fun s _ _ => ⟨0, Nat.zero_le _, ?_⟩)
  -- where nothing is left to be read it makes no difference what stands one further
  rotate_left
  simp only [reduceCtorEq, false_and, if_false]
  all_goals
    refine .bindCurrent fun c₀ => .bindSeen (peekAtLooks 1) (Nat.le_refl _) (by simp)
      (fun c₁ => inferInstance) ?_
    simp only [reduceCtorEq, and_false, if_false]
    infer_instance

instance : Agree tail level left (unscopedName below) (unscopedName below') := by
  unfold unscopedName; infer_instance

instance decltypeNameAgree [Same tail level below below' .expression] :
    Agree tail level left (nestedComponents.decltypeName below)
      (nestedComponents.decltypeName below') := by
  unfold nestedComponents.decltypeName; infer_instance

theorem nestedComponentsAgree [Same tail level below below' .expression]
    [Same tail level below below' .templateArg] {rounds more : Nat} (enough : rounds ≤ more)
    (scope : Option Node) (shape : NameShape) : Agree tail level left
      (nestedComponents below rounds scope shape) (nestedComponents below' more scope shape) := by
  induction rounds generalizing more left scope shape with
  | zero => unfold nestedComponents; infer_instance
  | succ rounds ih =>
    obtain ⟨more, rfl⟩ := Nat.exists_eq_add_one_of_ne_zero (Nat.ne_zero_of_lt enough)
    have further (left : Nat) (scope : Option Node) (shape : NameShape) :
        Agree tail level left (nestedComponents below rounds scope shape)
          (nestedComponents below' more scope shape) :=
      ih (Nat.le_of_succ_le_succ enough) scope shape
    unfold nestedComponents
    refine .bind inferInstance fun isEnd => .branch inferInstance ?_
    refine .bind inferInstance fun _ => .bind inferInstance fun isMember => ?_
    refine .branch inferInstance (.bindCurrent fun c₀ => ?_)
    refine .glance (peekAtLooks 1) (Nat.le_refl _) (by simp) fun c₁ => ?_
    infer_instance

variable [Same tail level below below' .expression] [Same tail level below below' .templateArg]

instance : Agree tail level left (nestedName below) (nestedName below') := by
  unfold nestedName
  refine .bind inferInstance fun _ => .bind inferInstance fun quals =>
    .bind inferInstance fun refQual => .bind inferInstance fun isStd => .bindRest fun bytes _ => ?_
  have longer := Nat.succ_le_succ (List.prefix_append bytes tail).length_le
  exact .bind (nestedComponentsAgree longer _ _) fun _ => inferInstance

variable [Same tail level below below' .encoding] [Same tail level below below' .name]

instance : Agree tail level left (localName below) (localName below') := by
  unfold localName; infer_instance

end Names

instance [Same tail level below below' .name] :
    Agree tail level left (plainName below) (plainName below') := by
  unfold plainName
  refine .bind inferInstance fun ⟨name, shape⟩ => .bindMemory fun m _ => ?_
  split <;> infer_instance

/-! ### Types -/

section Types
variable [Same tail level below below' .type]

theorem functionParametersAgree {rounds more : Nat} (enough : rounds ≤ more) :
    Agree tail level left (functionType.parameters below rounds)
      (functionType.parameters below' more) := by
  induction rounds generalizing more left with
  | zero => unfold functionType.parameters; infer_instance
  | succ rounds ih =>
    obtain ⟨more, rfl⟩ := Nat.exists_eq_add_one_of_ne_zero (Nat.ne_zero_of_lt enough)
    have further (left : Nat) : Agree tail level left (functionType.parameters below rounds)
        (functionType.parameters below' more) := ih (Nat.le_of_succ_le_succ enough)
    unfold functionType.parameters; infer_instance

variable [Same tail level below below' .expression]

instance : Agree tail level left (exceptions below) (exceptions below') := by
  unfold exceptions; infer_instance

instance : Agree tail level left (functionType below) (functionType below') := by
  unfold functionType
  refine .bind inferInstance fun exceptions => .bind inferInstance fun isTransactional =>
    .bind inferInstance fun _ => .bind inferInstance fun _ => .bind inferInstance fun ret =>
      .bindRest fun bytes _ => ?_
  have longer := Nat.succ_le_succ (List.prefix_append bytes tail).length_le
  exact .bind (functionParametersAgree longer) fun _ => inferInstance

instance : Agree tail level left (arrayType below) (arrayType below') := by
  unfold arrayType; infer_instance

instance : Agree tail level (left + 2) (vectorType below) (vectorType below') := by
  unfold vectorType
  refine .bind inferInstance fun _ => .glance peekLooks (Nat.zero_le _) rfl fun c => ?_
  infer_instance

instance : Agree tail level left (qualifiedType below) (qualifiedType below') := by
  unfold qualifiedType; infer_instance

variable [Same tail level below below' .templateArg] [Same tail level below below' .name]

instance : Agree tail level left (parameterType below) (parameterType below') := by
  unfold parameterType
  refine .bind inferInstance fun param => .bindMemory fun m _ =>
    .glance peekLooks (Nat.zero_le _) rfl fun c => ?_
  split
  · infer_instance
  · split
    · infer_instance
    · split
      · infer_instance
      · refine .bindGet fun before here => .bind inferInstance fun _ =>
          .bind inferInstance fun args => .glance peekLooks (Nat.zero_le _) rfl fun c => ?_
        split
        · infer_instance
        · exact .bind (.set here) fun _ => inferInstance

theorem compoundTypeSeen (c₀ : Char) (c₁ : Option Char) :
    Agree tail level 2 (compoundType below c₀ c₁) (compoundType below' c₀ c₁) := by
  unfold compoundType
  split <;> first | infer_instance | (split <;> infer_instance)

theorem compoundTypeLast (c₀ : Char) :
    Agree tail level 1 (compoundType below c₀ none) (compoundType below' c₀ none) := by
  unfold compoundType
  simp only [reduceCtorEq, or_self, if_false]
  split <;> infer_instance

theorem compoundTypeBlind (c₀ : Char) :
    compoundType below c₀ (some '.') = compoundType below c₀ none := by
  unfold compoundType
  split <;> simp

end Types

theorem otherTypeAgree [Same tail level below below' .templateArg] {c₀ : Char} {c₁ : Option Char}
    (compound : Agree tail level left (compoundType below c₀ c₁) (compoundType below' c₀ c₁)) :
    Agree tail level left (otherType below c₀ c₁) (otherType below' c₀ c₁) := by
  unfold otherType
  split
  · refine .bind inferInstance fun base => .bindMemory fun m _ =>
      .glance peekLooks (Nat.zero_le _) (by simp) fun c => ?_
    infer_instance
  · infer_instance

theorem otherTypeBlind (c₀ : Char) : otherType below c₀ (some '.') = otherType below c₀ none := by
  unfold otherType
  simp [compoundTypeBlind]

instance [Same tail level below below' .type] [Same tail level below below' .encoding] :
    Agree tail level left (literal below) (literal below') := by
  unfold literal
  refine .bind inferInstance fun _ => .bind inferInstance fun isEntity => ?_
  split
  · infer_instance
  · exact .bind inferInstance fun type => .stretchTo fun value => inferInstance

/-! ### Expressions -/

section Expressions
variable [Same tail level below below' .type] [Same tail level below below' .encoding]
  [Same tail level below below' .expression] [Same tail level below below' .templateArg]
  [Same tail level below below' .braced]

instance : Agree tail level left (simpleId below) (simpleId below') := by
  unfold simpleId; infer_instance

instance (node : Node) :
    Agree tail level left (unresolvedType.remembered node) (unresolvedType.remembered node) := by
  unfold unresolvedType.remembered; infer_instance

instance : Agree tail level left (unresolvedType below) (unresolvedType below') := by
  unfold unresolvedType
  refine .bindCurrent fun c => ?_
  split <;> infer_instance

instance : Agree tail level left (baseUnresolvedName below) (baseUnresolvedName below') := by
  unfold baseUnresolvedName; infer_instance

instance : Agree tail level left (unresolvedScope below) (unresolvedScope below') := by
  unfold unresolvedScope
  refine .bind inferInstance fun isNested => ?_
  split
  · infer_instance
  · refine .bind inferInstance fun isScoped => ?_
    split
    · refine .bindCurrent fun c => ?_
      split
      · refine .bind inferInstance fun names => ?_
        split <;> infer_instance
      · infer_instance
    · infer_instance

instance : Agree tail level left (unresolvedName below) (unresolvedName below') := by
  unfold unresolvedName
  refine .bind inferInstance fun scope => .glance peekLooks (Nat.zero_le _) (by simp) fun c => ?_
  infer_instance

instance (n : Nat) : Agree tail level left (operands below n) (operands below' n) := by
  induction n generalizing left with
  | zero => unfold operands; infer_instance
  | succ n ih => unfold operands; infer_instance

instance (isBinary : Bool) :
    Agree tail level (left + 1) (fold below isBinary) (fold below' isBinary) := by
  unfold fold; infer_instance

instance : Agree tail level left (newInitializer below) (newInitializer below') := by
  unfold newInitializer; infer_instance

instance (c₀ c₁ : Char) :
    Agree tail level (left + 2) (coded below c₀ c₁) (coded below' c₀ c₁) := by
  unfold coded
  refine .bind inferInstance fun _ => ?_
  split <;> try infer_instance
  -- an operator that has no form of its own
  refine .bind inferInstance fun ⟨spelling, arity⟩ => ?_
  dsimp only
  split
  · refine .bind inferInstance fun isStepped => ?_
    split
    · infer_instance
    · refine .bind inferInstance fun xs => ?_
      split <;> infer_instance
  · refine .bind inferInstance fun xs => ?_
    split <;> infer_instance

instance : Agree tail level (left + 1) (vendorExpression below) (vendorExpression below') := by
  unfold vendorExpression; infer_instance

instance : Agree tail level left (localExpression below) (localExpression below') := by
  unfold localExpression
  refine .bindCurrent fun c₀ => .bindAhead (peekAtLooks 1) (Nat.le_refl _)
    (fun c₁ => ⟨2, Nat.le_refl _, ?_⟩) ?_ ?_
  · refine .glance (peekAtLooks 2) (Nat.le_refl _) (by simp) fun c₂ => ?_
    infer_instance
  all_goals
    refine .bindLook (peekAtLooks 2) fun s _ enough => ⟨1, enough, ?_⟩
    simp
    infer_instance

end Expressions

/-! ### Encodings -/

section Encodings
variable [Same tail level below below' .type] [Same tail level below below' .encoding]
  [Same tail level below below' .name] [Same tail level below below' .templateArg]

instance : Agree tail level left (specialName below) (specialName below') := by
  unfold specialName
  refine .bindCurrent fun c₀ => .bindByte (peekAtLooks 1) fun c₁ => .bind inferInstance fun _ => ?_
  split <;> infer_instance

instance : Agree tail level left (parameters below) (parameters below') := by
  unfold parameters
  rw [lookSwap, lookSwap]
  refine .bindSeen peekLooks (Nat.zero_le _) rfl (fun c => ?_)
    (.bindLook (peekAtLooks 1) fun s _ enough => ⟨left, enough, ?_⟩)
  · refine .glance (peekAtLooks 1) (Nat.le_refl _) (by simp) fun next => ?_
    infer_instance
  · simp only [reduceCtorEq, false_and, if_false]
    infer_instance

instance : Agree tail level left (declaration below) (declaration below') := by
  unfold declaration
  refine .bind inferInstance fun ⟨name, shape⟩ => .bind inferInstance fun _ =>
    .bind inferInstance fun isDone => ?_
  split
  · refine .bindMemory fun m _ => ?_
    split <;> infer_instance
  · infer_instance

end Encodings

/-! ### Productions -/

section Productions

theorem encodingRuleAgree (calls : ∀ p, Same tail (level + 1) below below' p) :
    Agree tail level left (encodingRule below) (encodingRule below') := by
  refine .nested (.glance peekLooks (Nat.zero_le _) (by simp) fun c => ?_)
  infer_instance

theorem nameRuleAgree (calls : ∀ p, Same tail (level + 1) below below' p) :
    Agree tail level left (nameRule below) (nameRule below') := by
  refine .nested (.bindCurrent fun c₀ =>
    .glance (peekAtLooks 1) (Nat.le_refl _) (by simp) fun c₁ => ?_)
  split
  · infer_instance
  · split
    · infer_instance
    · split
      · infer_instance
      · exact .bind inferInstance fun ⟨name, shape⟩ =>
          .glance peekLooks (Nat.zero_le _) rfl fun c => inferInstance

theorem typeRuleAgree (calls : ∀ p, Same tail (level + 1) below below' p) :
    Agree tail level left (typeRule below) (typeRule below') := by
  refine .nested (.restoring (.bind inferInstance fun _ => .bindCurrent fun c₀ =>
    .bindSeen (peekAtLooks 1) (Nat.le_refl _) (by simp only [otherTypeBlind]) (fun c₁ => ?_) ?_))
  · exact .bindUnread inferInstance builtinUnread (fun _ => inferInstance)
      (otherTypeAgree (compoundTypeSeen c₀ c₁))
  · exact .bindUnread inferInstance builtinUnread (fun _ => inferInstance)
      (otherTypeAgree (compoundTypeLast c₀))

theorem expressionRuleAgree (calls : ∀ p, Same tail (level + 1) below below' p) :
    Agree tail level left (expressionRule below) (expressionRule below') := by
  refine .nested (.bind inferInstance fun isOutermost => ?_)
  split
  · refine .bind inferInstance fun expression => .bindMemory fun m _ => ?_
    split <;> infer_instance
  · infer_instance

theorem templateArgRuleAgree (calls : ∀ p, p ≠ .braced → Same tail level below below' p) :
    Agree tail level left (templateArgRule below) (templateArgRule below') := by
  have type := calls .type nofun
  have encoding := calls .encoding nofun
  have expression := calls .expression nofun
  have templateArg := calls .templateArg nofun
  unfold templateArgRule
  refine .bindCurrent fun c => ?_
  split <;> infer_instance

theorem bracedRuleAgree (calls : ∀ p, p ≠ .templateArg → Same tail level below below' p) :
    Agree tail level left (bracedRule below) (bracedRule below') := by
  have type := calls .type nofun
  have expression := calls .expression nofun
  have braced := calls .braced nofun
  unfold bracedRule; infer_instance

end Productions

end CxxSymbols.Itanium.Grammar
