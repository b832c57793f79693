import CxxSymbols.Proofs.Itanium.Progress.Steps
/-! Every rule of the grammar moves on, over a grammar below it that moves on from wherever fewer
bytes are left. A few rules hand over to another before they have taken anything: those need it to
move on from the same place. -/
namespace CxxSymbols.Itanium.Grammar
open Scanner

set_option synthInstance.maxSize 2000

variable {most : Nat} {taken takes : Bool} {front : List Char}

/-! ### Rules that hold no other -/

instance : Moves most taken front false number? := by
  unfold number?
  refine .bindLook restLooks fun s _ _ => ?_
  have body : (if s.rest.head? = some 110 then s.rest.drop 1 else s.rest) <:+ s.rest := by
    split
    · exact List.drop_suffix 1 s.rest
    · exact List.suffix_rfl
  generalize (if s.rest.head? = some 110 then s.rest.drop 1 else s.rest) = bytes at body ⊢
  have behind := (List.dropWhile_suffix isDigit).trans body
  split
  · exact ⟨List.suffix_rfl, Nat.le_refl _⟩
  · exact ⟨behind, behind.length_le⟩

instance : Moves most taken front false number := by unfold number; infer_instance

theorem naturalFinds (s : Cursor Memory) : Finds s.rest (natural? s) := by
  unfold natural?
  rw [Stateful.bindOk (restLooks s)]
  split
  · exact rfl
  · rename_i there
    have digits : 0 < (s.rest.takeWhile isDigit).length := by
      rw [Bool.or_eq_true, not_or, List.isEmpty_iff] at there
      exact List.length_pos_iff.mpr there.1
    have all := congrArg List.length (List.takeWhile_append_dropWhile (p := isDigit) (l := s.rest))
    rw [List.length_append] at all
    have less : (s.rest.dropWhile isDigit).length < s.rest.length := by omega
    exact ⟨List.dropWhile_suffix isDigit, less⟩

instance : Moves most taken front false natural? := .ofFinds naturalFinds

instance : Moves most taken front takes natural := by
  unfold natural
  refine .bindFinds naturalFinds (fun n => ?_) inferInstance
  exact inferInstanceAs (Moves most true [] false (pure n))

instance : Moves most taken front false sequenceId? := by unfold sequenceId?; infer_instance

instance : Moves most taken front takes identifier := by
  unfold identifier
  refine .taking inferInstance fun length => .bindLook restLooks fun s _ _ => ?_
  split
  · exact ⟨rfl, List.suffix_rfl⟩
  · have behind := List.drop_suffix length s.rest
    exact ⟨behind, behind.length_le⟩

instance : Moves most taken front false ordinal := by
  unfold ordinal
  refine .bind inferInstance fun n => ?_
  split <;> infer_instance

instance : Moves most taken front false qualifiers := by unfold qualifiers; infer_instance

instance : Moves most taken ('r' :: front) takes qualifiers := by
  unfold qualifiers
  exact .bindSeen rfl inferInstance

instance : Moves most taken ('V' :: front) takes qualifiers := by
  unfold qualifiers
  exact .bindUnseen rfl (by decide) (.bindSeen rfl inferInstance)

instance : Moves most taken ('K' :: front) takes qualifiers := by
  unfold qualifiers
  exact .bindUnseen rfl (by decide) (.bindUnseen rfl (by decide) (.bindSeen rfl inferInstance))

instance : Moves most taken front false refQualifier := by unfold refQualifier; infer_instance

instance : Moves most taken front false discriminator := by
  unfold discriminator
  refine .anywhere ?_
  refine .bindPeek (fun c => ?_) ?_
  · split
    · refine .bindSecond (fun d => ?_) inferInstance
      split
      · refine .bindLook restLooks fun s near known => ?_
        have skipped : Moves most taken [c, d] false (Scanner.skip 2 : Rule _) := inferInstance
        refine (skipped.ends near known).bind fun _ within _ => .step inferInstance within ?_
        intro n t within
        split
        · refine .step inferInstance within ?_
          intro isClosed t within
          split
          · exact ⟨within, within.length_le⟩
          · exact ⟨List.suffix_rfl, Nat.le_refl _⟩
        · exact ⟨List.suffix_rfl, Nat.le_refl _⟩
      · infer_instance
      · infer_instance
    · infer_instance
  · rw [if_neg nofun]
    infer_instance

instance : Moves most taken front false atEncodingEnd := by
  unfold atEncodingEnd
  refine .glance peekLooks fun c => ?_
  split <;> infer_instance

instance (node : Node) : Moves most taken front false (remember node) := by
  unfold remember; infer_instance

instance (node : Node) : Moves most taken front false (refer node) := by
  unfold refer; infer_instance

instance (index : Nat) : Moves most taken front false (candidate index) := by
  unfold candidate; infer_instance

instance : Moves most taken front takes substitution := by
  unfold substitution
  refine .taking inferInstance fun _ => .bindCurrent fun c => ?_
  split <;> infer_instance

instance (index : Nat) : Moves most taken front false (argument index) := by
  unfold argument
  refine .bindMemory fun m => ?_
  split <;> infer_instance

instance : Moves most taken front takes templateParam := by
  unfold templateParam; infer_instance

instance (name : Node) : Moves most taken front false (withAbiTags name) := by
  unfold withAbiTags; infer_instance

instance : Moves most taken front takes functionParamTail := by
  unfold functionParamTail; infer_instance

instance : Moves most taken front takes functionParam := by
  unfold functionParam; infer_instance

instance (allowed : List Char) : Moves most taken front takes (structorNumber allowed) := by
  unfold structorNumber
  exact .anywhere inferInstance

instance (cls : Node) : Moves most taken front false (namesake? cls) := by
  unfold namesake?; infer_instance

theorem sizedBuiltinFinds {s : Cursor Memory} {c d : Char}
    (known : [c, d] <+: s.rest.map Char.ofUInt8)
    (sized : some d = some 'F' ∨ some d = some 'B' ∨ some d = some 'U') :
    Finds s.rest ((skip 2 >>= fun _ => natural? >>= fun bits =>
      match bits, some d with
      | some bits, some kind => accept "_" >>= fun isClosed =>
        if isClosed = true then pure ((sizedBuiltin? bits kind).map Node.name)
        else setRest s.rest >>= fun _ => pure none
      | _, _ => setRest s.rest >>= fun _ => pure none : Rule (Option Node)) s) := by
  have spelled (bits : Nat) : ∃ spelling, sizedBuiltin? bits d = some spelling := by
    rcases sized with same | same | same <;> cases same <;> exact ⟨_, rfl⟩
  have step : Moves s.rest.length false [c, d] true
      (skip 2 >>= fun _ => natural? : Rule _) := inferInstance
  have ends := step.ends (Nat.le_refl _) known
  rw [← bind_assoc]
  cases ran : (skip 2 >>= fun _ => natural? : Rule _) s with
  | error e t =>
    rw [ran] at ends
    rw [Stateful.bindError ran]
    exact ends
  | ok bits t =>
    rw [ran] at ends
    rw [Stateful.bindOk ran]
    cases bits with
    | none => exact rfl
    | some bits =>
      obtain ⟨spelling, known⟩ := spelled bits
      dsimp only
      rw [known, Option.map_some]
      cases start : after? "_".toList t.rest with
      | none =>
        rw [Stateful.bindOk (acceptMissing start t.memory)]
        exact rfl
      | some behind =>
        rw [Stateful.bindOk (acceptFound start t.memory)]
        have within := (afterSource start).1
        exact ⟨within.trans ends.1, Nat.le_trans (Nat.succ_le_succ within.length_le) ends.2⟩

theorem builtinFinds (s : Cursor Memory) : Finds s.rest (builtin? s) := by
  obtain ⟨bytes, m⟩ := s
  unfold builtin?
  cases bytes with
  | nil => exact ⟨rfl, List.suffix_rfl⟩
  | cons b bytes =>
    have first : (current : Rule _) ⟨b :: bytes, m⟩ = .ok (Char.ofUInt8 b) ⟨b :: bytes, m⟩ := rfl
    have known : [Char.ofUInt8 b] <+: (b :: bytes).map Char.ofUInt8 := ⟨_, rfl⟩
    rw [Stateful.bindOk first]
    cases builtinLetter? (Char.ofUInt8 b) with
    | some spelling => exact .ofMoves inferInstance known
    | none =>
      dsimp only
      split
      · rw [← bind_assoc]
        exact .ofMoves inferInstance known
      · split
        · rw [Stateful.bindOk (peekAtLooks 1 _)]
          cases bytes with
          | nil => exact rfl
          | cons d bytes =>
            have known : [Char.ofUInt8 b, Char.ofUInt8 d] <+: (b :: d :: bytes).map Char.ofUInt8 :=
              ⟨_, rfl⟩
            have second : (b :: d :: bytes)[1]?.map Char.ofUInt8 = some (Char.ofUInt8 d) := rfl
            dsimp only
            rw [second, Option.bind_some]
            cases builtinAfterD? (Char.ofUInt8 d) with
            | some spelling => exact .ofMoves (s := ⟨b :: d :: bytes, m⟩) inferInstance known
            | none =>
              dsimp only
              split
              · rename_i sized
                exact sizedBuiltinFinds (s := ⟨b :: d :: bytes, m⟩) known sized
              · exact rfl
        · exact rfl

instance : Moves most taken front false atFunctionType := by
  unfold atFunctionType
  refine .glance peekLooks fun c => .glance (peekAtLooks 1) fun d => ?_
  split <;> infer_instance

instance : Moves most taken front takes callOffset := by unfold callOffset; infer_instance

instance (symbol : Node) : Moves most taken front false (completed symbol) := by
  unfold completed
  refine .bindMemory fun m => ?_
  split <;> infer_instance

/-! ### Names -/

variable {below : Below}

abbrev Onward (most : Nat) (taken : Bool) (below : Below) (p : Production) : Prop :=
  ∀ front takes, Moves most taken front takes (below p)

theorem Moves.onward {most fewer : Nat} {taken taken' : Bool} {p : Production}
    (moves : Moves most taken [] true (below p))
    (within : fewer + taken.toNat ≤ most + taken'.toNat) : Onward fewer taken' below p :=
  fun _ _ => (moves.within within).relax

section Names

instance [Onward most true below .templateArg] :
    Moves most taken front takes (templateArgs below) := by
  unfold templateArgs; infer_instance

instance [Onward most true below .templateArg] (base : Node) :
    Moves most taken front false (withTemplateArgs below base) := by
  unfold withTemplateArgs
  exact .glance peekLooks fun _ => inferInstance

variable [types : Onward most true below .type]

instance : Moves most taken front takes (operatorName below) := by
  unfold operatorName
  exact .anywhere (.bindCurrent fun c => .bindSecond (fun d => inferInstance) inferInstance)

instance (scope : Node) : Moves most taken front takes (structor below scope) := by
  unfold structor; infer_instance

instance : Moves most taken front takes (unnamedName below) := by
  have stop : Moves most true [] false (return (← peek) = some 'E' : Rule Bool) :=
    .glance peekLooks fun _ => inferInstance
  unfold unnamedName; infer_instance

instance (scope : Option Node) : Moves most taken front takes (unqualifiedName below scope) := by
  unfold unqualifiedName
  refine .anywhere ?_
  refine .bindPeek (fun c => .glance (peekAtLooks 1) fun d => .joined inferInstance fun _ => ?_)
    (.glance (peekAtLooks 1) fun d => ?_)
  -- where nothing is left to be read it makes no difference what stands one further
  rotate_left
  simp only [reduceCtorEq, false_and, if_false]
  all_goals
    refine .bindCurrent fun c₀ => .bindSecond (fun c₁ => inferInstance) ?_
    simp only [reduceCtorEq, and_false, if_false]
    infer_instance

instance : Moves most taken front takes (unscopedName below) := by
  unfold unscopedName
  exact .anywhere inferInstance

instance [Onward most true below .expression] :
    Moves most taken front takes (nestedComponents.decltypeName below) := by
  unfold nestedComponents.decltypeName; infer_instance

variable [expressions : Onward most true below .expression]
  [templateArgs : Onward most true below .templateArg]

theorem nestedComponentsMove {rounds : Nat} (enough : rounds ≤ most) (scope : Option Node)
    (shape : NameShape) :
    Moves rounds true front false (nestedComponents below rounds scope shape) := by
  refine .inRounds (x := fun i rounds => nestedComponents below rounds i.1 i.2) enough
    (fun {fewer} less further i => ?_) (scope, shape)
  have further (scope : Option Node) (shape : NameShape) :
      Moves fewer true [] false (nestedComponents below fewer scope shape) := further (scope, shape)
  have fewer : fewer + 1 ≤ most + 1 := Nat.le_succ_of_le less
  have type : Onward _ true below .type := (types [] true).onward fewer
  have expression : Onward _ true below .expression := (expressions [] true).onward fewer
  have templateArg : Onward _ true below .templateArg := (templateArgs [] true).onward fewer
  unfold nestedComponents
  refine .bindAccept (by decide) inferInstance (.bind inferInstance fun _ =>
    .bindAccept (by decide) inferInstance (.bindCurrent fun c₀ =>
      .glance (peekAtLooks 1) fun c₁ => ?_))
  infer_instance

instance : Moves most taken front takes (nestedName below) := by
  unfold nestedName
  refine .taking inferInstance fun _ => .bind inferInstance fun quals =>
    .bind inferInstance fun refQual => .bind inferInstance fun isStd =>
      .bindRest fun bytes near => .bind (nestedComponentsMove near _ _) fun _ => inferInstance

variable [Onward most true below .encoding] [Onward most true below .name]

instance : Moves most taken front takes (localName below) := by
  unfold localName; infer_instance

end Names

instance [Onward most taken below .name] : Moves most taken front takes (plainName below) := by
  unfold plainName
  refine .taking inferInstance fun ⟨name, shape⟩ => .bindMemory fun m => ?_
  split <;> infer_instance

/-! ### Types -/

section Types
variable [types : Onward most true below .type]

theorem functionParametersMove {rounds : Nat} (enough : rounds ≤ most) :
    Moves rounds true front false (functionType.parameters below rounds) := by
  refine .inRounds (x := fun (_ : Unit) => functionType.parameters below) enough
    (fun {fewer} less further _ => ?_) ()
  have further := further ()
  have type : Onward fewer false below .type := (types [] true).onward less
  unfold functionType.parameters; infer_instance

variable [Onward most true below .expression]

instance : Moves most taken front false (exceptions below) := by
  unfold exceptions; infer_instance

instance : Moves most taken front takes (functionType below) := by
  unfold functionType
  refine .bind inferInstance fun exceptions => .bind inferInstance fun isTransactional =>
    .taking inferInstance fun _ => .bind inferInstance fun _ => .bind inferInstance fun ret =>
      .bindRest fun bytes near => .bind (functionParametersMove near) fun _ => inferInstance

instance : Moves most taken front takes (arrayType below) := by
  unfold arrayType; infer_instance

instance (c d : Char) : Moves most taken (c :: d :: front) takes (vectorType below) := by
  unfold vectorType
  refine .taking inferInstance fun _ => .glance peekLooks fun c => ?_
  infer_instance

/- Without qualifiers it would be the type itself over again. -/
instance [Moves most taken front true qualifiers] :
    Moves most taken front takes (qualifiedType below) := by
  unfold qualifiedType; infer_instance

variable [Onward most true below .templateArg] [Onward most taken below .name]

instance : Moves most taken front takes (parameterType below) := by
  have args : Moves most true [] false (templateArgs below) := inferInstance
  unfold parameterType
  refine .taking inferInstance fun param => .bindMemory fun m => .glance peekLooks fun c => ?_
  refine .branch inferInstance (.branch inferInstance (.branch inferInstance ?_))
  refine .bindLook getLooks fun s near _ => ?_
  refine .step inferInstance List.suffix_rfl fun {_ t} within => ?_
  have nearer : t.rest.length + 1 ≤ most := Nat.le_trans (Nat.succ_le_succ within.length_le) near
  refine .step (args.within nearer) within fun {args u} within => ?_
  rw [Stateful.bindOk (peekLooks u)]
  split
  · exact ⟨within, within.length_le⟩
  · exact ⟨List.suffix_rfl, Nat.le_refl _⟩

theorem compoundTypeMoves (c₀ c₁ : Char) :
    Moves most taken [c₀, c₁] takes (compoundType below c₀ (some c₁)) := by
  unfold compoundType
  split <;> first | infer_instance | (split <;> infer_instance)

theorem compoundTypeMovesLast (c₀ : Char) :
    Moves most taken [c₀] takes (compoundType below c₀ none) := by
  unfold compoundType
  simp only [reduceCtorEq, or_self, if_false]
  split <;> infer_instance

end Types

theorem otherTypeMoves [Onward most true below .templateArg] {c₀ : Char} {c₁ : Option Char}
    (compound : Moves most taken front true (compoundType below c₀ c₁)) :
    Moves most taken front takes (otherType below c₀ c₁) := by
  unfold otherType
  refine .branch (.taking inferInstance fun base => .bindMemory fun m =>
    .glance peekLooks fun c => ?_) inferInstance
  infer_instance

instance [Onward most true below .type] [Onward most true below .encoding] :
    Moves most taken front takes (literal below) := by
  unfold literal; infer_instance

/-! ### Expressions -/

section Expressions
variable [Onward most true below .type] [Onward most true below .encoding]
  [Onward most true below .expression] [Onward most true below .templateArg]
  [Onward most true below .braced]

instance : Moves most taken front takes (simpleId below) := by
  unfold simpleId; infer_instance

instance (node : Node) : Moves most taken front false (unresolvedType.remembered node) := by
  unfold unresolvedType.remembered; infer_instance

instance : Moves most taken front takes (unresolvedType below) := by
  unfold unresolvedType
  refine .anywhere (.bindCurrent fun c => ?_)
  split <;> infer_instance

instance : Moves most taken front takes (baseUnresolvedName below) := by
  unfold baseUnresolvedName
  exact .anywhere inferInstance

instance : Moves most taken front false (unresolvedScope below) := by
  unfold unresolvedScope
  refine .anywhere (.bindAccept (by decide) inferInstance
    (.bindAccept (by decide) ?_ inferInstance))
  refine .bindCurrent fun c => .branch (.bind inferInstance fun names => ?_) inferInstance
  split <;> infer_instance

instance : Moves most taken front takes (unresolvedName below) := by
  unfold unresolvedName
  refine .bind inferInstance fun scope => .glance peekLooks fun c => ?_
  infer_instance

instance (n : Nat) : Moves most true front false (operands below n) := by
  induction n generalizing front with
  | zero => unfold operands; infer_instance
  | succ n ih => unfold operands; infer_instance

instance (isBinary : Bool) (c : Char) :
    Moves most taken (c :: front) takes (fold below isBinary) := by
  unfold fold
  refine .taking inferInstance fun _ => .bind inferInstance fun side => .bindCurrent fun c₀ =>
    .bindSecond (fun c₁ => inferInstance) inferInstance

instance : Moves most taken front false (newInitializer below) := by
  unfold newInitializer; infer_instance

instance (c₀ c₁ : Char) :
    Moves most taken (c₀ :: c₁ :: front) takes (coded below c₀ c₁) := by
  unfold coded
  refine .taking inferInstance fun _ => ?_
  split <;> try infer_instance
  -- an operator that has no form of its own
  refine .bind inferInstance fun ⟨spelling, arity⟩ => ?_
  dsimp only
  split
  · refine .bindAccept (by decide) inferInstance (.bind inferInstance fun xs => ?_)
    split <;> infer_instance
  · refine .bind inferInstance fun xs => ?_
    split <;> infer_instance

instance (c : Char) : Moves most taken (c :: front) takes (vendorExpression below) := by
  unfold vendorExpression; infer_instance

instance : Moves most taken front takes (localExpression below) := by
  unfold localExpression
  refine .anywhere (.bindCurrent fun c₀ => .bindSecond (fun c₁ => ?_) ?_)
  · refine .glance (peekAtLooks 2) fun c₂ => ?_
    infer_instance
  · refine .glance (peekAtLooks 2) fun c₂ => ?_
    simp only [reduceCtorEq, false_and, or_self, and_false, if_false, List.mem_cons,
      Prod.mk.injEq, List.not_mem_nil, or_false]
    infer_instance

end Expressions

/-! ### Encodings -/

section Encodings
variable [Onward most true below .type] [Onward most true below .encoding]
  [Onward most true below .name] [Onward most true below .templateArg]

instance : Moves most taken front takes (specialName below) := by
  unfold specialName
  refine .anywhere (.bindCurrent fun c₀ => .bindSecond (fun c₁ =>
    .bindSome (.taking inferInstance fun _ => ?_)) inferInstance)
  split <;> infer_instance

instance : Moves most true front false (parameters below) := by
  unfold parameters
  rw [lookSwap]
  refine .anywhere (.bindPeek (fun c => .glance (peekAtLooks 1) fun next => inferInstance)
    (.glance (peekAtLooks 1) fun next => ?_))
  simp only [reduceCtorEq, false_and, if_false]
  infer_instance

instance [Onward most taken below .name] : Moves most taken front takes (declaration below) := by
  unfold declaration
  refine .taking inferInstance fun ⟨name, shape⟩ => .bind inferInstance fun _ =>
    .bind inferInstance fun isDone => .branch (.bindMemory fun m => ?_) inferInstance
  split <;> infer_instance

end Encodings

/-! ### Productions -/

section Productions

theorem encodingRuleMoves (calls : ∀ p, Onward most true below p)
    (name : Onward most taken below .name) : Moves most taken [] true (encodingRule below) := by
  refine .nested (.glance peekLooks fun c => ?_)
  infer_instance

theorem nameRuleMoves (calls : ∀ p, Onward most true below p) :
    Moves most taken [] true (nameRule below) := by
  refine .nested (.bindCurrent fun c₀ => .glance (peekAtLooks 1) fun c₁ => ?_)
  refine .branch inferInstance (.branch inferInstance (.branch inferInstance ?_))
  exact .taking inferInstance fun ⟨name, shape⟩ => .glance peekLooks fun c => inferInstance

theorem typeRuleMoves (calls : ∀ p, Onward most true below p)
    (name : Onward most taken below .name) : Moves most taken [] true (typeRule below) := by
  refine .nested (.restoring _ (.bind inferInstance fun _ => .bindCurrent fun c₀ =>
    .bindSecond (fun c₁ => ?_) ?_))
  · exact .bindFinds builtinFinds (fun _ => inferInstance)
      (otherTypeMoves (compoundTypeMoves c₀ c₁))
  · exact .bindFinds builtinFinds (fun _ => inferInstance)
      (otherTypeMoves (compoundTypeMovesLast c₀))

theorem expressionRuleMoves (calls : ∀ p, Onward most true below p) :
    Moves most taken [] true (expressionRule below) := by
  refine .nested (.bindAccept (by decide) ?_ inferInstance)
  refine .bind inferInstance fun expression => .bindMemory fun m => ?_
  split <;> infer_instance

theorem templateArgRuleMoves (calls : ∀ p, Onward most true below p)
    (type : Onward most taken below .type) : Moves most taken [] true (templateArgRule below) := by
  unfold templateArgRule
  refine .bindCurrent fun c => ?_
  split <;> infer_instance

theorem bracedRuleMoves (calls : ∀ p, Onward most true below p)
    (expression : Onward most taken below .expression) :
    Moves most taken [] true (bracedRule below) := by
  unfold bracedRule; infer_instance

end Productions
end CxxSymbols.Itanium.Grammar
