import CxxSymbols.Proofs.Itanium.Lexical
/-! Reading names. Each scope of a nested name that is spelled out becomes a candidate on the way,
the whole name too, which is then taken back. -/
namespace CxxSymbols.Itanium.Mangling
open Grammar Scanner Stateful

/-! ### How names begin -/

theorem sourceBegins (i : Ident) : ∃ d < 10, ∃ more, i.source = digit d :: more := by
  obtain ⟨d, small, more, shape⟩ := numeralBegins (by decide : 2 ≤ 10) (Text.encode i.text).length
  refine ⟨d, small, more ++ Text.encode i.text, ?_⟩
  rw [Ident.source, shape, List.cons_append]

theorem referenceBegins (index : Nat) : ∃ b more, referenceTo index = letter 'S' :: b :: more ∧
    Char.ofUInt8 b ≠ 't' := by
  cases index with
  | zero => exact ⟨letter '_', [], rfl, by decide⟩
  | succ n =>
    obtain ⟨d, small, more, shape⟩ := numeralBegins (by decide : 2 ≤ 36) n
    have plain : ∀ d : Fin 36, Char.ofUInt8 (digit d.val) ≠ 't' := by decide
    refine ⟨digit d, more ++ [letter '_'], ?_, plain ⟨d, small⟩⟩
    rw [referenceTo, shape]
    rfl

theorem digitIsDigit {d : Nat} (small : d < 10) : (Char.ofUInt8 (digit d)).isDigit = true := by
  have all : ∀ d : Fin 10, (Char.ofUInt8 (digit d.val)).isDigit = true := by decide
  exact all ⟨d, small⟩

theorem digitOther {d : Nat} (small : d < 10) (c : Char) (other : c.isDigit = false) :
    Char.ofUInt8 (digit d) ≠ c := by
  intro same
  rw [← same, digitIsDigit small] at other
  cases other

theorem acceptFails {text : String} {c : Char} {cs : List Char} (shape : text.toList = c :: cs)
    {b : UInt8} (other : Char.ofUInt8 b ≠ c) (behind : List UInt8) (m : Memory) :
    accept text ⟨b :: behind, m⟩ = .ok false ⟨b :: behind, m⟩ := by
  refine acceptOther shape ?_ m
  intro b' first
  cases first
  exact other

/-! ### One identifier -/

variable (below : Below) {table table' : List Ty} {nesting copied : Nat} {i : Ident} {p : Path}

theorem noAbiTags (name : Node) {behind : List UInt8} (ends : Ends behind) (m : Memory) :
    withAbiTags name ⟨behind, m⟩ = .ok name ⟨behind, m⟩ := by
  have noTag : accept "B" ⟨behind, m⟩ = .ok false ⟨behind, m⟩ := by
    refine acceptOther rfl ?_ m
    intro b first same
    exact (ends b first).2 (letterOfChar same)
  exact bindOk (restoringOk _ (manyAfterNone noTag))

theorem readsUnqualified (short : (Text.encode i.text).length < UInt64.size)
    (scope : Option Node) :
    Reads (unqualifiedName below scope) i.source (.name i.text, false) table table nesting 0 := by
  intro m left behind holds ends
  obtain ⟨m', ran, holds'⟩ := readsIdentifier short table nesting m left behind holds ends
  obtain ⟨d, small, more, shape⟩ := sourceBegins i
  have notLocal := digitOther small 'L' rfl
  have isDigit := digitIsDigit small
  refine ⟨m', ?_, holds'⟩
  rw [shape, List.cons_append] at ran ⊢
  refine (bindOk rfl).trans ((bindOk rfl).trans ?_)
  simp only [List.head?_cons, Option.map_some, Option.some.injEq, notLocal, false_and, if_false]
  refine (bindOk rfl).trans ((bindOk rfl).trans ?_)
  simp only [isDigit, if_true]
  exact (bindOk ran).trans ((bindOk rfl).trans (bindOk (noAbiTags _ ends m')))

/-! ### Scopes -/

theorem componentRead {scope : Option Node} {q : Path} {budget : Nat} {m : Memory}
    {behind : List UInt8} (short : (Text.encode i.text).length < UInt64.size)
    (node : within scope (.name i.text) = q.toNode) (holds : Holds m table nesting budget)
    (ends : Ends behind) (rounds : Nat) :
    ∃ m', nestedComponents below (rounds + 1) scope {} ⟨i.source ++ behind, m⟩ =
      nestedComponents below rounds (some q.toNode) {} ⟨behind, m'⟩ ∧
        Holds m' (table ++ [Ty.named q]) nesting budget := by
  rw [← Nat.zero_add budget] at holds
  obtain ⟨m₁, ran, holds₁⟩ := readsUnqualified below short scope m _ behind holds ends
  rw [← Nat.zero_add budget] at holds₁
  obtain ⟨m₂, remembered, holds₂⟩ := readsRemember (.named q) m₁ _ behind holds₁ ends
  obtain ⟨d, small, more, shape⟩ := sourceBegins i
  have other := digitOther small
  refine ⟨m₂, ?_, holds₂⟩
  rw [shape, List.cons_append] at ran ⊢
  rw [nestedComponents]
  refine (bindOk (acceptFails rfl (other 'E' rfl) _ m)).trans ?_
  refine (bindOk (acceptFails rfl (other 'L' rfl) _ m)).trans ?_
  refine (bindOk (acceptFails rfl (other 'M' rfl) _ m)).trans ?_
  refine (bindOk rfl).trans ((bindOk rfl).trans ?_)
  simp only [other 'I' rfl, other 'S' rfl, other 'T' rfl, other 'D' rfl, other 'C' rfl, false_and,
    or_false, if_false]
  refine (bindOk ran).trans ?_
  show (remember (within scope (.name i.text)) >>= fun _ => nestedComponents below rounds
    (some (within scope (.name i.text))) {}) _ = _
  rw [node]
  exact bindOk remembered

theorem thenNode (p : Path) (i : Ident) :
    within (some p.toNode) (.name i.text) = (p.then i).toNode := by
  rw [Path.toNode, Path.then, Path.toNode, List.foldl_append]
  rfl

theorem scopeDepth {limit : Nat} (depth : (p.then i).toNode.depthWithin limit = true) :
    p.toNode.depthWithin limit = true := by
  refine depthOfPart (fun limit depth => ?_) depth
  rw [← thenNode, within, Node.depthWithin, Bool.and_eq_true] at depth
  exact depth.1

theorem endsAtSource (i : Ident) (behind : List UInt8) : Ends (i.source ++ behind) := by
  obtain ⟨d, small, more, shape⟩ := sourceBegins i
  have all : ∀ d : Fin 10, digit d.val ≠ letter 'I' ∧ digit d.val ≠ letter 'B' := by decide
  rw [shape]
  exact endsBefore (all ⟨d, small⟩) _

theorem scopeGrowth {bytes : List UInt8} (spelled : ScopeSpelled table p bytes copied table') :
    table'.length ≤ table.length + bytes.length := by
  induction spelled with
  | first i =>
    obtain ⟨d, _, more, shape⟩ := sourceBegins i
    rw [List.length_append, shape]
    simp only [List.length_cons, List.length_nil]
    omega
  | referred candidate => exact Nat.le_add_right _ _
  | next scope i ih =>
    obtain ⟨d, _, more, shape⟩ := sourceBegins i
    rw [List.length_append, List.length_append, shape]
    simp only [List.length_cons, List.length_nil]
    omega

theorem sourceShort {size : Nat} (short : i.source.length ≤ size) (fits : size < UInt64.size) :
    (Text.encode i.text).length < UInt64.size := by
  rw [Ident.source, List.length_append] at short
  omega

theorem scopeRead (nesting : Nat) {bytes : List UInt8}
    (spelled : ScopeSpelled table p bytes copied table')
    (depth : p.toNode.depthWithin maxTreeDepth = true)
    (short : table.length + bytes.length < UInt64.size) :
    ∃ count ≤ bytes.length, ∀ (rounds left : Nat) (behind : List UInt8) (m : Memory),
      Holds m table nesting (copied + left) → Ends behind →
        ∃ m', nestedComponents below (rounds + count) none {} ⟨bytes ++ behind, m⟩ =
          nestedComponents below rounds (some p.toNode) {} ⟨behind, m'⟩ ∧
            Holds m' table' nesting left := by
  induction spelled with
  | first i =>
    obtain ⟨d, _, more, shape⟩ := sourceBegins i
    have fits := sourceShort (Nat.le_refl i.source.length) (by omega)
    refine ⟨1, by rw [shape]; exact Nat.succ_le_succ (Nat.zero_le _), ?_⟩
    intro rounds left behind m holds ends
    rw [Nat.zero_add] at holds
    exact componentRead below fits rfl holds ends rounds
  | @referred index p candidate =>
    have few : index < UInt64.size := by
      have inside := (List.getElem?_eq_some_iff.mp candidate).1
      omega
    obtain ⟨b, more, shape, other⟩ := referenceBegins index
    refine ⟨1, by rw [shape]; exact Nat.succ_le_succ (Nat.zero_le _), ?_⟩
    intro rounds left behind m holds ends
    obtain ⟨m', ran, holds'⟩ := readsSubstitution candidate depth few nesting m left behind holds
      ends
    refine ⟨m', ?_, holds'⟩
    rw [shape, List.cons_append, List.cons_append] at ran ⊢
    rw [nestedComponents]
    refine (bindOk (acceptFails rfl (by decide) _ m)).trans ?_
    refine (bindOk (acceptFails rfl (by decide) _ m)).trans ?_
    refine (bindOk (acceptFails rfl (by decide) _ m)).trans ?_
    refine (bindOk rfl).trans ((bindOk rfl).trans ?_)
    have isReference : Char.ofUInt8 (letter 'S') = 'S' ∧ some (Char.ofUInt8 b) ≠ some 't' :=
      ⟨by decide, fun same => other (Option.some.inj same)⟩
    rw [if_neg (by decide)]
    refine (congrFun (if_pos isReference) _).trans ?_
    exact bindOk ran
  | @next table' p bytes copied scope i ih =>
    rw [List.length_append] at short
    have fits := sourceShort (Nat.le_refl i.source.length) (by omega)
    obtain ⟨d, small, more, shape⟩ := sourceBegins i
    obtain ⟨count, fewer, front⟩ := ih (scopeDepth depth) (by omega)
    refine ⟨count + 1, ?_, ?_⟩
    · rw [List.length_append, shape, List.length_cons]
      omega
    intro rounds left behind m holds ends
    obtain ⟨m₁, ran, holds₁⟩ := front (rounds + 1) left (i.source ++ behind) m holds
      (endsAtSource i behind)
    obtain ⟨m₂, last, holds₂⟩ := componentRead below fits (thenNode p i) holds₁ ends rounds
    refine ⟨m₂, ?_, holds₂⟩
    have sum : rounds + (count + 1) = rounds + 1 + count := by omega
    rw [List.append_assoc, sum]
    exact ran.trans last

/-! ### Names -/

theorem nameGrowth {bytes : List UInt8} (spelled : NameSpelled table p bytes copied table') :
    table'.length < table.length + bytes.length := by
  cases spelled with
  | source i =>
    obtain ⟨d, _, more, shape⟩ := sourceBegins i
    rw [shape, List.length_cons]
    omega
  | nested scope i =>
    have growth := scopeGrowth scope
    simp only [List.length_append, List.length_cons, List.length_nil]
    omega

theorem scopeBegins {bytes : List UInt8} (spelled : ScopeSpelled table p bytes copied table') :
    (∃ d < 10, ∃ more, bytes = digit d :: more) ∨
      ∃ b more, bytes = letter 'S' :: b :: more ∧ Char.ofUInt8 b ≠ 't' := by
  induction spelled with
  | first i => exact .inl (sourceBegins i)
  | referred candidate => exact .inr (referenceBegins _)
  | next scope i ih =>
    rcases ih with ⟨d, small, more, shape⟩ | ⟨b, more, shape, other⟩
    · exact .inl ⟨d, small, more ++ i.source, by rw [shape, List.cons_append]⟩
    · exact .inr ⟨b, more ++ i.source, by rw [shape]; rfl, other⟩

theorem scopePlain {bytes : List UInt8} (spelled : ScopeSpelled table p bytes copied table')
    (behind : List UInt8) (m : Memory) :
    qualifiers ⟨bytes ++ behind, m⟩ = .ok {} ⟨bytes ++ behind, m⟩ ∧
      refQualifier ⟨bytes ++ behind, m⟩ = .ok .none ⟨bytes ++ behind, m⟩ ∧
        accept "St" ⟨bytes ++ behind, m⟩ = .ok false ⟨bytes ++ behind, m⟩ := by
  have first : ∃ b more, bytes = b :: more ∧
      ((Char.ofUInt8 b).isDigit = true ∨ Char.ofUInt8 b = 'S') := by
    rcases scopeBegins spelled with ⟨d, small, more, shape⟩ | ⟨b, more, shape, _⟩
    · exact ⟨digit d, more, shape, .inl (digitIsDigit small)⟩
    · exact ⟨letter 'S', b :: more, shape, .inr (by decide)⟩
  have std : after? "St".toList (bytes ++ behind) = none := by
    rcases scopeBegins spelled with ⟨d, small, more, shape⟩ | ⟨b, more, shape, other⟩
    · rw [shape]
      refine afterMissing fun b first => ?_
      cases first
      exact digitOther small 'S' rfl
    · have letters : "St".toList = ['S', 't'] := rfl
      rw [shape, letters, List.cons_append, List.cons_append, after?, if_pos (by decide), after?,
        if_neg other]
  obtain ⟨b, more, shape, other⟩ := first
  have fails {text : String} {c : Char} (single : text.toList = [c])
      (apart : c.isDigit = false ∧ c ≠ 'S') :
      accept text ⟨bytes ++ behind, m⟩ = .ok false ⟨bytes ++ behind, m⟩ := by
    rw [shape]
    refine acceptFails single (fun same => ?_) _ m
    rw [same, apart.1] at other
    exact apart.2 (other.resolve_left Bool.false_ne_true)
  refine ⟨?_, ?_, acceptMissing std m⟩
  · refine (bindOk (fails rfl (by decide))).trans ((bindOk (fails rfl (by decide))).trans ?_)
    exact bindOk (fails rfl (by decide))
  · exact (bindOk (fails rfl (by decide))).trans (bindOk (fails rfl (by decide)))

theorem readsNestedName {bytes : List UInt8} (spelled : ScopeSpelled table p bytes copied table')
    (depth : (p.then i).toNode.depthWithin maxTreeDepth = true)
    (short : table.length + (bytes ++ i.source).length < UInt64.size) :
    Reads (nestedName below) (letter 'N' :: bytes ++ i.source ++ [letter 'E'])
      ((p.then i).toNode, {}) table table' nesting copied := by
  intro m left behind holds ends
  rw [List.length_append] at short
  have fits := sourceShort (Nat.le_refl i.source.length) (by omega)
  obtain ⟨count, fewer, front⟩ := scopeRead below nesting spelled
    (scopeDepth depth) (by omega)
  obtain ⟨quals, refQual, std⟩ := scopePlain spelled (i.source ++ letter 'E' :: behind) m
  obtain ⟨rounds, size⟩ : ∃ rounds,
      (bytes ++ (i.source ++ letter 'E' :: behind)).length + 1 = rounds + 1 + 1 + count := by
    obtain ⟨d, _, more, shape⟩ := sourceBegins i
    refine ⟨(bytes ++ (i.source ++ letter 'E' :: behind)).length - 1 - count, ?_⟩
    rw [shape]
    simp only [List.length_append, List.length_cons]
    omega
  obtain ⟨m₁, scope, holds₁⟩ := front (rounds + 1 + 1) left (i.source ++ letter 'E' :: behind) m
    holds (endsAtSource i _)
  obtain ⟨m₂, last, holds₂⟩ := componentRead below fits (thenNode p i) holds₁
    (@endsBefore (letter 'E') (by decide) behind) (rounds + 1)
  have done : nestedComponents below (rounds + 1) (some (p.then i).toNode) {}
      ⟨letter 'E' :: behind, m₂⟩ = .ok (some (p.then i).toNode, {}) ⟨behind, m₂⟩ := by
    rw [nestedComponents]
    exact bindOk (acceptFound rfl m₂)
  have components := (scope.trans last).trans done
  have some : m₂.candidates.isEmpty = false := by
    rw [← Array.isEmpty_toList, holds₂.candidates, List.map_append]
    simp
  refine ⟨{ m₂ with candidates := m₂.candidates.pop }, ?_, holds₂.reading, ?_, holds₂.nesting,
    holds₂.budget⟩
  · have whole : letter 'N' :: bytes ++ i.source ++ [letter 'E'] ++ behind =
        letter 'N' :: (bytes ++ (i.source ++ letter 'E' :: behind)) := by
      simp
    rw [whole]
    refine (bindOk (expectFound rfl m)).trans ((bindOk quals).trans ((bindOk refQual).trans
      ((bindOk std).trans ((bindOk rfl).trans ?_))))
    rw [size]
    refine (bindOk components).trans ((bindOk rfl).trans ((bindOk rfl).trans ?_))
    simp only [some]
    rfl
  · show m₂.candidates.pop.toList = _
    rw [Array.toList_pop, holds₂.candidates, List.map_append]
    exact List.dropLast_concat

theorem readsName {bytes : List UInt8} (spelled : NameSpelled table p bytes copied table')
    (depth : p.toNode.depthWithin maxTreeDepth = true)
    (short : table.length + bytes.length < UInt64.size) (within : nesting + 1 ≤ maxNesting) :
    Reads (nameRule below) bytes (p.toNode, {}) table table' nesting copied := by
  refine readsNested within fun m left behind holds ends => ?_
  cases spelled with
  | source i =>
    have fits := sourceShort (Nat.le_refl i.source.length) (by omega)
    obtain ⟨m', ran, holds'⟩ := readsUnqualified below fits none m left behind holds
      ends
    obtain ⟨d, small, more, shape⟩ := sourceBegins i
    refine ⟨m', ?_, holds'⟩
    have std : after? "St".toList (i.source ++ behind) = none := by
      rw [shape]
      refine afterMissing fun b first => ?_
      cases first
      exact digitOther small 'S' rfl
    have unscoped : unscopedName below ⟨i.source ++ behind, m⟩ =
        .ok (.name i.text, {}) ⟨behind, m'⟩ :=
      (bindOk (acceptMissing std m)).trans (bindOk ran)
    have other := digitOther small
    have front : i.source ++ behind = digit d :: (more ++ behind) := by
      rw [shape, List.cons_append]
    rw [front] at unscoped ⊢
    refine (bindOk rfl).trans ((bindOk rfl).trans ?_)
    simp only [other 'N' rfl, other 'Z' rfl, other 'S' rfl, false_and, if_false]
    refine (bindOk unscoped).trans ((bindOk rfl).trans ?_)
    rw [if_neg (endsWithoutArgs ends)]
    rfl
  | @nested _ p bytes _ scope i =>
    simp only [List.length_append, List.length_cons, List.length_nil] at short
    obtain ⟨m', ran, holds'⟩ := readsNestedName below scope depth
      (by rw [List.length_append]; omega) m left behind holds ends
    refine ⟨m', ?_, holds'⟩
    refine (bindOk rfl).trans ((bindOk rfl).trans ?_)
    rw [if_pos (by decide)]
    exact ran

end CxxSymbols.Itanium.Mangling
