import CxxSymbols.Proofs.Itanium.TypeSpelling
/-! The rule of a type, for each way to spell one but function types. Every type that is spelled
out becomes a candidate behind what it is made of, builtin types apart. -/
namespace CxxSymbols.Itanium.Mangling
open Canonical (Qualifiers)
open Grammar Scanner Stateful

/-! ### The rule of a type -/

section Rules
variable {below : Below} {table table' : List Ty} {t t' : Ty} {s : Spelling}
  {nesting copied : Nat} {bytes more : List UInt8} {b₀ b₁ : UInt8}

def plainLetter (c : Char) : Bool := (builtinLetter? c).isNone && c ≠ 'u' && c ≠ 'D'

theorem noBuiltin (plain : plainLetter (Char.ofUInt8 b₀) = true) (behind : List UInt8)
    (m : Memory) : builtin? ⟨b₀ :: behind, m⟩ = .ok none ⟨b₀ :: behind, m⟩ := by
  simp only [plainLetter, Bool.and_eq_true, decide_eq_true_eq, Option.isNone_iff_eq_none] at plain
  obtain ⟨⟨noLetter, notU⟩, notD⟩ := plain
  refine (bindOk rfl).trans ?_
  simp only [noLetter, if_neg notU, if_neg notD]
  rfl

theorem readsBuiltin {c : Char} (known : (builtinLetter? c).isSome = true)
    (within : nesting + 1 ≤ maxNesting) :
    Reads (typeRule below) [letter c] (.name ((builtinLetter? c).get known)) table table nesting
      0 := by
  refine readsNested within (readsRestoring ?_ fun m left behind holds _ => ?_)
  · exact fun h => ⟨h.reading, h.candidates, h.nesting, h.budget⟩
  rw [Nat.zero_add] at holds
  refine ⟨{ m with declaring := false }, ?_, holds.reading, holds.candidates, holds.nesting,
    holds.budget⟩
  obtain ⟨text, spelled⟩ := Option.isSome_iff_exists.mp known
  have builtin : builtin? ⟨letter c :: behind, { m with declaring := false }⟩ =
      .ok (some (.name text)) ⟨behind, { m with declaring := false }⟩ := by
    refine (bindOk rfl).trans ?_
    rw [builtinByte known, spelled]
    rfl
  refine (bindOk rfl).trans ((bindOk rfl).trans ((bindOk rfl).trans ((bindOk builtin).trans ?_)))
  simp only [spelled, Option.get_some]
  rfl

theorem readsOther (plain : plainLetter (Char.ofUInt8 b₀) = true)
    (shape : bytes = b₀ :: b₁ :: more) (within : nesting + 1 ≤ maxNesting)
    (reads : Reads (otherType below (Char.ofUInt8 b₀) (some (Char.ofUInt8 b₁))) bytes t.toNode
      table table' (nesting + 1) copied) :
    Reads (typeRule below) bytes t.toNode table table' nesting copied := by
  refine readsNested within (readsRestoring ?_ fun m left behind holds ends => ?_)
  · exact fun h => ⟨h.reading, h.candidates, h.nesting, h.budget⟩
  obtain ⟨m', ran, holds'⟩ := reads { m with declaring := false } left behind
    ⟨holds.reading, holds.candidates, holds.nesting, holds.budget⟩ ends
  refine ⟨m', ?_, holds'⟩
  rw [shape] at ran ⊢
  refine (bindOk rfl).trans ((bindOk rfl).trans ((bindOk rfl).trans ?_))
  exact (bindOk (noBuiltin plain _ _)).trans ran

theorem readsCompound (plain : plainLetter (Char.ofUInt8 b₀) = true)
    (notS : Char.ofUInt8 b₀ ≠ 'S') (shape : bytes = b₀ :: b₁ :: more)
    (within : nesting + 1 ≤ maxNesting)
    (reads : Reads (compoundType below (Char.ofUInt8 b₀) (some (Char.ofUInt8 b₁))) bytes t.toNode
      table table' (nesting + 1) copied) :
    Reads (typeRule below) bytes t.toNode table (table' ++ [t]) nesting copied := by
  refine readsOther plain shape within fun m left behind holds ends => ?_
  obtain ⟨m₁, ran, holds₁⟩ := reads m left behind holds ends
  rw [← Nat.zero_add left] at holds₁
  obtain ⟨m₂, remembered, holds₂⟩ := readsRemember t m₁ left behind holds₁ ends
  refine ⟨m₂, ?_, holds₂⟩
  rw [otherType, if_neg fun isS => notS isS.1]
  exact (bindOk ran).trans (bindOk remembered)

theorem readsBehind {c : Char} {make : Node → Node} (node : t'.toNode = make t.toNode)
    (plain : plainLetter (Char.ofUInt8 (letter c)) = true)
    (notS : Char.ofUInt8 (letter c) ≠ 'S')
    (rule : ∀ c₁, compoundType below (Char.ofUInt8 (letter c)) c₁ =
      (do skip 1; return make (← below .type)))
    (spelled : TypeSpelled table t s table') (within : nesting + 1 ≤ maxNesting)
    (target : Reads (below .type) s.bytes t.toNode table table' (nesting + 1) s.copied) :
    Reads (typeRule below) (s.behind [letter c]).bytes t'.toNode table (table' ++ [t']) nesting
      s.copied := by
  obtain ⟨b, more, first, _⟩ := typeBegins spelled
  have shape : (s.behind [letter c]).bytes = letter c :: b :: more := by
    rw [Spelling.behind, first]
    rfl
  refine readsCompound plain notS shape within fun m left behind holds ends => ?_
  obtain ⟨m', ran, holds'⟩ := target m left behind holds ends
  rw [rule, node]
  exact ⟨m', (bindOk rfl).trans (bindOk ran), holds'⟩

theorem readsReferred {index : Nat} (candidate : table[index]? = some t)
    (depth : t.toNode.depthWithin maxTreeDepth = true) (few : index < UInt64.size)
    (within : nesting + 1 ≤ maxNesting) :
    Reads (typeRule below) (referenceTo index) t.toNode table table nesting t.toNode.size := by
  obtain ⟨b, more, shape, other⟩ := referenceBegins index
  refine readsOther (by decide) shape within fun m left behind holds ends => ?_
  obtain ⟨m', ran, holds'⟩ := readsSubstitution candidate depth few (nesting + 1) m left behind
    holds ends
  have isReference : Char.ofUInt8 (letter 'S') = 'S' ∧ some (Char.ofUInt8 b) ≠ some 't' :=
    ⟨by decide, fun same => other (Option.some.inj same)⟩
  refine ⟨m', ?_, holds'⟩
  rw [otherType, if_pos isReference]
  refine (bindOk ran).trans ((bindOk rfl).trans ((bindOk rfl).trans ?_))
  rw [if_neg fun args => endsWithoutArgs ends args.2]
  rfl

theorem classRule (below : Below) (c₁ : Option Char)
    (name : b₀ = letter 'N' ∨ ∃ d < 10, b₀ = digit d) :
    plainLetter (Char.ofUInt8 b₀) = true ∧ Char.ofUInt8 b₀ ≠ 'S' ∧
      compoundType below (Char.ofUInt8 b₀) c₁ = plainName below := by
  rcases name with rfl | ⟨d, small, rfl⟩
  · exact ⟨by decide, by decide, rfl⟩
  · have all : ∀ d : Fin 10, plainLetter (Char.ofUInt8 (digit d.val)) = true := by decide
    refine ⟨all ⟨d, small⟩, digitOther small _ (by decide), ?_⟩
    match d, small with
    | 0, _ | 1, _ | 2, _ | 3, _ | 4, _ | 5, _ | 6, _ | 7, _ | 8, _ | 9, _ => rfl

theorem readsNamed {p : Path} (spelled : NameSpelled table p bytes copied table')
    (within : nesting + 1 ≤ maxNesting)
    (name : Reads (below .name) bytes (p.toNode, {}) table table' (nesting + 1) copied) :
    Reads (typeRule below) bytes p.toNode table (table' ++ [Ty.named p]) nesting copied := by
  obtain ⟨b₀, more, shape, first⟩ := nameBegins spelled
  obtain ⟨b₁, more, rfl⟩ : ∃ b₁ more', more = b₁ :: more' := by
    have two := nameLength spelled
    cases more with
    | nil =>
      rw [shape] at two
      exact absurd two (Nat.not_succ_le_self 1)
    | cons b₁ more' => exact ⟨b₁, more', rfl⟩
  obtain ⟨plain, notS, rule⟩ := classRule below (some (Char.ofUInt8 b₁)) first
  refine readsCompound (t := .named p) plain notS shape within fun m left behind holds ends => ?_
  obtain ⟨m', ran, holds'⟩ := name m left behind holds ends
  refine ⟨m', ?_, holds'⟩
  rw [rule]
  refine (bindOk ran).trans ((bindOk rfl).trans ?_)
  simp only [holds'.reading]
  rfl

/-! ### Qualifiers -/

theorem acceptOptional {text : String} {c : Char} (single : text.toList = [c])
    (same : Char.ofUInt8 (letter c) = c) (present : Bool) {behind : List UInt8}
    (other : ∀ b ∈ behind.head?, Char.ofUInt8 b ≠ c) (m : Memory) :
    accept text ⟨(if present then [letter c] else []) ++ behind, m⟩ = .ok present ⟨behind, m⟩ := by
  cases present with
  | true =>
    refine acceptFound ?_ m
    rw [single]
    exact afterSingle same behind
  | false => exact acceptOther single other m

theorem qualifiersRead (q : Qualifiers) {behind : List UInt8}
    (other : ∀ b ∈ behind.head?, qualifies (Char.ofUInt8 b) = false) (m : Memory) :
    qualifiers ⟨qualifierLetters q ++ behind, m⟩ = .ok q ⟨behind, m⟩ := by
  obtain ⟨isConst, isVolatile, isRestrict⟩ := q
  have noConst : ∀ b ∈ behind.head?, Char.ofUInt8 b ≠ 'K' :=
    fun b first => qualifiesOther (other b first) (by decide)
  have noVolatile : ∀ b ∈ ((if isConst then [letter 'K'] else []) ++ behind).head?,
      Char.ofUInt8 b ≠ 'V' := by
    intro b first same
    cases isConst with
    | true =>
      cases first
      exact absurd same (by decide)
    | false => exact qualifiesOther (other b first) (by decide) same
  have noRestrict : ∀ b ∈ ((if isVolatile then [letter 'V'] else []) ++
      ((if isConst then [letter 'K'] else []) ++ behind)).head?, Char.ofUInt8 b ≠ 'r' := by
    intro b first same
    cases isVolatile with
    | true =>
      cases first
      exact absurd same (by decide)
    | false =>
      cases isConst with
      | true =>
        cases first
        exact absurd same (by decide)
      | false => exact qualifiesOther (other b first) (by decide) same
  rw [qualifierLetters, List.append_assoc, List.append_assoc]
  refine (bindOk (acceptOptional rfl (by decide) isRestrict noRestrict m)).trans ?_
  refine (bindOk (acceptOptional rfl (by decide) isVolatile noVolatile m)).trans ?_
  exact bindOk (acceptOptional rfl (by decide) isConst noConst m)

theorem looksForFunction (c : Cursor Memory) : ∃ answer, atFunctionType c = .ok answer c := by
  have form : ∃ f : Option Char → Option Char → Rule Bool,
      atFunctionType = (do f (← peek) (← peekAt 1)) ∧ ∀ a b, ∃ answer, f a b = pure answer := by
    refine ⟨_, rfl, fun a b => ?_⟩
    split <;> exact ⟨_, rfl⟩
  obtain ⟨f, shape, decided⟩ := form
  obtain ⟨answer, same⟩ := decided (c.rest.head?.map Char.ofUInt8) (c.rest[1]?.map Char.ofUInt8)
  rw [shape]
  exact ⟨answer, (bindOk rfl).trans ((bindOk rfl).trans (congrFun same c))⟩

theorem readsQualified {q : Qualifiers} (present : q ≠ {}) (unqualified : t.isQualified = false)
    (spelled : TypeSpelled table t s table') (within : nesting + 1 ≤ maxNesting)
    (target : Reads (below .type) s.bytes t.toNode table table' (nesting + 1) s.copied) :
    Reads (typeRule below) (s.behind (qualifierLetters q)).bytes (Ty.qualified t q).toNode table
      (table' ++ [Ty.qualified t q]) nesting s.copied := by
  obtain ⟨b, more, first, _, _, other⟩ := typeBegins spelled
  obtain ⟨b₀, letters, shape, qualifier⟩ := qualifierBegins present
  have facts : plainLetter (Char.ofUInt8 b₀) = true ∧ Char.ofUInt8 b₀ ≠ 'S' := by
    rcases qualifierCases qualifier with same | same | same <;> rw [same] <;> decide
  obtain ⟨b₁, more', shape'⟩ : ∃ b₁ more', letters ++ s.bytes = b₁ :: more' := by
    rw [first]
    cases letters with
    | nil => exact ⟨b, more, rfl⟩
    | cons b₁ letters => exact ⟨b₁, letters ++ b :: more, rfl⟩
  have whole : (s.behind (qualifierLetters q)).bytes = b₀ :: b₁ :: more' := by
    rw [Spelling.behind, shape, ← shape']
    rfl
  have rule : compoundType below (Char.ofUInt8 b₀) (some (Char.ofUInt8 b₁)) =
      qualifiedType below := by
    rcases qualifierCases qualifier with same | same | same <;> rw [same] <;> rfl
  refine readsCompound facts.1 facts.2 whole within
    fun m left behind holds ends => ?_
  obtain ⟨m', ran, holds'⟩ := target m left behind holds ends
  have read : qualifiers ⟨(s.behind (qualifierLetters q)).bytes ++ behind, m⟩ =
      .ok q ⟨s.bytes ++ behind, m⟩ := by
    rw [Spelling.behind, List.append_assoc]
    refine qualifiersRead q (fun b' front => ?_) m
    rw [first] at front
    cases front
    exact other unqualified
  refine ⟨m', ?_, holds'⟩
  rw [rule]
  obtain ⟨answer, looked⟩ := looksForFunction ⟨s.bytes ++ behind, m⟩
  have notSpelled : ¬(m.reading = .spelling ∧ answer = true) := by
    rw [holds.reading]
    exact fun h => nomatch h.1
  refine (bindOk read).trans ((bindOk rfl).trans ((bindOk looked).trans ?_))
  rw [if_neg notSpelled]
  exact bindOk ran

end Rules

end CxxSymbols.Itanium.Mangling
