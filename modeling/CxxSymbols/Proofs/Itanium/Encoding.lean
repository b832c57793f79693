import CxxSymbols.Proofs.Itanium.TypeName
/-! Reading the mangled name of a function. Whichever references it is spelled with, it is read as
the tree of the function, as long as the reader's guards allow for it. -/
namespace CxxSymbols.Itanium.Mangling
open Grammar Scanner Stateful

/-! ### Parameters -/

section Parameters
variable {table table' : List Ty} {ts : List Ty} {s : Spelling} {levels nesting : Nat}

theorem notAtEncodingEnd {b : UInt8} (first : opens (Char.ofUInt8 b) = true)
    (behind : List UInt8) (m : Memory) :
    atEncodingEnd ⟨b :: behind, m⟩ = .ok false ⟨b :: behind, m⟩ := by
  have notE := opensOther first (by decide : opens 'E' = false)
  have notDot := opensOther first (by decide : opens '.' = false)
  refine (bindOk rfl).trans (congrFun (?_ : _ = pure false) _)
  split
  · contradiction
  · rename_i same
    exact absurd (Option.some.inj same) notE
  · rename_i same
    exact absurd (Option.some.inj same) notDot
  · rfl

theorem parametersUntilEnd (list : TypesSpelled table ts s table')
    (fits : Fits s table levels nesting)
    (depth : Node.depthsWithin (Ty.toNodes ts) maxTreeDepth = true) {m : Memory} {left : Nat}
    (holds : Holds m table nesting (s.copied + left)) {rounds : Nat}
    (enough : s.bytes.length < rounds) :
    ∃ m', manyUntilIn atEncodingEnd (run levels .type) rounds ⟨s.bytes, m⟩ =
      .ok (Ty.toNodes ts) ⟨[], m'⟩ ∧ Holds m' table' nesting left := by
  induction ts generalizing table s m rounds with
  | nil =>
    cases list
    rw [Nat.zero_add] at holds
    cases rounds with
    | zero => exact absurd enough (Nat.not_lt_zero _)
    | succ rounds => exact ⟨m, rfl, holds⟩
  | cons t ts ih =>
    cases list with
    | @cons _ table₁ _ _ _ s₁ s₂ head notVoid tail =>
    obtain ⟨b, more, shape, first, _⟩ := typeBegins head
    rw [Ty.toNodes, Node.depthsWithin, Bool.and_eq_true] at depth
    have growth := (typeGrowth head).1
    have budget : (s₁.beside s₂).copied + left = s₁.copied + (s₂.copied + left) :=
      Nat.add_assoc _ _ _
    rw [budget] at holds
    have follow := endsInList tail endsAtEnd
    rw [List.append_nil] at follow
    obtain ⟨m₁, ran, holds₁⟩ := readsType head (fitsLeft fits) depth.1 m _ s₂.bytes holds follow
    cases rounds with
    | zero => exact absurd enough (Nat.not_lt_zero _)
    | succ rounds =>
      have fewer : s₂.bytes.length < rounds := by
        rw [Spelling.beside, List.length_append, shape, List.length_cons] at enough
        omega
      obtain ⟨m₂, rest, holds₂⟩ := ih tail (fitsRight fits growth) depth.2 holds₁ fewer
      have goesOn : atEncodingEnd ⟨(s₁.beside s₂).bytes, m⟩ =
          .ok false ⟨(s₁.beside s₂).bytes, m⟩ := by
        rw [Spelling.beside, shape]
        exact notAtEncodingEnd first _ m
      refine ⟨m₂, ?_, holds₂⟩
      rw [manyUntilIn]
      exact (bindOk goesOn).trans ((bindOk ran).trans (bindOk rest))

theorem parametersRead (list : TypesSpelled table ts s table')
    (fits : Fits s table levels nesting)
    (depth : Node.depthsWithin (Ty.toNodes ts) maxTreeDepth = true) {m : Memory} {left : Nat}
    (holds : Holds m table nesting (s.copied + left)) :
    ∃ m', parameters (run levels) ⟨s.listed.bytes, m⟩ = .ok (Ty.toNodes ts) ⟨[], m'⟩ ∧
      Holds m' table' nesting left := by
  have read := parametersUntilEnd list fits depth holds (Nat.lt_succ_self _)
  cases list with
  | nil =>
    rw [Nat.zero_add] at holds
    exact ⟨m, rfl, holds⟩
  | @cons _ _ _ t ts s s' head notVoid tail =>
    obtain ⟨b, more, shape, _, notV, _⟩ := typeBegins head
    obtain ⟨m', ran, holds'⟩ := read
    have filled : (s.beside s').listed.bytes = b :: (more ++ s'.bytes) := by
      rw [Spelling.listed, Spelling.beside, shape]
      rfl
    have same : (s.beside s').bytes = b :: (more ++ s'.bytes) := by
      rw [Spelling.beside, shape]
      rfl
    refine ⟨m', ?_, holds'⟩
    rw [same] at ran
    rw [filled]
    refine (bindOk rfl).trans ((bindOk rfl).trans ?_)
    rw [if_neg fun isV => notV notVoid (Option.some.inj isV.1)]
    exact (bindOk rfl).trans ran

end Parameters

/-! ### Functions -/

variable {f : Function}

theorem declarationRead {table table' : List Ty} {bytes : List UInt8} {copied left : Nat}
    {s : Spelling} {levels nesting : Nat} {m : Memory}
    (name : NameSpelled [] f.path bytes copied table)
    (list : TypesSpelled table f.params s table')
    (fits : Fits (Spelling.beside ⟨bytes, 1, copied⟩ s.listed) [] levels nesting)
    (depth : f.toNode.depthWithin maxTreeDepth = true)
    (holds : Holds m [] nesting (copied + s.listed.copied + left)) :
    ∃ m', declaration (run levels) ⟨bytes ++ s.listed.bytes, m⟩ = .ok f.toNode ⟨[], m'⟩ := by
  have parts (limit : Nat) (depth : f.toNode.depthWithin (limit + 1) = true) :
      f.path.toNode.depthWithin limit = true ∧
        Node.depthsWithin (Ty.toNodes f.params) limit = true := by
    rw [Function.toNode, Node.depthWithin, Bool.and_eq_true, Bool.and_eq_true] at depth
    exact ⟨depth.1.1, depth.2⟩
  have nameFits := fitsLeft fits
  have listFits := fitsListed (fitsRight fits (Nat.le_of_lt (nameGrowth name)))
  obtain ⟨below, rfl⟩ := Nat.exists_eq_add_of_le' nameFits.levels
  obtain ⟨b, more, shape, first⟩ := listBegins list
  rw [listedCopied, Nat.add_assoc] at holds
  have follow := endsAtList list []
  rw [List.append_nil] at follow
  obtain ⟨m₁, named, holds₁⟩ := readsName (run below) name
    (depthOfPart (fun limit depth => (parts limit depth).1) depth) nameFits.short nameFits.nesting
    m _ s.listed.bytes holds follow
  have holds₂ : Holds { m₁ with declaring := false } table nesting (s.copied + left) :=
    ⟨holds₁.reading, holds₁.candidates, holds₁.nesting, holds₁.budget⟩
  obtain ⟨m₃, params, holds₃⟩ := parametersRead list listFits
    (depthOfParts (fun limit depth => (parts limit depth).2) depth) holds₂
  have goesOn : atEncodingEnd ⟨s.listed.bytes, { m₁ with declaring := false }⟩ =
      .ok false ⟨s.listed.bytes, { m₁ with declaring := false }⟩ := by
    rw [shape]
    exact notAtEncodingEnd first more _
  have unconditional : accept "Ua9enable_if" ⟨s.listed.bytes, { m₁ with declaring := false }⟩ =
      .ok false ⟨s.listed.bytes, { m₁ with declaring := false }⟩ := by
    rw [shape]
    exact acceptFails rfl (opensOther first (by decide)) more _
  refine ⟨m₃, ?_⟩
  refine (bindOk named).trans ((bindOk rfl).trans ((bindOk goesOn).trans ?_))
  refine (bindOk (manyAfterNone unconditional)).trans ((bindOk rfl).trans ?_)
  refine (bindOk params).trans ((bindOk rfl).trans ?_)
  simp only [holds₃.reading]
  rfl

theorem encodingRead {s : Spelling} {levels left : Nat} {m : Memory} (spelled : f.Spelled s)
    (fits : Fits s [] levels 0) (depth : f.toNode.depthWithin maxTreeDepth = true)
    (holds : Holds m [] 0 (s.copied + left)) :
    ∃ m', run levels .encoding ⟨s.bytes, m⟩ = .ok f.toNode ⟨[], m'⟩ := by
  cases spelled with
  | @mk table table' bytes copied s name list =>
  obtain ⟨below, rfl, within, fits'⟩ := fitsBehind fits
  obtain ⟨b, more, shape, first⟩ := nameBegins name
  have notSpecial : ¬(some (Char.ofUInt8 b) = some 'G' ∨ some (Char.ofUInt8 b) = some 'T') := by
    have closed : opens 'G' = false ∧ opens 'T' = false := by decide
    rintro (same | same)
    · exact opensOther (nameOpens first) closed.1 (Option.some.inj same)
    · exact opensOther (nameOpens first) closed.2 (Option.some.inj same)
  have inside : Holds { m with nesting := m.nesting + 1, arguments := [], declaring := true } [] 1
      (copied + s.listed.copied + left) :=
    ⟨holds.reading, holds.candidates, congrArg (· + 1) holds.nesting, holds.budget⟩
  obtain ⟨m', ran⟩ := declarationRead name list fits' depth inside
  have declared : (restoring (fun before after =>
        { after with arguments := before.arguments, declaring := before.declaring }) do
      alter fun m => { m with arguments := [], declaring := true }
      declaration (run below)) ⟨bytes ++ s.listed.bytes, { m with nesting := m.nesting + 1 }⟩ =
        .ok f.toNode _ :=
    restoringOk _ ((bindOk rfl).trans ran)
  rw [← holds.nesting] at within
  show ∃ m', nested _ ⟨bytes ++ s.listed.bytes, m⟩ = .ok f.toNode ⟨[], m'⟩
  rw [shape] at declared ⊢
  exact ⟨_, nestedOk within ((bindOk rfl).trans ((congrFun (if_neg notSpecial) _).trans declared))⟩

/- The length of what is in memory is a word. -/
theorem mangledReadsBack {s : Spelling} (spelled : f.Spelled s)
    (short : s.bytes.length < UInt64.size) (nesting : s.nesting ≤ maxNesting)
    (depth : f.toNode.depthWithin maxTreeDepth = true) (copied : s.copied ≤ referenceBudget) :
    Node.ofMangled? s.mangled = some f.toNode := by
  have levels : s.nesting ≤ levelsFor s.bytes := by
    cases spelled with
    | @mk table table' bytes copied s name list =>
      have nesting := (typesGrowth list).2
      have longer := listedLonger s
      simp only [Spelling.behind, Spelling.beside, listedNesting, levelsFor, List.length_append]
      omega
  have fits : Fits s [] (levelsFor s.bytes) 0 := by
    refine ⟨levels, ?_, ?_⟩
    · rw [Nat.zero_add]
      exact nesting
    · rw [List.length_nil, Nat.zero_add]
      exact short
  have holds : Holds { reading := .key } [] 0 (s.copied + (referenceBudget - s.copied)) :=
    ⟨rfl, rfl, rfl, (Nat.add_sub_cancel' copied).symm⟩
  obtain ⟨m', ran⟩ := encodingRead spelled fits depth holds
  have underscores : (s.mangled.takeWhile (· = 95)).length = 1 := rfl
  have front : 1 ≤ 1 ∧ 1 ≤ Reading.key.maxUnderscores ∧ s.mangled[1]? = some 90 :=
    ⟨by decide, by decide, rfl⟩
  rw [Node.ofMangled?, Node.ofMangledFor?]
  simp only [underscores]
  rw [if_pos front]
  have input : s.mangled.drop (1 + 1) = s.bytes := rfl
  rw [input, ran]
  exact if_pos depth

theorem callbacksReadBack : Node.ofMangled? ("_ZN1A1fEPFvPKvES_S3_".toList.map letter) =
    some (.function none (.nested (.name "A") (.name "f"))
      [.pointer (.functionType (.name "void")
          [.pointer (.qualified (.name "void") { isConst := true })] {} .none []),
        .name "A",
        .pointer (.functionType (.name "void")
          [.pointer (.qualified (.name "void") { isConst := true })] {} .none [])] {} .none) := by
  let a : Ident := ⟨"A", by decide, by decide, by decide⟩
  let f : Ident := ⟨"f", by decide, by decide, by decide⟩
  have void {table : List Ty} : TypeSpelled table (.builtin 'v' rfl) _ table := .builtin rfl
  have callback {table : List Ty} := @TypeSpelled.pointer table _ _ _ (.function void
    (.cons (.pointer (.qualified (q := { isConst := true }) (by decide) rfl void)) rfl .nil))
  have spelled : Function.Spelled ⟨⟨a, [f]⟩, _⟩ _ :=
    .mk (.nested (.first a) f) (.cons callback rfl (.cons (@TypeSpelled.referred _ 0 _ rfl) rfl
      (.cons (@TypeSpelled.referred _ 4 _ rfl) rfl .nil)))
  have read := mangledReadsBack spelled (by decide +kernel) (by decide) (by decide) (by decide)
  exact (congrArg Node.ofMangled? (by decide +kernel)).trans read

end CxxSymbols.Itanium.Mangling
