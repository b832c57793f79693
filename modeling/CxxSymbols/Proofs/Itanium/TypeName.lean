import CxxSymbols.Itanium.Grammar.Encoding
import CxxSymbols.Proofs.Itanium.TypeRule
/-! Reading types. The rules of types and of parameters are read one through the other, down to as
many levels as the spelling is nested. -/
namespace CxxSymbols.Itanium.Mangling
open Grammar Scanner Stateful

/-! ### Function types -/

section Rules
variable {below : Below} {table table' : List Ty} {t : Ty} {s : Spelling} {nesting : Nat}

def ReadsToEnd (below : Below) (s : Spelling) (params : List Ty) (before after : List Ty)
    (nesting : Nat) : Prop :=
  ∀ rounds, s.bytes.length < rounds → Reads (functionType.parameters below rounds)
    (s.bytes ++ [letter 'E']) (Ty.toNodes params, .none) before after nesting s.copied

theorem endOfList (rounds : Nat) (behind : List UInt8) (m : Memory) :
    functionType.parameters below (rounds + 1) ⟨letter 'E' :: behind, m⟩ =
      .ok ([], .none) ⟨behind, m⟩ := by
  rw [functionType.parameters]
  exact bindOk (acceptFound rfl m)

theorem readsNoParameters : ReadsToEnd below ⟨[], 0, 0⟩ [] table table nesting := by
  intro rounds enough m left behind holds _
  rw [Nat.zero_add] at holds
  cases rounds with
  | zero => exact absurd enough (Nat.not_lt_zero _)
  | succ rounds => exact ⟨m, endOfList rounds behind m, holds⟩

theorem readsParameter {table'' : List Ty} {s' : Spelling} {ts : List Ty}
    (spelled : TypeSpelled table t s table') (notVoid : t.isVoid = false)
    (head : Reads (below .type) s.bytes t.toNode table table' nesting s.copied)
    (list : TypesSpelled table' ts s' table'')
    (tail : ReadsToEnd below s' ts table' table'' nesting) :
    ReadsToEnd below (s.beside s') (t :: ts) table table'' nesting := by
  obtain ⟨b, more, shape, first, notV, _⟩ := typeBegins spelled
  intro rounds enough m left behind holds ends
  cases rounds with
  | zero => exact absurd enough (Nat.not_lt_zero _)
  | succ rounds =>
    have fewer : s'.bytes.length < rounds := by
      rw [Spelling.beside, List.length_append, shape, List.length_cons] at enough
      omega
    have whole : (s.beside s').bytes ++ [letter 'E'] ++ behind =
        s.bytes ++ (s'.bytes ++ [letter 'E'] ++ behind) := by
      simp only [Spelling.beside, List.append_assoc]
    have follow : Ends (s'.bytes ++ [letter 'E'] ++ behind) := by
      rw [List.append_assoc]
      exact endsInList list (endsBefore (by decide) behind)
    have budget : (s.beside s').copied + left = s.copied + (s'.copied + left) :=
      Nat.add_assoc _ _ _
    rw [budget] at holds
    obtain ⟨m₁, ran, holds₁⟩ := head m (s'.copied + left) _ holds follow
    obtain ⟨m₂, rest, holds₂⟩ := tail rounds fewer m₁ left behind holds₁ ends
    have missing {text : String} {c : Char} {cs : List Char} (shape' : text.toList = c :: cs)
        (other : Char.ofUInt8 b ≠ c) (back : List UInt8) :
        accept text ⟨s.bytes ++ back, m⟩ = .ok false ⟨s.bytes ++ back, m⟩ := by
      rw [shape]
      exact acceptFails shape' other _ m
    have notEnd {text : String} {c : Char} (letters : text.toList = [c, 'E'])
        (is : c = 'R' ∨ c = 'O') (back : List UInt8) :
        accept text ⟨s.bytes ++ back, m⟩ = .ok false ⟨s.bytes ++ back, m⟩ :=
      acceptMissing (by rw [letters]; exact notAtEnd spelled is back) m
    refine ⟨m₂, ?_, holds₂⟩
    rw [whole, functionType.parameters]
    refine (bindOk (missing rfl (opensOther first (by decide)) _)).trans ?_
    refine (bindOk (missing rfl (notV notVoid) _)).trans ?_
    refine (bindOk (notEnd rfl (.inl rfl) _)).trans ((bindOk (notEnd rfl (.inr rfl) _)).trans ?_)
    exact (bindOk ran).trans (bindOk rest)

theorem readsListed {ts : List Ty} (list : TypesSpelled table ts s table')
    (reads : ReadsToEnd below s ts table table' nesting) :
    ReadsToEnd below s.listed ts table table' nesting := by
  cases list with
  | @cons _ _ _ t ts s s' head notVoid tail =>
    obtain ⟨b, more, shape, _⟩ := typeBegins head
    have filled : (s.beside s').bytes.isEmpty = false := by
      rw [Spelling.beside, shape]
      rfl
    rw [Spelling.listed, filled]
    exact reads
  | nil =>
    intro rounds enough m left behind holds ends
    cases rounds with
    | zero => exact absurd enough (Nat.not_lt_zero _)
    | succ rounds =>
      obtain ⟨m', ran, holds'⟩ := reads rounds (Nat.lt_of_succ_lt_succ enough) m left behind holds
        ends
      refine ⟨m', ?_, holds'⟩
      show functionType.parameters below (rounds + 1) ⟨letter 'v' :: letter 'E' :: behind, m⟩ = _
      rw [functionType.parameters]
      refine (bindOk (acceptFails rfl (by decide) _ m)).trans ?_
      exact (bindOk (acceptFound rfl m)).trans ran

theorem readsFunction {table'' : List Ty} {s' : Spelling} {params : List Ty}
    (result : TypeSpelled table t s table') (list : TypesSpelled table' params s' table'')
    (within : nesting + 1 ≤ maxNesting)
    (ret : Reads (below .type) s.bytes t.toNode table table' (nesting + 1) s.copied)
    (reads : ReadsToEnd below s' params table' table'' (nesting + 1)) :
    Reads (typeRule below) (((s.beside s'.listed).behind [letter 'F']).followed [letter 'E']).bytes
      (Ty.function t params).toNode table (table'' ++ [Ty.function t params]) nesting
      (s.copied + s'.listed.copied) := by
  obtain ⟨b, more, shape, first, _⟩ := typeBegins result
  have whole : (((s.beside s'.listed).behind [letter 'F']).followed [letter 'E']).bytes =
      letter 'F' :: b :: (more ++ s'.listed.bytes ++ [letter 'E']) := by
    simp only [Spelling.followed, Spelling.behind, Spelling.beside, shape]
    simp
  refine readsCompound (by decide) (by decide) whole within fun m left behind holds ends => ?_
  have bytes : (((s.beside s'.listed).behind [letter 'F']).followed [letter 'E']).bytes ++ behind =
      letter 'F' :: (s.bytes ++ (s'.listed.bytes ++ [letter 'E'] ++ behind)) := by
    simp [Spelling.followed, Spelling.behind, Spelling.beside]
  rw [Nat.add_assoc] at holds
  obtain ⟨m₁, read, holds₁⟩ := ret m (s'.listed.copied + left)
    (s'.listed.bytes ++ [letter 'E'] ++ behind) holds
    (by rw [List.append_assoc]; exact endsAtList list _)
  have enough : s'.listed.bytes.length <
      (s'.listed.bytes ++ [letter 'E'] ++ behind).length + 1 := by
    rw [List.length_append, List.length_append]
    omega
  obtain ⟨m₂, rest, holds₂⟩ := readsListed list reads
    ((s'.listed.bytes ++ [letter 'E'] ++ behind).length + 1) enough m₁ left behind
    holds₁ ends
  have noThrow : exceptions below ⟨letter 'F' :: (s.bytes ++ (s'.listed.bytes ++ [letter 'E'] ++
      behind)), m⟩ = .ok [] _ :=
    (bindOk (acceptFails rfl (by decide) _ m)).trans ((bindOk (acceptFails rfl (by decide) _
      m)).trans (bindOk (acceptFails rfl (by decide) _ m)))
  have noLanguage : accept "Y" ⟨s.bytes ++ (s'.listed.bytes ++ [letter 'E'] ++ behind), m⟩ =
      .ok false ⟨s.bytes ++ (s'.listed.bytes ++ [letter 'E'] ++ behind), m⟩ := by
    rw [shape]
    exact acceptFails rfl (opensOther first (by decide)) _ m
  refine ⟨m₂, ?_, holds₂⟩
  rw [bytes]
  show functionType below _ = _
  refine (bindOk noThrow).trans ((bindOk (acceptFails rfl (by decide) _ m)).trans ?_)
  refine (bindOk (expectFound rfl m)).trans ((bindOk noLanguage).trans ((bindOk read).trans ?_))
  exact (bindOk rfl).trans (bindOk rest)

end Rules

/-! ### Types -/

/- The reader of a spelling has as many rules and as much room as it needs. -/
structure Fits (s : Spelling) (table : List Ty) (levels nesting : Nat) : Prop where
  levels : s.nesting ≤ levels
  nesting : nesting + s.nesting ≤ maxNesting
  short : table.length + s.bytes.length < UInt64.size

section Fits
variable {table table' : List Ty} {t : Ty} {ts : List Ty} {s s' : Spelling} {levels nesting : Nat}

theorem fitsBehind {front : List UInt8} (fits : Fits (s.behind front) table levels nesting) :
    ∃ below, levels = below + 1 ∧ nesting + 1 ≤ maxNesting ∧ Fits s table below (nesting + 1) := by
  obtain ⟨enough, within, short⟩ := fits
  simp only [Spelling.behind, List.length_append] at enough within short
  cases levels with
  | zero => exact absurd enough (Nat.not_succ_le_zero _)
  | succ below => exact ⟨below, rfl, by omega, ⟨by omega, by omega, by omega⟩⟩

theorem fitsFollowed {back : List UInt8} (fits : Fits (s.followed back) table levels nesting) :
    Fits s table levels nesting := by
  obtain ⟨enough, within, short⟩ := fits
  simp only [Spelling.followed, List.length_append] at enough within short
  exact ⟨enough, within, by omega⟩

theorem fitsLeft (fits : Fits (s.beside s') table levels nesting) :
    Fits s table levels nesting := by
  obtain ⟨enough, within, short⟩ := fits
  simp only [Spelling.beside, List.length_append] at enough within short
  exact ⟨by omega, by omega, by omega⟩

theorem fitsRight (fits : Fits (s.beside s') table levels nesting)
    (growth : table'.length ≤ table.length + s.bytes.length) : Fits s' table' levels nesting := by
  obtain ⟨enough, within, short⟩ := fits
  simp only [Spelling.beside, List.length_append] at enough within short
  exact ⟨by omega, by omega, by omega⟩

theorem fitsListed (fits : Fits s.listed table levels nesting) : Fits s table levels nesting := by
  obtain ⟨enough, within, short⟩ := fits
  rw [listedNesting] at enough within
  exact ⟨enough, within, Nat.lt_of_le_of_lt (Nat.add_le_add_left (listedLonger s) _) short⟩

end Fits

mutual

theorem readsType {table table' : List Ty} {t : Ty} {s : Spelling} {levels nesting : Nat} :
    TypeSpelled table t s table' → Fits s table levels nesting →
      t.toNode.depthWithin maxTreeDepth = true →
        Reads (run levels .type) s.bytes t.toNode table table' nesting s.copied
  | .builtin known, fits, _ => by
    obtain ⟨below, rfl⟩ := Nat.exists_eq_add_of_le' fits.levels
    exact readsBuiltin known fits.nesting
  | .referred candidate, fits, depth => by
    obtain ⟨below, rfl⟩ := Nat.exists_eq_add_of_le' fits.levels
    have inside := (List.getElem?_eq_some_iff.mp candidate).1
    have few := Nat.lt_of_le_of_lt (Nat.le_add_right _ _) fits.short
    exact readsReferred candidate depth (Nat.lt_trans inside few) fits.nesting
  | .named name, fits, depth => by
    obtain ⟨below, rfl⟩ := Nat.exists_eq_add_of_le' fits.levels
    have room : nesting + 1 + 1 ≤ maxNesting := fits.nesting
    have reads := readsName (run below) name depth fits.short room
    exact readsNamed name (Nat.le_of_succ_le room) reads
  | .pointer target, fits, depth => by
    obtain ⟨below, rfl, within, fits'⟩ := fitsBehind fits
    have reads := readsType target fits' (depthOfPart (fun _ => id) depth)
    exact readsBehind rfl (by decide) (by decide) (fun _ => rfl) target within reads
  | .lvalue target, fits, depth => by
    obtain ⟨below, rfl, within, fits'⟩ := fitsBehind fits
    have reads := readsType target fits' (depthOfPart (fun _ => id) depth)
    exact readsBehind rfl (by decide) (by decide) (fun _ => rfl) target within reads
  | .rvalue target, fits, depth => by
    obtain ⟨below, rfl, within, fits'⟩ := fitsBehind fits
    have reads := readsType target fits' (depthOfPart (fun _ => id) depth)
    exact readsBehind rfl (by decide) (by decide) (fun _ => rfl) target within reads
  | .qualified present plain target, fits, depth => by
    obtain ⟨below, rfl, within, fits'⟩ := fitsBehind fits
    have reads := readsType target fits' (depthOfPart (fun _ => id) depth)
    exact readsQualified present plain target within reads
  | .function result list, fits, depth => by
    obtain ⟨below, rfl, within, fits'⟩ := fitsBehind (fitsFollowed fits)
    have parts (limit : Nat) {ret : Ty} {params : List Ty}
        (depth : (Ty.function ret params).toNode.depthWithin (limit + 1) = true) :
        ret.toNode.depthWithin limit = true ∧
          Node.depthsWithin (Ty.toNodes params) limit = true := by
      rw [Ty.toNode, Node.depthWithin, Bool.and_eq_true] at depth
      exact depth
    have reads := readsType result (fitsLeft fits')
      (depthOfPart (fun limit depth => (parts limit depth).1) depth)
    have rest := readsTypes list (fitsListed (fitsRight fits' (typeGrowth result).1))
      (depthOfParts (fun limit depth => (parts limit depth).2) depth)
    exact readsFunction result list within reads rest

theorem readsTypes {table table' : List Ty} {ts : List Ty} {s : Spelling} {levels nesting : Nat} :
    TypesSpelled table ts s table' → Fits s table levels nesting →
      Node.depthsWithin (Ty.toNodes ts) maxTreeDepth = true →
        ReadsToEnd (run levels) s ts table table' nesting
  | .nil, _, _ => readsNoParameters
  | .cons head notVoid tail, fits, depth => by
    rw [Ty.toNodes, Node.depthsWithin, Bool.and_eq_true] at depth
    have first := readsType head (fitsLeft fits) depth.1
    have rest := readsTypes tail (fitsRight fits (typeGrowth head).1) depth.2
    exact readsParameter head notVoid first tail rest

end

end CxxSymbols.Itanium.Mangling
