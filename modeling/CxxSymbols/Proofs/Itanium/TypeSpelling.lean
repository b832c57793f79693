import CxxSymbols.Itanium.Grammar.TypeName
import CxxSymbols.Proofs.Itanium.Name
/-! How types are spelled: what their first byte tells, and what their bytes are enough for. -/
namespace CxxSymbols.Itanium.Mangling
open Canonical (Qualifiers)
open Grammar Scanner Stateful

/-! ### How types begin -/

def opens (c : Char) : Bool :=
  (builtinLetter? c).isSome || c.isDigit ||
    ['N', 'S', 'P', 'R', 'O', 'r', 'V', 'K', 'F'].contains c

theorem opensOther {b : UInt8} {c : Char} (first : opens (Char.ofUInt8 b) = true)
    (closed : opens c = false) : Char.ofUInt8 b ≠ c := by
  intro same
  rw [same, closed] at first
  cases first

theorem digitOpens {d : Nat} (small : d < 10) : opens (Char.ofUInt8 (digit d)) = true := by
  rw [opens, digitIsDigit small, Bool.or_true, Bool.true_or]

theorem nameOpens {b : UInt8} (name : b = letter 'N' ∨ ∃ d < 10, b = digit d) :
    opens (Char.ofUInt8 b) = true := by
  rcases name with rfl | ⟨d, small, rfl⟩
  · decide
  · exact digitOpens small

theorem builtinByte {c : Char} (known : (builtinLetter? c).isSome = true) :
    Char.ofUInt8 (letter c) = c := by
  unfold builtinLetter? at known
  split at known <;> first | rfl | cases known

def qualifies (c : Char) : Bool := c = 'r' || c = 'V' || c = 'K'

theorem qualifierCases {c : Char} (qualifier : qualifies c = true) :
    c = 'r' ∨ c = 'V' ∨ c = 'K' := by
  simpa [qualifies, or_assoc] using qualifier

theorem qualifiesOther {b : UInt8} {c : Char} (other : qualifies (Char.ofUInt8 b) = false)
    (qualifier : qualifies c = true) : Char.ofUInt8 b ≠ c := by
  intro same
  rw [same, qualifier] at other
  cases other

theorem qualifierBegins {q : Qualifiers} (some : q ≠ {}) : ∃ b more,
    qualifierLetters q = b :: more ∧ qualifies (Char.ofUInt8 b) = true := by
  obtain ⟨isConst, isVolatile, isRestrict⟩ := q
  cases isRestrict with
  | true => exact ⟨_, _, rfl, by decide⟩
  | false =>
    cases isVolatile with
    | true => exact ⟨_, _, rfl, by decide⟩
    | false =>
      cases isConst with
      | true => exact ⟨_, _, rfl, by decide⟩
      | false => exact absurd rfl some

theorem nameBegins {table table' : List Ty} {p : Path} {bytes : List UInt8} {copied : Nat}
    (spelled : NameSpelled table p bytes copied table') :
    ∃ b more, bytes = b :: more ∧ (b = letter 'N' ∨ ∃ d < 10, b = digit d) := by
  cases spelled with
  | source i =>
    obtain ⟨d, small, more, shape⟩ := sourceBegins i
    exact ⟨digit d, more, shape, .inr ⟨d, small, rfl⟩⟩
  | nested scope i => exact ⟨letter 'N', _, rfl, .inl rfl⟩

section Begin
variable {table table' : List Ty} {t : Ty} {ts : List Ty} {s : Spelling}

theorem typeBegins (spelled : TypeSpelled table t s table') : ∃ b more, s.bytes = b :: more ∧
    opens (Char.ofUInt8 b) = true ∧ (t.isVoid = false → Char.ofUInt8 b ≠ 'v') ∧
      (t.isQualified = false → qualifies (Char.ofUInt8 b) = false) := by
  cases spelled with
  | @builtin _ c known =>
    refine ⟨letter c, [], rfl, ?_, ?_, ?_⟩ <;> rw [builtinByte known]
    · rw [opens, known, Bool.true_or, Bool.true_or]
    · exact fun notVoid => of_decide_eq_false notVoid
    · intro _
      refine Bool.eq_false_iff.mpr fun qualifier => ?_
      rcases qualifierCases qualifier with rfl | rfl | rfl <;> cases known
  | referred candidate =>
    obtain ⟨b, more, shape, _⟩ := referenceBegins _
    exact ⟨letter 'S', b :: more, shape, by decide, fun _ => by decide, fun _ => by decide⟩
  | named name =>
    obtain ⟨b, more, shape, rfl | ⟨d, small, rfl⟩⟩ := nameBegins name
    · exact ⟨letter 'N', more, shape, by decide, fun _ => by decide, fun _ => by decide⟩
    · refine ⟨digit d, more, shape, digitOpens small, fun _ => digitOther small _ (by decide), ?_⟩
      refine fun _ => Bool.eq_false_iff.mpr fun qualifier => ?_
      rcases qualifierCases qualifier with same | same | same <;>
        exact digitOther small _ (by decide) same
  | pointer target => exact ⟨letter 'P', _, rfl, by decide, fun _ => by decide, fun _ => by decide⟩
  | lvalue target => exact ⟨letter 'R', _, rfl, by decide, fun _ => by decide, fun _ => by decide⟩
  | rvalue target => exact ⟨letter 'O', _, rfl, by decide, fun _ => by decide, fun _ => by decide⟩
  | @qualified _ _ t s q some plain target =>
    obtain ⟨b, more, shape, qualifier⟩ := qualifierBegins some
    have opener : opens (Char.ofUInt8 b) = true ∧ Char.ofUInt8 b ≠ 'v' := by
      rcases qualifierCases qualifier with same | same | same <;> rw [same] <;> decide
    refine ⟨b, more ++ s.bytes, ?_, opener.1, fun _ => opener.2, fun other => nomatch other⟩
    rw [Spelling.behind, shape]
    rfl
  | function result list =>
    exact ⟨letter 'F', _, rfl, by decide, fun _ => by decide, fun _ => by decide⟩

theorem endsAtOpener {b : UInt8} (first : opens (Char.ofUInt8 b) = true) (behind : List UInt8) :
    Ends (b :: behind) := by
  refine endsBefore ⟨?_, ?_⟩ behind
  · rintro rfl
    exact opensOther first (by decide : opens 'I' = false) rfl
  · rintro rfl
    exact opensOther first (by decide : opens 'B' = false) rfl

theorem listBegins (spelled : TypesSpelled table ts s table') : ∃ b more,
    s.listed.bytes = b :: more ∧ opens (Char.ofUInt8 b) = true := by
  cases spelled with
  | nil => exact ⟨letter 'v', [], rfl, by decide⟩
  | @cons _ _ _ t ts s s' head notVoid tail =>
    obtain ⟨b, more, shape, first, _⟩ := typeBegins head
    refine ⟨b, more ++ s'.bytes, ?_, first⟩
    rw [Spelling.listed, Spelling.beside, shape]
    rfl

theorem endsAtList (spelled : TypesSpelled table ts s table') (behind : List UInt8) :
    Ends (s.listed.bytes ++ behind) := by
  obtain ⟨b, more, shape, first⟩ := listBegins spelled
  rw [shape]
  exact endsAtOpener first _

theorem endsInList (spelled : TypesSpelled table ts s table') {behind : List UInt8}
    (ends : Ends behind) : Ends (s.bytes ++ behind) := by
  cases spelled with
  | nil => exact ends
  | cons head notVoid tail =>
    obtain ⟨b, more, shape, first, _⟩ := typeBegins head
    rw [Spelling.beside, shape]
    exact endsAtOpener first _

theorem notAtEnd (spelled : TypeSpelled table t s table') {c : Char}
    (isReference : c = 'R' ∨ c = 'O') (behind : List UInt8) :
    after? [c, 'E'] (s.bytes ++ behind) = none := by
  have other {b : UInt8} {more : List UInt8} (shape : s.bytes = b :: more)
      (apart : Char.ofUInt8 b ≠ 'R' ∧ Char.ofUInt8 b ≠ 'O') :
      after? [c, 'E'] (s.bytes ++ behind) = none := by
    rw [shape]
    refine afterMissing fun b first => ?_
    cases first
    rcases isReference with rfl | rfl
    · exact apart.1
    · exact apart.2
  have target {b : UInt8} {t' : Ty} {s' : Spelling} {table table' : List Ty}
      (shape : s.bytes = b :: s'.bytes) (spelled' : TypeSpelled table t' s' table') :
      after? [c, 'E'] (s.bytes ++ behind) = none := by
    obtain ⟨b', more, shape', first, _⟩ := typeBegins spelled'
    rw [shape, shape', List.cons_append, List.cons_append, after?]
    split
    · rw [after?, if_neg (opensOther first (by decide))]
    · rfl
  cases spelled with
  | @builtin _ c known =>
    refine other rfl ?_
    rw [builtinByte known]
    constructor <;> rintro rfl <;> cases known
  | referred candidate =>
    obtain ⟨b, more, shape, _⟩ := referenceBegins _
    exact other shape (by decide)
  | named name =>
    obtain ⟨b, more, shape, rfl | ⟨d, small, rfl⟩⟩ := nameBegins name
    · exact other shape (by decide)
    · exact other shape ⟨digitOther small _ (by decide), digitOther small _ (by decide)⟩
  | pointer spelled' | lvalue spelled' | rvalue spelled' => exact target rfl spelled'
  | @qualified _ _ t s q present plain spelled' =>
    obtain ⟨b, more, shape, qualifier⟩ := qualifierBegins present
    have apart : Char.ofUInt8 b ≠ 'R' ∧ Char.ofUInt8 b ≠ 'O' := by
      rcases qualifierCases qualifier with same | same | same <;> rw [same] <;> decide
    have front : (s.behind (qualifierLetters q)).bytes = b :: (more ++ s.bytes) := by
      rw [Spelling.behind, shape]
      rfl
    exact other front apart
  | function result list => exact other rfl (by decide)

end Begin

/-! ### What a spelling takes -/

theorem listedNesting (s : Spelling) : s.listed.nesting = s.nesting := by
  rw [Spelling.listed]
  split <;> rfl

theorem listedCopied (s : Spelling) : s.listed.copied = s.copied := by
  rw [Spelling.listed]
  split <;> rfl

theorem listedLonger (s : Spelling) : s.bytes.length ≤ s.listed.bytes.length := by
  rw [Spelling.listed]
  split
  · rename_i empty
    rw [List.isEmpty_iff.mp empty]
    exact Nat.zero_le _
  · exact Nat.le_refl _

theorem nameLength {table table' : List Ty} {p : Path} {bytes : List UInt8} {copied : Nat}
    (spelled : NameSpelled table p bytes copied table') : 2 ≤ bytes.length := by
  have source (i : Ident) : 2 ≤ i.source.length := by
    obtain ⟨b, more, shape⟩ := List.exists_cons_of_ne_nil (numeralNotEmpty 10
      (Text.encode i.text).length)
    obtain ⟨b', more', shape'⟩ := List.exists_cons_of_ne_nil (identNotEmpty i)
    rw [Ident.source, shape, shape', List.length_append, List.length_cons, List.length_cons]
    omega
  cases spelled with
  | source i => exact source i
  | nested scope i =>
    have last := source i
    simp only [List.length_append, List.length_cons]
    omega

theorem qualifiersLength {q : Qualifiers} (some : q ≠ {}) : 1 ≤ (qualifierLetters q).length := by
  obtain ⟨b, more, shape, _⟩ := qualifierBegins some
  rw [shape, List.length_cons]
  omega

mutual

theorem typeGrowth {table table' : List Ty} {t : Ty} {s : Spelling} :
    TypeSpelled table t s table' → table'.length ≤ table.length + s.bytes.length ∧
      s.nesting ≤ s.bytes.length
  | .builtin known => ⟨Nat.le_add_right _ _, Nat.le_refl 1⟩
  | .referred candidate => by
    obtain ⟨b, more, shape, _⟩ := referenceBegins _
    refine ⟨Nat.le_add_right _ _, ?_⟩
    rw [shape, List.length_cons]
    exact Nat.succ_le_succ (Nat.zero_le _)
  | .named name => by
    refine ⟨?_, nameLength name⟩
    rw [List.length_append, List.length_singleton]
    exact nameGrowth name
  | .pointer target | .lvalue target | .rvalue target => by
    obtain ⟨growth, nesting⟩ := typeGrowth target
    simp only [Spelling.behind, List.length_append, List.length_singleton]
    omega
  | .qualified present plain target => by
    obtain ⟨growth, nesting⟩ := typeGrowth target
    have letters := qualifiersLength present
    simp only [Spelling.behind, List.length_append, List.length_singleton]
    omega
  | @TypeSpelled.function _ _ _ _ _ _ s' result list => by
    obtain ⟨growth, nesting⟩ := typeGrowth result
    obtain ⟨growth', nesting'⟩ := typesGrowth list
    have longer := listedLonger s'
    simp only [Spelling.followed, Spelling.behind, Spelling.beside, listedNesting,
      List.length_append, List.length_singleton]
    omega

theorem typesGrowth {table table' : List Ty} {ts : List Ty} {s : Spelling} :
    TypesSpelled table ts s table' → table'.length ≤ table.length + s.bytes.length ∧
      s.nesting ≤ s.bytes.length
  | .nil => ⟨Nat.le_refl _, Nat.le_refl _⟩
  | .cons head notVoid tail => by
    obtain ⟨growth, nesting⟩ := typeGrowth head
    obtain ⟨growth', nesting'⟩ := typesGrowth tail
    simp only [Spelling.beside, List.length_append]
    omega

end

end CxxSymbols.Itanium.Mangling
