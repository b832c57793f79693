import CxxSymbols.Canonical.StdAlias
import CxxSymbols.Proofs.Canonical.Unique
/-! In the core of the model a key is the key of one root only: its head is the text of a name or
of a type, and what stands behind tells the kind of root, the signature or the type. -/
namespace CxxSymbols.Canonical

/-! ### Markers -/

theorem markerApart {t : Ty} (core : t.isCore = true) {rest marker : List Char} (ends : Ends rest)
    (form : Form.of marker = .skipped) (other : ¬Ty.skipped.text.toList <+: marker) :
    t.text.toList ++ rest ≠ marker := by
  intro same
  have sameForm := formOfType core ends.piece
  rw [same, form] at sameForm
  cases t with
  | skipped => exact other ⟨rest, same⟩
  | _ => cases sameForm

theorem typeOrUnique {type type' : Option Ty} (core : Ty.optionCore type = true)
    (core' : Ty.optionCore type' = true)
    (same : Ty.textOr "$unknown" type = Ty.textOr "$unknown" type') : type = type' := by
  have apart {t : Ty} (core : t.isCore = true) : t.text ≠ "$unknown" := by
    intro same
    refine markerApart core endsNothing (by decide : Form.of "$unknown".toList = _) (by decide) ?_
    rw [List.append_nil, same]
  cases type with
  | none =>
    cases type' with
    | none => rfl
    | some u => exact absurd same.symm (apart core')
  | some t =>
    cases type' with
    | none => exact absurd same (apart core)
    | some u => rw [(typeUnique (t := t) (u := u) core core' endsNothing endsNothing
        (by rw [List.append_nil, List.append_nil]; exact congrArg _ same)).1]

/-! ### Roots -/

namespace Root

def head? : Root → Option Ty
  | .data name _ => some (.named name)
  | .function name _ => some (.named name)
  | .special _ type => some type
  | .unknown => none
  | .nested _ => none

def tail : Root → List Char
  | .data _ type => ' ' :: "-> ".toList ++ (Ty.textOr "$unknown" type).toList
  | .function _ signature => signature.text.toList
  | .special kind _ => (kind.text "").toList
  | .unknown => []
  | .nested _ => []

theorem keyText {a : Root} {t : Ty} (head : a.head? = some t) :
    a.key.toList = t.text.toList ++ a.tail := by
  cases a with
  | data name type =>
    cases head
    simp [key, Ty.text, tail]
  | function name signature =>
    cases head
    simp [key, Ty.text, tail]
  | special kind type =>
    cases head
    cases kind <;> simp [key, tail, SpecialKind.text]
  | unknown => cases head
  | nested entity => cases head

theorem headCore {a : Root} (core : a.isCore = true) {t : Ty} (head : a.head? = some t) :
    t.isCore = true := by
  cases a with
  | data name type =>
    cases head
    exact (Bool.and_eq_true_iff.mp core).1
  | function name signature =>
    cases head
    exact (Bool.and_eq_true_iff.mp core).1
  | special kind type =>
    cases head
    exact core
  | unknown => cases head
  | nested entity => cases head

theorem functionTail (name : Name) (signature : Signature) :
    ∃ more, (Root.function name signature).tail = '(' :: more := by
  obtain ⟨params, ret, quals, refQual⟩ := signature
  exact ⟨_, by simpa [tail] using signatureText [] params ret quals refQual⟩

theorem tailEnds {a : Root} {t : Ty} (head : a.head? = some t) : Ends a.tail := by
  cases a with
  | data name type => exact endsAt (c := ' ') (by decide) _
  | function name signature =>
    obtain ⟨more, text⟩ := functionTail name signature
    rw [text]
    exact endsAt (by decide) _
  | special kind type =>
    have atScope (more : List Char) : Ends (':' :: ':' :: '$' :: more) := by
      refine ⟨endsPieceAt (by decide) _, fun shape => ?_⟩
      cases shape
      decide
    cases kind with
    | vtable => exact atScope _
    | completeObjectLocator => exact atScope _
    | typeInfo => exact endsAt (c := ' ') (by decide) _
    | typeInfoName => exact endsAt (c := ' ') (by decide) _
  | unknown => cases head
  | nested entity => cases head

def kindOfTail : List Char → Kind
  | '(' :: _ => .function
  | ' ' :: '-' :: _ => .data
  | _ => .special

theorem tailKind {a : Root} {t : Ty} (head : a.head? = some t) : kindOfTail a.tail = a.kind := by
  cases a with
  | data name type => rfl
  | function name signature =>
    obtain ⟨more, text⟩ := functionTail name signature
    rw [text]
    rfl
  | special kind type => cases kind <;> rfl
  | unknown => cases head
  | nested entity => cases head

theorem suffixUnique (k k' : SpecialKind) (same : k.text "" = k'.text "") : k = k' := by
  revert same
  cases k <;> cases k' <;> decide

theorem tailUnique {a b : Root} (core : a.isCore = true) (core' : b.isCore = true) {t : Ty}
    (head : a.head? = some t) (head' : b.head? = some t) (same : a.tail = b.tail) : a = b := by
  have kinds : a.kind = b.kind := by rw [← tailKind head, same, tailKind head']
  cases a with
  | data name type =>
    cases b with
    | data name' type' =>
      cases head
      cases head'
      simp only [isCore, Bool.and_eq_true] at core core'
      rw [typeOrUnique core.2 core'.2 (String.toList_inj.mp (List.append_cancel_left same))]
    | _ => cases kinds
  | function name signature =>
    cases b with
    | function name' signature' =>
      cases head
      cases head'
      simp only [isCore, Bool.and_eq_true] at core core'
      rw [(signatureUnique core.2 core'.2 endsNothing endsNothing (congrArg (· ++ []) same)).1]
    | _ => cases kinds
  | special kind type =>
    cases b with
    | special kind' type' =>
      cases head
      cases head'
      rw [suffixUnique kind kind' (String.toList_inj.mp same)]
    | _ => cases kinds
  | unknown => cases head
  | nested entity => cases head

theorem unknownKey {a : Root} (core : a.isCore = true) {t : Ty} (head : a.head? = some t) :
    a.key ≠ Root.unknown.key := by
  intro same
  refine markerApart (headCore core head) (tailEnds head)
    (by decide : Form.of "$SKIP_ROOT".toList = .skipped) (by decide) ?_
  rw [← keyText head, same, key]

theorem headOrUnknown {a : Root} (core : a.isCore = true) :
    a = .unknown ∨ ∃ t, a.head? = some t := by
  cases a with
  | unknown => exact .inl rfl
  | nested entity => cases core
  | _ => exact .inr ⟨_, rfl⟩

theorem keyUnique {a b : Root} (core : a.isCore = true) (core' : b.isCore = true)
    (same : a.key = b.key) : a = b := by
  rcases headOrUnknown core with rfl | ⟨t, head⟩
  · rcases headOrUnknown core' with rfl | ⟨u, head'⟩
    · rfl
    · exact absurd same.symm (unknownKey core' head')
  · rcases headOrUnknown core' with rfl | ⟨u, head'⟩
    · exact absurd same (unknownKey core head)
    · have texts : t.text.toList ++ a.tail = u.text.toList ++ b.tail := by
        rw [← keyText head, same, keyText head']
      obtain ⟨rfl, tails⟩ := typeUnique (headCore core head) (headCore core' head')
        (tailEnds head) (tailEnds head') texts
      exact tailUnique core core' head head' tails

end Root

/- Within the core of the model the printed form says all there is to say: equal keys are keys of
the same root, and types that print alike are the same type. -/
theorem printedFormsUnique :
    (∀ a b : Root, a.isCore = true → b.isCore = true → a.key = b.key → a = b) ∧
      ∀ t u : Ty, t.isCore = true → u.isCore = true → t.text = u.text → t = u := by
  refine ⟨fun a b core core' same => Root.keyUnique core core' same, fun t u core core' same => ?_⟩
  exact (typeUnique core core' endsNothing endsNothing (by rw [same])).1

theorem shortenedVectorUnique :
    let int := Ty.simple "int"
    let allocator := Ty.named ⟨[.plain "std", .template "allocator" [int]]⟩
    let shortened := Ty.named (Name.stdAlias ⟨[.plain "std", .template "vector" [int, allocator]]⟩)
    let vector := Ty.named ⟨[.plain "std", .template "vector" [int]]⟩
    let root (param : Ty) := Root.function ⟨[.plain "f"]⟩ ⟨[param], none, .none, .lvalue⟩
    root shortened = root vector ∧ Ty.indirect shortened .pointer = .indirect vector .pointer :=
  ⟨printedFormsUnique.1 _ _ (by decide) (by decide) (by decide),
    printedFormsUnique.2 _ _ (by decide) (by decide) (by decide)⟩

end CxxSymbols.Canonical
