import CxxSymbols.Proofs.Canonical.WellFormed
import CxxSymbols.Proofs.Itanium.Expansion
import CxxSymbols.Proofs.Itanium.Node
import CxxSymbols.Proofs.Microsoft.Decoration
/-!
The canonical form of any tree is well formed, under both schemes: also where a scope has nothing
but discriminators in it, so that no piece is left for a name, and where a tree has qualifiers that
are none.
-/
namespace CxxSymbols

namespace Itanium
open Canonical

/-! ### Itanium trees -/

theorem abbreviationWellFormed (abbr : StdAbbreviation) :
    ∀ p ∈ abbr.pieces, WellFormed p.parts := by
  rw [StdAbbreviation.pieces, List.forall_mem_cons, List.forall_mem_singleton]
  exact ⟨Piece.plainWellFormed _, Piece.plainWellFormed _⟩

theorem withArgsWellFormed {pieces : List Piece} {args : List Ty}
    (base : ∀ p ∈ pieces, WellFormed p.parts) (each : ∀ t ∈ args, WellFormed t.parts) :
    ∀ p ∈ withArgs pieces args, WellFormed p.parts := by
  unfold withArgs
  split
  · refine List.forall_mem_append.mpr ⟨fun p mem => base p (List.dropLast_subset _ mem), ?_⟩
    exact List.forall_mem_singleton.mpr (Piece.templateWellFormed _ each)
  · exact List.forall_mem_append.mpr
      ⟨base, List.forall_mem_singleton.mpr (Piece.templateWellFormed _ each)⟩

namespace Node

/- A tree has a well formed canonical form wherever it stands: as a symbol, as a type, in a list, as
a pattern that is expanded, and as a name. -/
structure Converts (x : Node) : Prop where
  root : WellFormed x.toRoot.parts
  type : WellFormed x.toType.parts
  listed : ∀ t ∈ toTypes [x], WellFormed t.parts
  instances : ∀ types ∈ expand? x, ∀ t ∈ types, WellFormed t.parts
  pieces : ∀ p ∈ x.pieces, WellFormed p.parts

section Converts
variable {n : Node} {xs : List Node}

theorem listConverts (each : ∀ x ∈ xs, Converts x) : ∀ t ∈ toTypes xs, WellFormed t.parts := by
  induction xs with
  | nil => exact List.forall_mem_nil _
  | cons x xs ih =>
    obtain ⟨head, tail⟩ := List.forall_mem_cons.mp each
    rw [toTypesCons]
    exact List.forall_mem_append.mpr ⟨head.listed, ih tail⟩

theorem itemsConvert (each : ∀ x ∈ xs, Converts x) : ∀ t ∈ eachType xs, WellFormed t.parts := by
  rw [eachTypeMap]
  exact List.forall_mem_map.mpr fun x mem => (each x mem).type

theorem optionConverts {x : Option Node} (each : ∀ y ∈ x.toList, Converts y) :
    ∀ t ∈ toType? x, WellFormed t.parts := by
  cases x with
  | none => simp [toType?]
  | some y => simpa [toType?] using (each y (List.mem_singleton_self y)).type

theorem signatureConverts (ret : Option Node) (quals : Qualifiers) (refQual : RefQualifier)
    (result : ∀ x ∈ ret.toList, Converts x) (params : ∀ x ∈ xs, Converts x) :
    WellFormed (Signature.parts ⟨toTypes xs, toType? ret, quals, refQual⟩) :=
  Signature.wellFormed quals refQual (listConverts params) (optionConverts result)

-- One lemma for each conversion, by cases of what it does, from all conversions of the children.

theorem piecesConvert (children : ∀ x ∈ n.children, Converts x) :
    ∀ p ∈ n.pieces, WellFormed p.parts := by
  cases n with
  | nested scope entity =>
    obtain ⟨outer, tail⟩ := List.forall_mem_cons.mp children
    rw [pieces]
    exact List.forall_mem_append.mpr ⟨outer.pieces, (List.forall_mem_singleton.mp tail).pieces⟩
  | std child =>
    rw [pieces]
    exact List.forall_mem_cons.mpr
      ⟨Piece.plainWellFormed _, (children child (List.mem_singleton_self _)).pieces⟩
  | abbreviation abbr => exact abbreviationWellFormed abbr
  | template base args =>
    obtain ⟨named, given⟩ := List.forall_mem_cons.mp children
    rw [pieces]
    exact withArgsWellFormed named.pieces (listConverts given)
  | inBody _ entity =>
    obtain ⟨-, tail⟩ := List.forall_mem_cons.mp children
    exact (List.forall_mem_singleton.mp tail).pieces
  | abiTag base _ | clone base _ => exact (children base (List.mem_singleton_self _)).pieces
  | conversion _ =>
    exact List.forall_mem_singleton.mpr (Piece.templateWellFormed _ (by simp [Ty.parts]))
  | _ => exact List.forall_mem_singleton.mpr (Piece.plainWellFormed _)

theorem bodyConverts {encoding entity : Node} (body : Converts encoding) (named : Converts entity) :
    WellFormed (LocalEntity.parts ⟨encoding.toRoot, entity.toType, none⟩) :=
  LocalEntity.wellFormed body.root named.type fun _ absent => by cases absent

theorem typeConverts (children : ∀ x ∈ n.children, Converts x) : WellFormed n.toType.parts := by
  have named := Name.shortWellFormed (piecesConvert children)
  cases n with
  | name _ | nested _ _ | std _ | template _ _ | abbreviation _ => exact named
  | inBody encoding entity =>
    obtain ⟨body, tail⟩ := List.forall_mem_cons.mp children
    exact bodyConverts body (List.forall_mem_singleton.mp tail)
  | functionType ret params quals refQual _ =>
    obtain ⟨result, each⟩ := List.forall_mem_cons.mp children
    exact signatureConverts (some ret) quals refQual (List.forall_mem_singleton.mpr result) each
  | pointer child | reference child _ | vendorQualified child _ | abiTag child _ =>
    exact (children child (List.mem_singleton_self _)).type
  | qualified child quals =>
    exact Ty.withQualifiersWellFormed quals (children child (List.mem_singleton_self _)).type
  | _ => exact wellFormedNothing

theorem aroundInstances {child : Node} {f : Ty → Ty} (inside : Converts child)
    (keeps : ∀ t : Ty, WellFormed t.parts → WellFormed (f t).parts) :
    ∀ types ∈ (expand? child).map (·.map f), ∀ t ∈ types, WellFormed t.parts := by
  intro _ around
  obtain ⟨types, expanded, rfl⟩ := Option.map_eq_some_iff.mp around
  exact List.forall_mem_map.mpr fun t mem => keeps t (inside.instances types expanded t mem)

theorem instancesConvert (children : ∀ x ∈ n.children, Converts x) :
    ∀ types ∈ expand? n, ∀ t ∈ types, WellFormed t.parts := by
  cases n with
  | pack items =>
    rintro _ ⟨⟩
    exact itemsConvert children
  | pointer child | reference child _ =>
    exact aroundInstances (children child (List.mem_singleton_self _)) fun _ => id
  | qualified child quals =>
    exact aroundInstances (children child (List.mem_singleton_self _))
      fun _ => Ty.withQualifiersWellFormed quals
  | _ =>
    intro types none
    cases none

theorem listedConverts (children : ∀ x ∈ n.children, Converts x) :
    ∀ t ∈ toTypes [n], WellFormed t.parts := by
  have alone : ∀ t ∈ [n.toType], WellFormed t.parts :=
    List.forall_mem_singleton.mpr (typeConverts children)
  cases n with
  | pack items =>
    rw [toTypes, toTypes, List.append_nil]
    exact itemsConvert children
  | expansion pattern =>
    rw [toTypes, toTypes, List.append_nil]
    cases expanded : expand? pattern with
    | none => exact List.forall_mem_singleton.mpr wellFormedNothing
    | some types =>
      exact (children pattern (List.mem_singleton_self _)).instances types expanded
  | _ => exact alone

theorem functionConverts {ret : Option Node} {entity : Node} (quals : Qualifiers)
    (refQual : RefQualifier) (named : Converts entity) (result : ∀ x ∈ ret.toList, Converts x)
    (params : ∀ x ∈ xs, Converts x) :
    WellFormed (toRoot (.function ret entity xs quals refQual)).parts := by
  have signature := signatureConverts ret quals refQual result params
  have short := Name.shortWellFormed named.pieces
  cases entity with
  | inBody encoding own =>
    have body : WellFormed encoding.toRoot.parts := (wellFormedAppend.mp named.root).1
    exact LocalEntity.wellFormed body short fun t given => by
      cases given
      exact signature
  | _ => exact wellFormedAppend.mpr ⟨short, signature⟩

theorem rootConverts (children : ∀ x ∈ n.children, Converts x) : WellFormed n.toRoot.parts := by
  have named : WellFormed (Root.data (nameOf n.pieces) none).parts :=
    wellFormedAppend.mpr ⟨Name.shortWellFormed (piecesConvert children), wellFormedNothing⟩
  cases n with
  | name _ | nested _ _ | std _ | template _ _ | abbreviation _ => exact named
  | abiTag base _ | clone base _ => exact (children base (List.mem_singleton_self _)).root
  | inBody encoding entity =>
    obtain ⟨body, tail⟩ := List.forall_mem_cons.mp children
    exact bodyConverts body (List.forall_mem_singleton.mp tail)
  | special kind child =>
    rw [toRoot]
    split
    · exact (children child (List.mem_singleton_self _)).type
    · exact wellFormedNothing
  | function ret entity params quals refQual =>
    obtain ⟨named, others⟩ := List.forall_mem_cons.mp children
    obtain ⟨result, each⟩ := List.forall_mem_append.mp others
    exact functionConverts quals refQual named result each
  | _ => exact wellFormedNothing

theorem converts (x : Node) : Converts x := by
  induction x using Node.ofChildren with
  | step n children =>
    exact ⟨rootConverts children, typeConverts children, listedConverts children,
      instancesConvert children, piecesConvert children⟩

end Converts
end Node
end Itanium

namespace Microsoft
open Canonical (Piece Root Signature LocalEntity WellFormed wellFormedAppend wellFormedNothing)

/-! ### Microsoft symbols -/

theorem Ty.optionConverts {ret : Ty} (converted : WellFormed ret.toType.parts) :
    ∀ t ∈ ret.ifEncoded ret.toType, WellFormed t.parts := by
  unfold ifEncoded
  split
  · rintro _ ⟨⟩
  · rintro _ ⟨⟩
    exact converted

theorem Ty.paramsConvert {ts : List Ty} (each : ∀ t ∈ Ty.eachToType ts, WellFormed t.parts) :
    ∀ t ∈ Ty.toParams ts, WellFormed t.parts := by
  unfold toParams
  split
  · exact List.forall_mem_nil _
  · exact List.forall_mem_nil _
  · exact each

theorem Ty.signatureConverts {params : List Ty} {ret : Ty} (storage : Storage)
    (each : ∀ t ∈ Ty.eachToType params, WellFormed t.parts)
    (result : WellFormed ret.toType.parts) :
    WellFormed (Signature.parts ⟨Ty.toParams params, ret.ifEncoded ret.toType, storage.qualifiers,
      storage.refQualifier⟩) :=
  Signature.wellFormed _ _ (paramsConvert each) (optionConverts result)

theorem shortWithin {outer : List Piece} {own : Option Piece}
    (scope : ∀ p ∈ outer, WellFormed p.parts) (last : ∀ p ∈ own, WellFormed p.parts) :
    WellFormed (nameOf (outer ++ own.toList)).parts :=
  Canonical.Name.shortWellFormed (List.forall_mem_append.mpr
    ⟨scope, fun p mem => last p (Option.mem_toList.mp mem)⟩)

-- The induction is over the symbol, with a case for each constructor.
mutual

theorem Name.pieceConverts : (n : Name) → ∀ p ∈ n.toPiece?, WellFormed p.parts
  | .plain _ | .interface _ | .hashed _ | .anonymousNamespace _ | .symbol _ | .typeDescriptor ..
  | .baseClassDescriptor _ | .localStaticGuard _ | .localStaticThreadGuard _ => by
    rw [Name.toPiece?]
    rintro _ ⟨⟩
    exact Piece.plainWellFormed _
  | .template base args => by
    rw [Name.toPiece?]
    rintro _ ⟨⟩
    exact Piece.templateWellFormed _ (Ty.eachConverts args)
  | .discriminator _ => by
    rw [Name.toPiece?]
    rintro _ ⟨⟩
  | .intrinsic which => by
    by_cases conversion : which = .conversion
    · rw [conversion, Name.toPiece?]
      rintro _ ⟨⟩
      exact Piece.templateWellFormed _ (List.forall_mem_singleton.mpr wellFormedNothing)
    · rw [Name.toPiece?]
      · rintro _ ⟨⟩
        exact Piece.plainWellFormed _
      · exact conversion

theorem Name.piecesConvert : (ns : List Name) → ∀ p ∈ Name.toPieces ns, WellFormed p.parts
  | [] => List.forall_mem_nil _
  | n :: outer => by
    rw [Name.toPieces]
    refine List.forall_mem_append.mpr ⟨Name.piecesConvert outer, fun p mem => ?_⟩
    exact n.pieceConverts p (Option.mem_toList.mp mem)

theorem ScopedName.converts : (path : ScopedName) → WellFormed path.toName.parts
  | ⟨name, scope⟩ => by
    rw [ScopedName.toName]
    exact shortWithin (Name.piecesConvert scope) name.pieceConverts

theorem Ty.converts : (t : Ty) → WellFormed t.toType.parts
  | .primitive which storage => by
    rw [Ty.toType]
    split
    · exact Canonical.Ty.withQualifiersWellFormed _ (Canonical.Ty.simpleWellFormed _)
    · exact wellFormedNothing
  | .nullptr | .varArgs => Canonical.Ty.simpleWellFormed _
  | .indirect _ child storage => by
    rw [Ty.toType]
    exact Canonical.Ty.withQualifiersWellFormed _ child.converts
  | .tagged _ path storage => by
    rw [Ty.toType]
    exact Canonical.Ty.withQualifiersWellFormed _ path.converts
  | .memberFunction _ _ params storage ret | .function _ params storage ret => by
    rw [Ty.toType]
    exact Ty.signatureConverts storage (Ty.eachConverts params) ret.converts
  | .templateParam _ | .rttiType | .absent | .memberFunctionPointer .. | .vbtable .. | .vftable ..
  | .vcallThunk .. | .threadSafeStaticGuard _ | .constant _ | .constantString _ | .array ..
  | .variableOf .. | .emptyPack => by
    rw [Ty.toType]
    exact wellFormedNothing

theorem Ty.eachConverts : (ts : List Ty) → ∀ t ∈ Ty.eachToType ts, WellFormed t.parts
  | [] => List.forall_mem_nil _
  | t :: ts => by
    rw [Ty.eachToType]
    exact List.forall_mem_cons.mpr ⟨t.converts, Ty.eachConverts ts⟩

end

theorem Ty.signatureOfConverts {t : Ty} : ∀ s ∈ t.signature?, WellFormed (Signature.parts s) := by
  unfold signature?
  split
  · rintro _ ⟨⟩
    exact signatureConverts _ (eachConverts _) (converts _)
  · rintro _ ⟨⟩
    exact signatureConverts _ (eachConverts _) (converts _)
  · rintro _ ⟨⟩

theorem Ty.dataOfConverts {t : Ty} : ∀ data ∈ t.dataType?, WellFormed data.parts := by
  unfold dataType?
  split
  · rintro _ ⟨⟩
    exact Canonical.Ty.withQualifiersWellFormed _ (converts _)
  · rintro _ ⟨⟩

theorem Symbol.convertsWithin {name : Name} {scope : List Name} (type : Ty)
    (body : ∀ root ∈ Name.outermostRoot? scope, WellFormed (Root.parts root)) :
    WellFormed (Symbol.toRoot ⟨⟨name, scope⟩, type⟩).parts := by
  have path := ScopedName.converts ⟨name, scope⟩
  have inner := shortWithin (Name.piecesConvert scope.dropLast) name.pieceConverts
  have signed := type.signatureOfConverts
  have typed := type.dataOfConverts
  unfold Symbol.toRoot
  split
  · rename_i scope _ _
    exact Canonical.Name.shortWellFormed (Name.piecesConvert scope)
  · rename_i scope _ _
    exact Canonical.Name.shortWellFormed (Name.piecesConvert scope)
  · rename_i described _ _ _
    exact described.converts
  · rename_i same
    cases same
    dsimp only
    split
    · rename_i signature root signs within
      exact LocalEntity.wellFormed (body root within) inner fun t given => by
        cases given
        exact signed signature signs
    · rename_i signature signs _
      exact wellFormedAppend.mpr ⟨path, signed signature signs⟩
    · rename_i data root _ types within
      exact LocalEntity.wellFormed (body root within) inner fun t given => by
        cases given
        exact typed data types
    · rename_i data _ types _
      exact wellFormedAppend.mpr ⟨path, typed data types⟩
    · exact wellFormedNothing

mutual

theorem Symbol.converts : (y : Symbol) → WellFormed y.toRoot.parts
  | ⟨⟨_, scope⟩, type⟩ => Symbol.convertsWithin type (Name.outermostConverts scope)

theorem Name.outermostConverts : (ns : List Name) →
    ∀ root ∈ Name.outermostRoot? ns, WellFormed (Root.parts root)
  | [] => by
    rw [Name.outermostRoot?]
    rintro _ ⟨⟩
  | [.symbol function] => by
    rw [Name.outermostRoot?]
    rintro _ ⟨⟩
    exact function.converts
  | [.hashed _] | [.plain _] | [.interface _] | [.template ..] | [.discriminator _]
  | [.anonymousNamespace _] | [.intrinsic _] | [.typeDescriptor ..] | [.baseClassDescriptor _]
  | [.localStaticGuard _] | [.localStaticThreadGuard _] => by simp [Name.outermostRoot?]
  | n :: m :: outer => by
    rw [Name.outermostRootOuter n m outer]
    exact Name.outermostConverts (m :: outer)

end

end Microsoft

namespace Source
open Canonical (Name Piece WellFormed)
open Itanium (Node)
open Microsoft (Symbol)

/- The canonical form of every tree, under either scheme, is well formed at any depth. A name that
is made of a piece, or of any list of pieces, keeps a last piece whatever is done to it, so that
looking it up never leaves the name. -/
theorem nothingEmpty :
    (∀ x : Node, WellFormed x.toRoot.parts) ∧ (∀ y : Symbol, WellFormed y.toRoot.parts) ∧
    ∀ (first : Piece) (pieces : List Piece) (edits : List Name.Edit),
      ((Name.ofPiece first).edited edits).HasLast ∧
        ((Name.ofPieces pieces).edited edits).HasLast := by
  have kept {n : Name} (nonempty : n.pieces ≠ []) (edits : List Name.Edit) :
      (n.edited edits).HasLast := Name.hasLast (Name.editedNonempty nonempty edits)
  refine ⟨fun x => (Node.converts x).root, Symbol.converts, fun first pieces edits => ⟨?_, ?_⟩⟩
  · exact kept (List.cons_ne_nil first []) edits
  · exact kept (Name.ofPiecesNonempty pieces) edits

example : (Symbol.toRoot ⟨⟨.discriminator 1, [.discriminator 2]⟩,
    .variableOf .functionStatic (.primitive .int {}) {}⟩).key = "$SKIP_NAME -> int" := by
  decide +kernel

end Source
end CxxSymbols
