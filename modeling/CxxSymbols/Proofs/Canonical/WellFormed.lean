import CxxSymbols.Proofs.Canonical.StdAlias
/-! What must not be empty: the pieces of a name and the qualifiers of a qualified type. `parts` has
both, at any depth of a tree. Whatever names and types are put together with keeps them filled, and
no edit takes the only piece of a name, so a name has a last piece at all times. -/
namespace CxxSymbols.Canonical

/-! ### The parts of a tree -/

/- What is of use only if there is something in it. -/
inductive Part where
  | name (name : Name)
  | qualifiers (quals : Qualifiers)

def Part.Filled : Part → Prop
  | name n => n.pieces ≠ []
  | qualifiers quals => quals.isEmpty = false

mutual

def Ty.parts : Ty → List Part
  | .skipped | .special _ => []
  | .named name => name.parts
  | .qualified child quals => .qualifiers quals :: child.parts
  | .indirect child _ => child.parts
  | .function signature => signature.parts
  | .nested entity => entity.parts

def Name.parts : Name → List Part
  | ⟨pieces⟩ => .name ⟨pieces⟩ :: Piece.allParts pieces

def Piece.allParts : List Piece → List Part
  | [] => []
  | p :: rest => p.parts ++ Piece.allParts rest

def Piece.parts : Piece → List Part
  | ⟨_, args⟩ => Piece.argsParts args

def Piece.argsParts : Option (List Ty) → List Part
  | none => []
  | some args => Ty.allParts args

def Ty.allParts : List Ty → List Part
  | [] => []
  | t :: rest => t.parts ++ Ty.allParts rest

def Ty.partsIfAny : Option Ty → List Part
  | none => []
  | some t => t.parts

/- The qualifiers of a function belong to no qualified type, and may be empty. -/
def Signature.parts : Signature → List Part
  | ⟨params, ret, _, _⟩ => Ty.allParts params ++ Ty.partsIfAny ret

def LocalEntity.parts : LocalEntity → List Part
  | ⟨root, name, type⟩ => root.parts ++ (name.parts ++ Ty.partsIfAny type)

def Root.parts : Root → List Part
  | .unknown => []
  | .data name type => name.parts ++ Ty.partsIfAny type
  | .function name signature => name.parts ++ signature.parts
  | .special _ type => type.parts
  | .nested entity => entity.parts

end

def WellFormed (parts : List Part) : Prop := ∀ part ∈ parts, part.Filled

instance (part : Part) : Decidable part.Filled :=
  match part with
  | .name n => inferInstanceAs (Decidable (n.pieces ≠ []))
  | .qualifiers quals => inferInstanceAs (Decidable (quals.isEmpty = false))

instance (parts : List Part) : Decidable (WellFormed parts) :=
  inferInstanceAs (Decidable (∀ part ∈ parts, part.Filled))

example : ¬WellFormed (Ty.named ⟨[.template "f" [.named ⟨[]⟩]]⟩).parts := by decide

section WellFormed
variable {t : Ty} {ts : List Ty} {p : Piece} {n : Name} {parts more : List Part}

@[simp] theorem wellFormedNothing : WellFormed [] := List.forall_mem_nil _

@[simp] theorem wellFormedCons {part : Part} :
    WellFormed (part :: parts) ↔ part.Filled ∧ WellFormed parts := List.forall_mem_cons

@[simp] theorem wellFormedAppend :
    WellFormed (parts ++ more) ↔ WellFormed parts ∧ WellFormed more := List.forall_mem_append

/-! ### Lists and options -/

@[simp] theorem wellFormedTypes : WellFormed (Ty.allParts ts) ↔ ∀ t ∈ ts, WellFormed t.parts := by
  induction ts with
  | nil => simp [Ty.allParts]
  | cons t ts ih => rw [Ty.allParts, wellFormedAppend, ih, List.forall_mem_cons]

@[simp] theorem wellFormedPieces {pieces : List Piece} :
    WellFormed (Piece.allParts pieces) ↔ ∀ p ∈ pieces, WellFormed p.parts := by
  induction pieces with
  | nil => simp [Piece.allParts]
  | cons p pieces ih => rw [Piece.allParts, wellFormedAppend, ih, List.forall_mem_cons]

@[simp] theorem wellFormedIfAny {type : Option Ty} :
    WellFormed (Ty.partsIfAny type) ↔ ∀ t ∈ type, WellFormed t.parts := by
  cases type <;> simp [Ty.partsIfAny]

/-! ### Types, pieces and names -/

theorem Signature.wellFormed {params : List Ty} {ret : Option Ty} (quals : Qualifiers)
    (refQual : RefQualifier) (each : ∀ t ∈ params, WellFormed t.parts)
    (result : ∀ t ∈ ret, WellFormed t.parts) :
    WellFormed (Signature.parts ⟨params, ret, quals, refQual⟩) := by
  rw [parts, wellFormedAppend, wellFormedTypes, wellFormedIfAny]
  exact ⟨each, result⟩

theorem LocalEntity.wellFormed {root : Root} {name : Ty} {type : Option Ty}
    (body : WellFormed root.parts) (named : WellFormed name.parts)
    (typed : ∀ t ∈ type, WellFormed t.parts) :
    WellFormed (LocalEntity.parts ⟨root, name, type⟩) := by
  rw [parts, wellFormedAppend, wellFormedAppend, wellFormedIfAny]
  exact ⟨body, named, typed⟩

theorem Ty.withQualifiersWellFormed (quals : Qualifiers) (child : WellFormed t.parts) :
    WellFormed (t.withQualifiers quals).parts := by
  cases blank : quals.isEmpty with
  | true => simpa [withQualifiers, blank] using child
  | false => simp [withQualifiers, blank, Ty.parts, Part.Filled, child]

theorem Piece.plainWellFormed (spelling : String) : WellFormed (plain spelling).parts := by
  simp [plain, Piece.parts, argsParts]

theorem Piece.templateWellFormed (spelling : String) (each : ∀ t ∈ ts, WellFormed t.parts) :
    WellFormed (template spelling ts).parts := by
  rw [template, Piece.parts, argsParts, wellFormedTypes]
  exact each

theorem Name.wellFormed :
    WellFormed n.parts ↔ n.pieces ≠ [] ∧ ∀ p ∈ n.pieces, WellFormed p.parts := by
  obtain ⟨pieces⟩ := n
  rw [Name.parts, wellFormedCons, wellFormedPieces, Part.Filled]

theorem Ty.simpleWellFormed (spelling : String) : WellFormed (simple spelling).parts := by
  rw [simple, Ty.parts, Name.wellFormed]
  refine ⟨List.cons_ne_nil _ _, fun p mem => ?_⟩
  rw [List.mem_singleton.mp mem]
  exact Piece.plainWellFormed spelling

/-! ### Short names -/

theorem keptOfDropDefaulted {helper : String} (kept : t ∈ dropDefaulted helper ts) : t ∈ ts := by
  unfold dropDefaulted at kept
  split at kept
  · split at kept
    · exact List.mem_cons.mpr (.inl (List.mem_singleton.mp kept))
    · exact kept
  · exact kept

theorem Piece.stdAliasWellFormed (long : WellFormed p.parts) : WellFormed p.stdAlias.parts := by
  obtain ⟨spelling, args⟩ := p
  cases args with
  | none => exact long
  | some args =>
    cases shortened (p := ⟨spelling, some args⟩) rfl with
    | renamed _ result =>
      rw [result]
      exact plainWellFormed _
    | dropped helper always =>
      have each : ∀ t ∈ args, WellFormed t.parts := wellFormedTypes.mp long
      have short : stdAlias ⟨spelling, some args⟩ = _ := always args
      rw [short]
      exact templateWellFormed _ fun t kept => each t (keptOfDropDefaulted kept)
    | kept result => rwa [result]

namespace Name

theorem pieceOfStdAlias {q : Piece} (mem : q ∈ n.stdAlias.pieces) :
    q ∈ n.pieces ∨ ∃ p ∈ n.pieces, q = p.stdAlias := by
  unfold stdAlias at mem
  split at mem
  · rename_i p rest whole
    rw [whole]
    simp only [List.mem_cons] at mem ⊢
    rcases mem with std | short | other
    · exact .inl (.inl std)
    · exact .inr ⟨p, .inr (.inr (.inl rfl)), short⟩
    · exact .inl (.inr (.inr (.inr other)))
  · rename_i whole
    rw [whole]
    exact .inl (List.mem_cons.mpr (.inl (List.mem_singleton.mp mem)))
  · rename_i p rest _ _ whole
    rw [whole]
    simp only [List.mem_cons] at mem ⊢
    rcases mem with std | short | other
    · exact .inl (.inl std)
    · exact .inr ⟨p, .inr (.inl rfl), short⟩
    · exact .inl (.inr (.inr other))
  · exact .inl mem

theorem stdAliasNonempty (nonempty : n.pieces ≠ []) : n.stdAlias.pieces ≠ [] := by
  unfold stdAlias
  split
  · exact List.cons_ne_nil _ _
  · exact List.cons_ne_nil _ _
  · exact List.cons_ne_nil _ _
  · exact nonempty

theorem ofPiecesNonempty (pieces : List Piece) : (ofPieces pieces).pieces ≠ [] := by
  cases pieces with
  | nil => exact List.cons_ne_nil _ _
  | cons p pieces => exact List.cons_ne_nil _ _

theorem shortWellFormed {pieces : List Piece} (each : ∀ p ∈ pieces, WellFormed p.parts) :
    WellFormed (ofPieces pieces).stdAlias.parts := by
  have long : ∀ p ∈ (ofPieces pieces).pieces, WellFormed p.parts := by
    cases pieces with
    | nil =>
      intro p mem
      rw [List.mem_singleton.mp mem]
      exact Piece.plainWellFormed skippedName
    | cons p pieces => exact each
  refine Name.wellFormed.mpr ⟨stdAliasNonempty (ofPiecesNonempty pieces), fun q mem => ?_⟩
  rcases pieceOfStdAlias mem with kept | ⟨p, own, rfl⟩
  · exact long q kept
  · exact Piece.stdAliasWellFormed (long p own)

/-! ### Edits of a name -/

inductive Edit where
  | push (piece : Piece)
  | pop
  | shorten

def edit (n : Name) : Edit → Name
  | .push piece => n.push piece
  | .pop => n.pop.2
  | .shorten => n.stdAlias

def edited (n : Name) (edits : List Edit) : Name := edits.foldl edit n

theorem popNonempty (nonempty : n.pieces ≠ []) : n.pop.2.pieces ≠ [] := by
  unfold pop
  split
  · rename_i several
    refine List.ne_nil_of_length_pos ?_
    rw [List.length_dropLast]
    omega
  · exact nonempty

theorem editNonempty (nonempty : n.pieces ≠ []) (edit : Edit) : (n.edit edit).pieces ≠ [] := by
  cases edit with
  | push piece => exact List.append_ne_nil_of_right_ne_nil _ (List.cons_ne_nil _ _)
  | pop => exact popNonempty nonempty
  | shorten => exact stdAliasNonempty nonempty

theorem editedNonempty (nonempty : n.pieces ≠ []) (edits : List Edit) :
    (n.edited edits).pieces ≠ [] := by
  induction edits generalizing n with
  | nil => exact nonempty
  | cons edit edits ih => exact ih (editNonempty nonempty edit)

structure HasLast (n : Name) : Prop where
  nonempty : n.pieces ≠ []
  inRange : n.pieces.length - 1 < n.pieces.length
  found : n.pieces[n.pieces.length - 1]? = some n.last

theorem hasLast (nonempty : n.pieces ≠ []) : n.HasLast where
  nonempty := nonempty
  inRange := Nat.sub_lt (List.length_pos_iff.mpr nonempty) Nat.one_pos
  found := by
    rw [last, ← List.getLast?_eq_getElem?, List.getLastD_eq_getLast?,
      List.getLast?_eq_some_getLast nonempty, Option.getD_some]

end Name
end WellFormed
end CxxSymbols.Canonical
