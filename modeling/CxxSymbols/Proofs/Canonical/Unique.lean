import CxxSymbols.Proofs.Canonical.Reading
/-! In the core of the model types that print alike are the same. Two texts that agree up to what
may follow them have the same first word or sign, so they are types of one kind, and then their
parts are the same one after the other. -/
namespace CxxSymbols.Canonical

/-! ### Qualifiers and signs -/

section Signs
variable {rest rest' : List Char}

def optional (present : Bool) (word : String) : List Char := if present then word.toList else []

theorem optionalUnique {word : String} {present present' : Bool} (other : ¬word.toList <+: rest)
    (other' : ¬word.toList <+: rest')
    (same : optional present word ++ rest = optional present' word ++ rest') :
    present = present' ∧ rest = rest' := by
  cases present with
  | false =>
    cases present' with
    | false => exact ⟨rfl, same⟩
    | true => exact absurd ⟨rest', same.symm⟩ other
  | true =>
    cases present' with
    | false => exact absurd ⟨rest, same⟩ other'
    | true => exact ⟨rfl, List.append_cancel_left same⟩

structure Unqualified (rest : List Char) : Prop where
  isConst : ¬"const ".toList <+: rest
  isVolatile : ¬"volatile ".toList <+: rest
  isRestrict : ¬"restrict ".toList <+: rest

theorem qualifiersText (q : Qualifiers) : q.text.toList = optional q.isConst "const " ++
    (optional q.isVolatile "volatile " ++ optional q.isRestrict "restrict ") := by
  obtain ⟨isConst, isVolatile, isRestrict⟩ := q
  cases isConst <;> cases isVolatile <;> cases isRestrict <;> rfl

theorem volatileBehind (plain : Unqualified rest) (isRestrict : Bool) :
    ¬"volatile ".toList <+: optional isRestrict "restrict " ++ rest := by
  cases isRestrict with
  | false => exact plain.isVolatile
  | true =>
    rintro ⟨more, same⟩
    exact absurd (List.cons.inj same).1 (by decide)

theorem constBehind (plain : Unqualified rest) (isVolatile isRestrict : Bool) :
    ¬"const ".toList <+:
      optional isVolatile "volatile " ++ (optional isRestrict "restrict " ++ rest) := by
  cases isVolatile with
  | false =>
    cases isRestrict with
    | false => exact plain.isConst
    | true =>
      rintro ⟨more, same⟩
      exact absurd (List.cons.inj same).1 (by decide)
  | true =>
    rintro ⟨more, same⟩
    exact absurd (List.cons.inj same).1 (by decide)

theorem qualifiersUnique {q q' : Qualifiers} (plain : Unqualified rest) (plain' : Unqualified rest')
    (same : q.text.toList ++ rest = q'.text.toList ++ rest') : q = q' ∧ rest = rest' := by
  simp only [qualifiersText, List.append_assoc] at same
  obtain ⟨sameConst, behind⟩ := optionalUnique (constBehind plain _ _) (constBehind plain' _ _) same
  obtain ⟨sameVolatile, last⟩ :=
    optionalUnique (volatileBehind plain _) (volatileBehind plain' _) behind
  obtain ⟨sameRestrict, sameRest⟩ := optionalUnique plain.isRestrict plain'.isRestrict last
  obtain ⟨_, _, _⟩ := q
  obtain ⟨_, _, _⟩ := q'
  cases sameConst
  cases sameVolatile
  cases sameRestrict
  exact ⟨rfl, sameRest⟩

theorem unqualifiedType {t : Ty} (core : t.isCore = true) (plain : t.isQualified = false)
    (ends : EndsPiece rest) : Unqualified (t.text.toList ++ rest) := by
  have form := formOfType core ends
  have other : t.form ≠ .qualified := by
    intro same
    cases t <;> cases same
    cases plain
  have apart {q : Qualifiers} (some : q.isEmpty = false) :
      ¬q.text.toList <+: t.text.toList ++ rest := by
    rintro ⟨more, same⟩
    rw [← same, formOfQualified some] at form
    exact other form.symm
  exact ⟨apart (q := ⟨true, false, false⟩) rfl, apart (q := ⟨false, true, false⟩) rfl,
    apart (q := ⟨false, false, true⟩) rfl⟩

theorem indirectionUnique {k k' : Indirection}
    (same : k.text.toList ++ rest = k'.text.toList ++ rest') : k = k' ∧ rest = rest' := by
  cases k <;> cases k' <;> simp_all [Indirection.text]

theorem refQualifierUnique {k k' : RefQualifier}
    (same : k.text.toList ++ ('-' :: rest) = k'.text.toList ++ ('-' :: rest')) :
    k = k' ∧ rest = rest' := by
  cases k <;> cases k' <;> simp_all [RefQualifier.text]

theorem unqualifiedArrow (k : RefQualifier) (rest : List Char) :
    Unqualified (k.text.toList ++ ('-' :: rest)) := by
  cases k <;> constructor <;> simp [RefQualifier.text]

end Signs

/-! ### Types -/

def Closes (c : Char) : Prop := c = '>' ∨ c = ')'

section Lists
variable {close : Char} {rest : List Char}

theorem endsClosed (closes : Closes close) (ts : List Ty) (rest : List Char) :
    Ends (Ty.behind ts ++ close :: rest) := by
  cases ts with
  | nil => rcases closes with rfl | rfl <;> exact endsAt (by decide) _
  | cons t ts => exact endsAt (by decide) _

theorem formOfClosed (closes : Closes close) (rest : List Char) :
    Form.of (close :: rest) = .none := by
  rcases closes with rfl | rfl <;> simp [Form.of, inWord]

theorem formOfCore {t : Ty} (core : t.isCore = true) : t.form ≠ .none := by
  cases t with
  | nested entity => cases core
  | _ => exact Form.noConfusion

theorem closedApart (closes : Closes close) {u : Ty} (core : u.isCore = true) {us : List Ty}
    {rest' : List Char} :
    close :: rest ≠ u.text.toList ++ (Ty.behind us ++ close :: rest') := by
  intro same
  have form := formOfType core (endsClosed closes us rest').piece
  rw [← same, formOfClosed closes] at form
  exact formOfCore core form.symm

theorem endsPieces (ps : List Piece) (ends : Ends rest) : EndsPiece (Piece.behind ps ++ rest) := by
  cases ps with
  | nil => exact ends.piece
  | cons p ps => exact endsPieceAt (by decide) _

theorem piecesApart {q : Piece} {qs : List Piece} (core : Piece.allCore (q :: qs) = true)
    (ends : Ends rest) {rest' : List Char} : rest ≠ Piece.behind (q :: qs) ++ rest' := by
  intro same
  simp only [Piece.allCore, Bool.and_eq_true] at core
  obtain ⟨c, more, text, word⟩ := pieceBegins core.1
  simp only [Piece.behind, List.flatMap_cons, List.cons_append, text] at same
  rw [ends.scope same] at word
  cases word

theorem closesApart (closes : Closes close) : close ≠ ',' := by
  rcases closes with rfl | rfl <;> decide

theorem unknownApart {u : Ty} (core : u.isCore = true) {rest' : List Char} (ends : Ends rest)
    (ends' : Ends rest') : "unknown".toList ++ rest ≠ u.text.toList ++ rest' := by
  intro same
  have form := formOfType core ends'.piece
  rw [← same, formOfUnknown (endsPieceStops ends.piece)] at form
  cases u <;> cases form

end Lists

section Texts
variable (rest : List Char)

theorem argsText (args : List Ty) : (Piece.argsText (some args)).toList ++ rest =
    '<' :: ((", ".intercalate (Ty.texts args)).toList ++ '>' :: rest) := by
  simp [Piece.argsText]

theorem argsApart {rest : List Char} (ends : EndsPiece rest) {ts : List Ty} {rest' : List Char} :
    rest ≠ (Piece.argsText (some ts)).toList ++ rest' := by
  intro same
  rw [argsText] at same
  exact absurd rfl (ends '<' (by rw [same]; rfl)).2

theorem signatureText (params : List Ty) (ret : Option Ty) (quals : Qualifiers)
    (refQual : RefQualifier) : (Signature.text ⟨params, ret, quals, refQual⟩).toList ++ rest =
    '(' :: ((", ".intercalate (Ty.texts params)).toList ++ ')' :: (' ' :: (quals.text.toList ++
      (refQual.text.toList ++ '-' :: ('>' :: ' ' ::
        ((Ty.textOr "unknown" ret).toList ++ rest)))))) := by
  simp [Signature.text]

end Texts

/-! ### Types -/

mutual

theorem typeUnique {t u : Ty} (core : t.isCore = true) (core' : u.isCore = true)
    {rest rest' : List Char} (ends : Ends rest) (ends' : Ends rest')
    (same : t.text.toList ++ rest = u.text.toList ++ rest') : t = u ∧ rest = rest' := by
  have forms : t.form = u.form := by
    rw [← formOfType core ends.piece, same, formOfType core' ends'.piece]
  match t with
  | .skipped =>
    cases u with
    | skipped => exact ⟨rfl, List.append_cancel_left same⟩
    | _ => cases forms
  | .special tag =>
    cases u with
    | special tag' =>
      simp only [Ty.text, String.toList_append, List.append_assoc] at same
      simp only [Ty.isCore, isWord] at core core'
      obtain ⟨tags, rests⟩ := wordsUnique core core' (endsPieceStops ends.piece)
        (endsPieceStops ends'.piece) (List.append_cancel_left same)
      rw [String.toList_inj.mp tags]
      exact ⟨rfl, rests⟩
    | _ => cases forms
  | .named name =>
    cases u with
    | named name' =>
      obtain ⟨names, rests⟩ := nameUnique core core' ends ends' same
      exact ⟨congrArg _ names, rests⟩
    | _ => cases forms
  | .qualified child quals =>
    cases u with
    | qualified child' quals' =>
      simp only [Ty.isCore, Bool.and_eq_true, Bool.not_eq_true'] at core core'
      simp only [Ty.text, String.toList_append, List.append_assoc] at same
      obtain ⟨quals, behind⟩ := qualifiersUnique (unqualifiedType core.2 core.1.2 ends.piece)
        (unqualifiedType core'.2 core'.1.2 ends'.piece) same
      obtain ⟨children, rests⟩ := typeUnique core.2 core'.2 ends ends' behind
      rw [quals, children]
      exact ⟨rfl, rests⟩
    | _ => cases forms
  | .indirect child kind =>
    cases u with
    | indirect child' kind' =>
      simp only [Ty.text, String.toList_append, List.append_assoc] at same
      obtain ⟨kinds, behind⟩ := indirectionUnique same
      obtain ⟨children, rests⟩ := typeUnique (t := child) (u := child') core core' ends
        ends' behind
      rw [kinds, children]
      exact ⟨rfl, rests⟩
    | _ => cases forms
  | .function signature =>
    cases u with
    | function signature' =>
      obtain ⟨signatures, rests⟩ := signatureUnique core core' ends ends' same
      exact ⟨congrArg _ signatures, rests⟩
    | _ => cases forms
  | .nested entity => cases core
termination_by structural t

theorem nameUnique {n m : Name} (core : n.isCore = true) (core' : m.isCore = true)
    {rest rest' : List Char} (ends : Ends rest) (ends' : Ends rest')
    (same : n.text.toList ++ rest = m.text.toList ++ rest') : n = m ∧ rest = rest' := by
  match n, m with
  | ⟨[]⟩, _ => cases core
  | _, ⟨[]⟩ => cases core'
  | ⟨p :: ps⟩, ⟨q :: qs⟩ =>
    simp only [Name.isCore, Piece.allCore, Bool.and_eq_true] at core core'
    rw [Name.text, Name.text, piecesText, piecesText, List.append_assoc, List.append_assoc] at same
    obtain ⟨first, behind⟩ := pieceUnique core.2.1 core'.2.1 (endsPieces ps ends)
      (endsPieces qs ends') same
    obtain ⟨others, rests⟩ := piecesUnique core.2.2 core'.2.2 ends ends' behind
    rw [first, others]
    exact ⟨rfl, rests⟩
termination_by structural n

theorem piecesUnique {ps qs : List Piece} (core : Piece.allCore ps = true)
    (core' : Piece.allCore qs = true) {rest rest' : List Char} (ends : Ends rest)
    (ends' : Ends rest') (same : Piece.behind ps ++ rest = Piece.behind qs ++ rest') :
    ps = qs ∧ rest = rest' := by
  match ps, qs with
  | [], [] => exact ⟨rfl, same⟩
  | [], q :: qs => exact absurd same (piecesApart core' ends)
  | p :: ps, [] => exact absurd same.symm (piecesApart core ends')
  | p :: ps, q :: qs =>
    simp only [Piece.allCore, Bool.and_eq_true] at core core'
    simp only [Piece.behind, List.flatMap_cons, List.append_assoc, List.cons_append] at same
    obtain ⟨first, behind⟩ := pieceUnique core.1 core'.1 (endsPieces ps ends) (endsPieces qs ends')
      (List.cons.inj (List.cons.inj same).2).2
    obtain ⟨others, rests⟩ := piecesUnique core.2 core'.2 ends ends' behind
    rw [first, others]
    exact ⟨rfl, rests⟩
termination_by structural ps

theorem pieceUnique {p q : Piece} (core : p.isCore = true) (core' : q.isCore = true)
    {rest rest' : List Char} (ends : EndsPiece rest) (ends' : EndsPiece rest')
    (same : p.text.toList ++ rest = q.text.toList ++ rest') : p = q ∧ rest = rest' := by
  match p with
  | ⟨spelling, args⟩ =>
    obtain ⟨spelling', args'⟩ := q
    simp only [Piece.isCore, isIdentifier, isWord, Bool.and_eq_true] at core core'
    rw [Piece.text, Piece.text, String.toList_append, String.toList_append, List.append_assoc,
      List.append_assoc] at same
    obtain ⟨spellings, behind⟩ := wordsUnique core.1.1.2 core'.1.1.2 (argsStop args ends)
      (argsStop args' ends') same
    obtain ⟨sameArgs, rests⟩ := argsUnique core.2 core'.2 ends ends' behind
    rw [String.toList_inj.mp spellings, sameArgs]
    exact ⟨rfl, rests⟩
termination_by structural p

theorem argsUnique {args args' : Option (List Ty)} (core : Piece.argsCore args = true)
    (core' : Piece.argsCore args' = true) {rest rest' : List Char} (ends : EndsPiece rest)
    (ends' : EndsPiece rest')
    (same : (Piece.argsText args).toList ++ rest = (Piece.argsText args').toList ++ rest') :
    args = args' ∧ rest = rest' := by
  match args, args' with
  | none, none => exact ⟨rfl, same⟩
  | none, some ts => exact absurd same (argsApart ends)
  | some ts, none => exact absurd same.symm (argsApart ends')
  | some ts, some us =>
    rw [argsText, argsText] at same
    obtain ⟨lists, rests⟩ := listUnique (.inl rfl) core core' (List.cons.inj same).2
    exact ⟨congrArg some lists, rests⟩
termination_by structural args

theorem listUnique {close : Char} (closes : Closes close) {ts us : List Ty}
    (core : Ty.allCore ts = true) (core' : Ty.allCore us = true) {rest rest' : List Char}
    (same : (", ".intercalate (Ty.texts ts)).toList ++ close :: rest =
      (", ".intercalate (Ty.texts us)).toList ++ close :: rest') : ts = us ∧ rest = rest' := by
  match ts, us with
  | [], [] => exact ⟨rfl, (List.cons.inj same).2⟩
  | [], u :: us =>
    simp only [Ty.allCore, Bool.and_eq_true] at core'
    rw [typesText, List.append_assoc] at same
    exact absurd same (closedApart closes core'.1)
  | t :: ts, [] =>
    simp only [Ty.allCore, Bool.and_eq_true] at core
    rw [typesText, List.append_assoc] at same
    exact absurd same.symm (closedApart closes core.1)
  | t :: ts, u :: us =>
    simp only [Ty.allCore, Bool.and_eq_true] at core core'
    rw [typesText, typesText, List.append_assoc, List.append_assoc] at same
    obtain ⟨first, behind⟩ := typeUnique core.1 core'.1 (endsClosed closes ts rest)
      (endsClosed closes us rest') same
    obtain ⟨others, rests⟩ := typesUnique closes core.2 core'.2 behind
    rw [first, others]
    exact ⟨rfl, rests⟩
termination_by structural ts

theorem typesUnique {close : Char} (closes : Closes close) {ts us : List Ty}
    (core : Ty.allCore ts = true) (core' : Ty.allCore us = true) {rest rest' : List Char}
    (same : Ty.behind ts ++ close :: rest = Ty.behind us ++ close :: rest') :
    ts = us ∧ rest = rest' := by
  match ts, us with
  | [], [] => exact ⟨rfl, (List.cons.inj same).2⟩
  | [], u :: us => exact absurd (List.cons.inj same).1 (closesApart closes)
  | t :: ts, [] => exact absurd (List.cons.inj same).1.symm (closesApart closes)
  | t :: ts, u :: us =>
    simp only [Ty.allCore, Bool.and_eq_true] at core core'
    simp only [Ty.behind, List.flatMap_cons, List.append_assoc, List.cons_append] at same
    obtain ⟨first, behind⟩ := typeUnique core.1 core'.1 (endsClosed closes ts rest)
      (endsClosed closes us rest') (List.cons.inj (List.cons.inj same).2).2
    obtain ⟨others, rests⟩ := typesUnique closes core.2 core'.2 behind
    rw [first, others]
    exact ⟨rfl, rests⟩
termination_by structural ts

theorem signatureUnique {f g : Signature} (core : f.isCore = true) (core' : g.isCore = true)
    {rest rest' : List Char} (ends : Ends rest) (ends' : Ends rest')
    (same : f.text.toList ++ rest = g.text.toList ++ rest') : f = g ∧ rest = rest' := by
  match f with
  | ⟨params, ret, quals, refQual⟩ =>
    obtain ⟨params', ret', quals', refQual'⟩ := g
    simp only [Signature.isCore, Bool.and_eq_true] at core core'
    rw [signatureText, signatureText] at same
    obtain ⟨lists, behind⟩ := listUnique (.inr rfl) core.1 core'.1 (List.cons.inj same).2
    obtain ⟨sameQuals, arrows⟩ := qualifiersUnique (unqualifiedArrow _ _) (unqualifiedArrow _ _)
      (List.cons.inj behind).2
    obtain ⟨sameRefs, returns⟩ := refQualifierUnique arrows
    obtain ⟨sameRet, rests⟩ := returnUnique core.2 core'.2 ends ends'
      (List.cons.inj (List.cons.inj returns).2).2
    rw [lists, sameQuals, sameRefs, sameRet]
    exact ⟨rfl, rests⟩
termination_by structural f

theorem returnUnique {ret ret' : Option Ty} (core : Ty.optionCore ret = true)
    (core' : Ty.optionCore ret' = true) {rest rest' : List Char} (ends : Ends rest)
    (ends' : Ends rest') (same : (Ty.textOr "unknown" ret).toList ++ rest =
      (Ty.textOr "unknown" ret').toList ++ rest') : ret = ret' ∧ rest = rest' := by
  match ret, ret' with
  | none, none => exact ⟨rfl, List.append_cancel_left same⟩
  | none, some u => exact absurd same (unknownApart core' ends ends')
  | some t, none => exact absurd same.symm (unknownApart core ends' ends)
  | some t, some u =>
    obtain ⟨types, rests⟩ := typeUnique (t := t) core core' ends ends' same
    exact ⟨congrArg some types, rests⟩
termination_by structural ret

end

end CxxSymbols.Canonical
