import CxxSymbols.Proofs.Search.Operator
import CxxSymbols.Proofs.Search.Runs
import CxxSymbols.Search.Family
/-! A family is the family of itself. What is written down is copied as it stands when it is read
again: it has neither minus nor angle bracket nor parenthesis but in the punctuation of an operator,
and that ends where it ended before, since the blank or parenthesis behind it is written too. -/
namespace CxxSymbols.Search

variable {depth : Nat} {reversed cs rest : List Char} {c : Char}

/-! ### The moves of the scan -/

def Unspelled (depth : Nat) (reversed cs : List Char) : Prop :=
  depth = 0 → endsWithOperator reversed = true → operatorSpelling? cs = none

theorem familyNothing : familyFrom depth reversed [] = reversed := by
  rw [familyFrom]

theorem familySpelled {spelling : List Char} (word : endsWithOperator reversed = true)
    (spells : Spells spelling rest) : familyFrom 0 reversed (spelling ++ rest) =
      familyFrom 0 (spelling.reverse ++ reversed) rest := by
  have found := spellingRead spells
  cases shape : spelling with
  | nil =>
    rw [shape] at spells
    cases spells
  | cons c more =>
    rw [shape, List.cons_append] at found
    rw [List.cons_append, familyFrom]
    simp only [word, found, and_self, if_true, List.length_cons, Nat.add_sub_cancel,
      List.drop_left]

theorem familyUnspelled (unspelled : Unspelled depth reversed (c :: rest)) :
    familyFrom depth reversed (c :: rest) =
      if (c = '-' ∧ rest.head? = some '>') ∨ (c = '<' ∧ rest.head? = some '-') then
        familyFrom depth reversed (rest.drop 1)
      else if c = '-' then familyFrom depth reversed rest
      else if depth = 0 then
        if c = '<' then familyFrom 1 (' ' :: reversed) rest
        else if c = '>' then familyFrom 0 (' ' :: reversed) rest
        else if c = '(' then reversed
        else familyFrom 0 (c :: reversed) rest
      else if c = '<' then familyFrom (depth + 1) reversed rest
      else if c = '>' then familyFrom (depth - 1) reversed rest
      else familyFrom depth reversed rest := by
  have none : (if depth = 0 ∧ endsWithOperator reversed then operatorSpelling? (c :: rest)
      else none) = none := by
    by_cases here : depth = 0 ∧ endsWithOperator reversed = true
    · rw [if_pos here, unspelled here.1 here.2]
    · rw [if_neg here]
  rw [familyFrom]
  simp only [none]

theorem familyArrow (unspelled : Unspelled depth reversed (c :: rest))
    (arrow : (c = '-' ∧ rest.head? = some '>') ∨ (c = '<' ∧ rest.head? = some '-')) :
    familyFrom depth reversed (c :: rest) = familyFrom depth reversed (rest.drop 1) := by
  rw [familyUnspelled unspelled, if_pos arrow]

theorem familyMinus (unspelled : Unspelled depth reversed ('-' :: rest))
    (noArrow : rest.head? ≠ some '>') :
    familyFrom depth reversed ('-' :: rest) = familyFrom depth reversed rest := by
  simp [familyUnspelled unspelled, noArrow]

section Outside

theorem familyEntered (unspelled : Unspelled 0 reversed ('<' :: rest))
    (noArrow : rest.head? ≠ some '-') :
    familyFrom 0 reversed ('<' :: rest) = familyFrom 1 (' ' :: reversed) rest := by
  simp [familyUnspelled unspelled, noArrow]

theorem familyStray (unspelled : Unspelled 0 reversed ('>' :: rest)) :
    familyFrom 0 reversed ('>' :: rest) = familyFrom 0 (' ' :: reversed) rest := by
  simp [familyUnspelled unspelled]

theorem familyEnded (unspelled : Unspelled 0 reversed ('(' :: rest)) :
    familyFrom 0 reversed ('(' :: rest) = reversed := by
  simp [familyUnspelled unspelled]

structure Ordinary (c : Char) : Prop where
  minus : c ≠ '-'
  opening : c ≠ '<'
  closing : c ≠ '>'
  call : c ≠ '('

theorem familyCopied (ordinary : Ordinary c) (unspelled : Unspelled 0 reversed (c :: rest)) :
    familyFrom 0 reversed (c :: rest) = familyFrom 0 (c :: reversed) rest := by
  obtain ⟨minus, opening, closing, call⟩ := ordinary
  simp [familyUnspelled unspelled, minus, opening, closing, call]

end Outside

section Inside
variable (inside : depth ≠ 0)
include inside

theorem unspelledInside : Unspelled depth reversed cs := fun top => absurd top inside

theorem familyDeeper (noArrow : rest.head? ≠ some '-') :
    familyFrom depth reversed ('<' :: rest) = familyFrom (depth + 1) reversed rest := by
  simp [familyUnspelled (unspelledInside inside), noArrow, inside]

theorem familyShallower :
    familyFrom depth reversed ('>' :: rest) = familyFrom (depth - 1) reversed rest := by
  simp [familyUnspelled (unspelledInside inside), inside]

theorem familyPassed (minus : c ≠ '-') (opening : c ≠ '<') (closing : c ≠ '>') :
    familyFrom depth reversed (c :: rest) = familyFrom depth reversed rest := by
  simp [familyUnspelled (unspelledInside inside), minus, opening, closing, inside]

end Inside

/-! ### Names and their template arguments -/

theorem nameOrdinary (name : isNameChar c = true) : Ordinary c := by
  constructor <;> rintro rfl <;> cases name

theorem operatorAtEnd {name : List Char} (all : ∀ c ∈ name, isNameChar c = true)
    (apart : Apart reversed) (other : name ≠ operatorWord) :
    endsWithOperator (name.reverse ++ reversed) = false := by
  refine Bool.eq_false_iff.mpr fun word => other ?_
  obtain ⟨ends, alone⟩ := Bool.and_eq_true_iff.mp word
  obtain ⟨before, text⟩ := List.isPrefixOf_iff_prefix.mp ends
  have stop : Apart before := by
    intro c first
    rw [← text, ← List.length_reverse, List.drop_left, first] at alone
    simpa using alone
  have legible : Legible operatorWord.reverse := by decide
  have taken := (Scanner.takeStretch legible.names stop).1
  rw [text, (Scanner.takeStretch (fun c mem => all c (List.mem_reverse.mp mem)) apart).1] at taken
  exact List.reverse_inj.mp taken

theorem familyName {name : List Char} (all : ∀ c ∈ name, isNameChar c = true) :
    familyFrom 0 reversed (name ++ rest) = familyFrom 0 (name.reverse ++ reversed) rest := by
  induction name generalizing reversed with
  | nil => rfl
  | cons c name ih =>
    obtain ⟨first, others⟩ := List.forall_mem_cons.mp all
    have ordinary := nameOrdinary first
    have unspelled : Unspelled 0 reversed (c :: (name ++ rest)) :=
      fun _ _ => (spellingNone ordinary.call).mpr (nameOpensNothing first)
    rw [List.cons_append, familyCopied ordinary unspelled, ih others, List.reverse_cons,
      List.append_assoc, List.singleton_append]

/- Text in which the angle brackets that are no part of an arrow come in pairs. -/
inductive Balanced : List Char → Prop where
  | nothing : Balanced []
  | sign {c : Char} {rest : List Char} (minus : c ≠ '-') (opening : c ≠ '<') (closing : c ≠ '>')
      (behind : Balanced rest) : Balanced (c :: rest)
  | arrow {rest : List Char} (behind : Balanced rest) : Balanced ('-' :: '>' :: rest)
  | back {rest : List Char} (behind : Balanced rest) : Balanced ('<' :: '-' :: rest)
  | nested {inner rest : List Char} (apart : inner.head? ≠ some '-') (within : Balanced inner)
      (behind : Balanced rest) : Balanced ('<' :: (inner ++ '>' :: rest))

theorem closingApart {inner : List Char} (apart : inner.head? ≠ some '-') (rest : List Char) :
    (inner ++ '>' :: rest).head? ≠ some '-' := by
  cases inner with
  | nil => exact fun same => absurd (Option.some.inj same) (by decide)
  | cons c inner => exact apart

theorem familyBalanced {text : List Char} (balanced : Balanced text) (inside : depth ≠ 0) :
    familyFrom depth reversed (text ++ rest) = familyFrom depth reversed rest := by
  induction balanced generalizing depth rest with
  | nothing => rfl
  | sign minus opening closing _ ih =>
    rw [List.cons_append, familyPassed inside minus opening closing, ih inside]
  | arrow _ ih =>
    rw [List.cons_append, List.cons_append, familyArrow (unspelledInside inside) (.inl ⟨rfl, rfl⟩)]
    exact ih inside
  | back _ ih =>
    rw [List.cons_append, List.cons_append, familyArrow (unspelledInside inside) (.inr ⟨rfl, rfl⟩)]
    exact ih inside
  | nested apart _ _ within behind =>
    rw [List.cons_append, List.append_assoc, List.cons_append,
      familyDeeper inside (closingApart apart _), within (Nat.succ_ne_zero depth),
      familyShallower (Nat.succ_ne_zero depth)]
    exact behind inside

theorem familyArgs {inner : List Char} (apart : inner.head? ≠ some '-') (balanced : Balanced inner)
    (plain : endsWithOperator reversed = false) :
    familyFrom 0 reversed ('<' :: (inner ++ '>' :: rest)) = familyFrom 0 (' ' :: reversed) rest := by
  have unspelled : Unspelled 0 reversed ('<' :: (inner ++ '>' :: rest)) := by
    intro _ word
    rw [plain] at word
    cases word
  rw [familyEntered unspelled (closingApart apart _), familyBalanced balanced Nat.one_ne_zero,
    familyShallower Nat.one_ne_zero]

/-! ### What is copied -/

/- What is copied as it stands, behind a text that is kept in reverse. -/
inductive Settled : List Char → List Char → Prop where
  | nothing {reversed : List Char} : Settled reversed []
  | copied {reversed rest : List Char} {c : Char} (ordinary : Ordinary c)
      (unspelled : Unspelled 0 reversed (c :: rest)) (behind : Settled (c :: reversed) rest) :
      Settled reversed (c :: rest)
  | spelled {reversed spelling rest : List Char} (word : endsWithOperator reversed = true)
      (spells : Spells spelling rest) (behind : Settled (spelling.reverse ++ reversed) rest) :
      Settled reversed (spelling ++ rest)

theorem settledCopied (settled : Settled reversed cs) :
    familyFrom 0 reversed cs = cs.reverse ++ reversed := by
  induction settled with
  | nothing => exact familyNothing
  | copied ordinary unspelled _ ih =>
    rw [familyCopied ordinary unspelled, ih, List.reverse_cons, List.append_assoc,
      List.singleton_append]
  | spelled word spells _ ih =>
    rw [familySpelled word spells, ih, List.reverse_append, List.append_assoc]

/- What has been written goes on as the key does: behind the punctuation of an operator stands what
ended it. -/
def Follows (depth : Nat) (cs out : List Char) : Prop :=
  depth = 0 → StopsSpelling cs → StopsSpelling out

theorem followsAt (goes : goesOn c = true) (out : List Char) : Follows depth (c :: rest) out := by
  intro _ stops
  rw [stops c rfl] at goes
  cases goes

theorem followsSame (out : List Char) : Follows depth (c :: rest) (c :: out) :=
  fun _ stops d first => stops d first

theorem spellsWritten {spelling out : List Char} (spells : Spells spelling rest)
    (follows : Follows 0 rest out) : Spells spelling out := by
  cases spells with
  | call => exact .call out
  | sign opens all stops => exact .sign opens all (follows rfl stops)

theorem unspelledOf (none : (if _ : depth = 0 ∧ endsWithOperator reversed = true then
    operatorSpelling? cs else none) = none) : Unspelled depth reversed cs := by
  intro top word
  rwa [dif_pos ⟨top, word⟩] at none

theorem unspelledBlank : Unspelled depth reversed (' ' :: rest) :=
  fun _ _ => (spellingNone (by decide)).mpr rfl

theorem blankOrdinary : Ordinary ' ' := by constructor <;> decide

structure Written (depth : Nat) (reversed cs out : List Char) : Prop where
  result : familyFrom depth reversed cs = out.reverse ++ reversed
  settled : Settled reversed out
  follows : Follows depth cs out

theorem writtenBlank {depth' : Nat} {out : List Char} (goes : goesOn c = true)
    (same : familyFrom depth reversed (c :: rest) = familyFrom depth' (' ' :: reversed) rest)
    (behind : Written depth' (' ' :: reversed) rest out) :
    Written depth reversed (c :: rest) (' ' :: out) where
  result := by
    rw [same, behind.result, List.reverse_cons, List.append_assoc, List.singleton_append]
  settled := .copied blankOrdinary unspelledBlank behind.settled
  follows := followsAt goes _

theorem writtenCopied {out : List Char} (ordinary : Ordinary c)
    (unspelled : Unspelled 0 reversed (c :: rest)) (behind : Written 0 (c :: reversed) rest out) :
    Written 0 reversed (c :: rest) (c :: out) where
  result := by
    rw [familyCopied ordinary unspelled, behind.result, List.reverse_cons, List.append_assoc,
      List.singleton_append]
  settled := by
    refine .copied ordinary (fun top word => ?_) behind.settled
    exact (spellingNone ordinary.call).mpr ((spellingNone ordinary.call).mp (unspelled top word))
  follows := followsSame _

theorem writtenSpelled {spelling out : List Char} (word : endsWithOperator reversed = true)
    (spells : Spells spelling rest)
    (behind : Written 0 (spelling.reverse ++ reversed) rest out) :
    Written 0 reversed (spelling ++ rest) (spelling ++ out) where
  result := by
    rw [familySpelled word spells, behind.result, List.reverse_append, List.append_assoc]
  settled := .spelled word (spellsWritten spells behind.follows) behind.settled
  follows := by
    cases spells with
    | call => exact followsSame _
    | sign => exact followsSame _

theorem writtenSettles (depth : Nat) (reversed cs : List Char) :
    ∃ out, Written depth reversed cs out := by
  induction depth, reversed, cs using familyFrom.induct with
  | case1 depth reversed => exact ⟨[], familyNothing, .nothing, fun _ stops => stops⟩
  | case2 depth reversed c rest spelling found ih =>
    by_cases here : depth = 0 ∧ endsWithOperator reversed = true
    · rw [dif_pos here] at found
      obtain ⟨rfl, word⟩ := here
      obtain ⟨behind, shape, spells⟩ := spellingSource found
      have left : rest.drop (spelling.length - 1) = behind := by
        cases spelling with
        | nil => cases spells
        | cons d more => rw [(List.cons.inj shape).2, List.length_cons]; exact List.drop_left
      obtain ⟨out, written⟩ := ih
      rw [left] at written
      exact ⟨spelling ++ out, shape ▸ writtenSpelled word spells written⟩
    · rw [dif_neg here] at found
      cases found
  | case3 depth reversed c rest none arrow ih =>
    obtain ⟨out, result, settled, _⟩ := ih
    refine ⟨out, (familyArrow (unspelledOf none) arrow).trans result, settled, followsAt ?_ out⟩
    rcases arrow with ⟨rfl, _⟩ | ⟨rfl, _⟩ <;> rfl
  | case4 depth reversed rest none noArrow ih =>
    obtain ⟨out, result, settled, _⟩ := ih
    have apart : rest.head? ≠ some '>' := fun first => noArrow (.inl ⟨rfl, first⟩)
    exact ⟨out, (familyMinus (unspelledOf none) apart).trans result, settled, followsAt rfl out⟩
  | case5 reversed rest noArrow minus none ih =>
    obtain ⟨out, written⟩ := ih
    have apart : rest.head? ≠ some '-' := fun first => noArrow (.inr ⟨rfl, first⟩)
    exact ⟨_, writtenBlank rfl (familyEntered (unspelledOf none) apart) written⟩
  | case6 reversed rest noArrow minus opening none ih =>
    obtain ⟨out, written⟩ := ih
    exact ⟨_, writtenBlank rfl (familyStray (unspelledOf none)) written⟩
  | case7 reversed rest noArrow minus opening closing none =>
    refine ⟨[], familyEnded (unspelledOf none), .nothing, fun _ _ => ?_⟩
    rintro d ⟨⟩
  | case8 reversed c rest noArrow minus opening closing call none ih =>
    obtain ⟨out, written⟩ := ih
    exact ⟨_, writtenCopied ⟨minus, opening, closing, call⟩ (unspelledOf none) written⟩
  | case9 depth reversed rest inside none noArrow minus ih =>
    obtain ⟨out, result, settled, _⟩ := ih
    have apart : rest.head? ≠ some '-' := fun first => noArrow (.inr ⟨rfl, first⟩)
    exact ⟨out, (familyDeeper inside apart).trans result, settled, fun top => absurd top inside⟩
  | case10 depth reversed rest inside none noArrow minus opening ih =>
    obtain ⟨out, result, settled, _⟩ := ih
    exact ⟨out, (familyShallower inside).trans result, settled, fun top => absurd top inside⟩
  | case11 depth reversed c rest none noArrow minus inside opening closing ih =>
    obtain ⟨out, result, settled, _⟩ := ih
    exact ⟨out, (familyPassed inside minus opening closing).trans result, settled,
      fun top => absurd top inside⟩

theorem familySettled (key : String) : Settled [] (family key).toList := by
  obtain ⟨out, result, settled, _⟩ := writtenSettles 0 [] key.toList
  rw [family, result, List.append_nil, List.reverse_reverse, String.toList_ofList]
  exact settled

theorem familyItself {key : String} : family key = key ↔ Settled [] key.toList := by
  refine ⟨fun same => same ▸ familySettled key, fun settled => ?_⟩
  rw [family, settledCopied settled, List.append_nil, List.reverse_reverse, String.ofList_toList]

theorem familyOfFamily (key : String) : family (family key) = family key :=
  familyItself.mpr (familySettled key)

example : family "A<int>::oper-ator<< <x>(y)" = "A ::operator<<  " := by decide +kernel

end CxxSymbols.Search
