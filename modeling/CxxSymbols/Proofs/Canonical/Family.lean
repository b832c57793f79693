import CxxSymbols.Proofs.Canonical.Words
import CxxSymbols.Proofs.Search.Family
/-! The families of functions. Whatever the types are that template arguments print, the angle
brackets in them that are no part of an arrow come in pairs; so the arguments of each piece of the
name leave a blank, and the family ends with the name, in front of the parameters. -/
namespace CxxSymbols.Canonical
open Search

/-! ### Texts of types -/

/- Text that may stand behind the sign that opens template arguments. -/
structure Enclosable (text : List Char) : Prop where
  apart : text.head? ≠ some '-'
  balanced : Balanced text

def isInert (c : Char) : Bool := c ≠ '-' && c ≠ '<' && c ≠ '>'

section Texts
variable {text rest : List Char} {c : Char}

theorem inertSign : isInert c = true ↔ c ≠ '-' ∧ c ≠ '<' ∧ c ≠ '>' := by
  simp [isInert, and_assoc]

theorem balancedAppend (first : Balanced text) (second : Balanced rest) :
    Balanced (text ++ rest) := by
  induction first with
  | nothing => exact second
  | sign minus opening closing _ ih => exact .sign minus opening closing ih
  | arrow _ ih => exact .arrow ih
  | back _ ih => exact .back ih
  | nested apart within _ _ ih =>
    rw [List.cons_append, List.append_assoc, List.cons_append]
    exact .nested apart within ih

theorem balancedPlain (plain : text.all isInert = true) : Balanced text := by
  induction text with
  | nil => exact .nothing
  | cons c text ih =>
    obtain ⟨first, others⟩ := Bool.and_eq_true_iff.mp plain
    obtain ⟨minus, opening, closing⟩ := inertSign.mp first
    exact .sign minus opening closing (ih others)

theorem enclosableAppend (first : Enclosable text) (second : Enclosable rest) :
    Enclosable (text ++ rest) where
  apart := by
    cases text with
    | nil => exact second.apart
    | cons c text => exact first.apart
  balanced := balancedAppend first.balanced second.balanced

theorem enclosableAt (plain : c ≠ '-' ∧ c ≠ '<' ∧ c ≠ '>') (behind : Balanced rest) :
    Enclosable (c :: rest) :=
  ⟨fun same => plain.1 (Option.some.inj same), .sign plain.1 plain.2.1 plain.2.2 behind⟩

theorem enclosablePlain (plain : text.all isInert = true) : Enclosable text where
  apart := by
    cases text with
    | nil => exact fun same => nomatch same
    | cons c text =>
      have first := inertSign.mp (Bool.and_eq_true_iff.mp plain).1
      exact fun same => first.1 (Option.some.inj same)
  balanced := balancedPlain plain

theorem enclosableNothing : Enclosable [] := enclosablePlain rfl

theorem enclosableNames (names : ∀ c ∈ text, isNameChar c = true) : Enclosable text := by
  refine enclosablePlain (List.all_eq_true.mpr fun c mem => inertSign.mpr ?_)
  have ordinary := nameOrdinary (names c mem)
  exact ⟨ordinary.minus, ordinary.opening, ordinary.closing⟩

theorem balancedArrow (behind : Balanced rest) : Balanced ('-' :: '>' :: ' ' :: rest) :=
  .arrow (.sign (by decide) (by decide) (by decide) behind)

theorem enclosableQualifiers (q : Qualifiers) : Enclosable q.text.toList := by
  obtain ⟨isConst, isVolatile, isRestrict⟩ := q
  cases isConst <;> cases isVolatile <;> cases isRestrict <;> exact enclosablePlain (by decide)

theorem enclosableIndirection (kind : Indirection) : Enclosable kind.text.toList := by
  cases kind <;> exact enclosablePlain (by decide)

theorem enclosableRefQualifier (kind : RefQualifier) : Enclosable kind.text.toList := by
  cases kind <;> exact enclosablePlain (by decide)

theorem enclosableMarker (m : Marker) : Enclosable m.text.toList :=
  enclosableNames (legibleMarker m).names

theorem enclosableSpecial (kind : SpecialKind) : Enclosable (kind.text "").toList := by
  cases kind with
  | vtable => exact enclosablePlain (by decide)
  | completeObjectLocator => exact enclosablePlain (by decide)
  | typeInfo => exact enclosableAt (by decide) (.back (balancedPlain (by decide)))
  | typeInfoName => exact enclosableAt (by decide) (.back (balancedPlain (by decide)))

end Texts

mutual

theorem typeEnclosable (t : Ty) (searchable : ∀ w ∈ t.words, w.Searchable) :
    Enclosable t.text.toList := by
  match t with
  | .skipped => exact enclosableMarker .skippedType
  | .special tag =>
    have legible : Legible tag.toList := searchable _ List.mem_cons_self
    rw [Ty.text, String.toList_append]
    exact enclosableAppend (enclosablePlain (by decide)) (enclosableNames legible.names)
  | .named name => exact nameEnclosable name searchable
  | .qualified child quals =>
    rw [Ty.words, List.forall_mem_append] at searchable
    rw [Ty.text, String.toList_append]
    exact enclosableAppend (enclosableQualifiers quals) (typeEnclosable child searchable.2)
  | .indirect child kind =>
    rw [Ty.text, String.toList_append]
    exact enclosableAppend (enclosableIndirection kind) (typeEnclosable child searchable)
  | .function signature => exact signatureEnclosable signature searchable
  | .nested entity => exact entityEnclosable entity searchable

theorem nameEnclosable (name : Name) (searchable : ∀ w ∈ name.words, w.Searchable) :
    Enclosable name.text.toList := by
  match name with
  | ⟨[]⟩ => exact enclosableNothing
  | ⟨p :: ps⟩ =>
    rw [Name.words, Piece.allWords, List.forall_mem_append] at searchable
    rw [Name.text, piecesText]
    exact enclosableAppend (pieceEnclosable p searchable.1) (piecesEnclosable ps searchable.2)

theorem piecesEnclosable (ps : List Piece)
    (searchable : ∀ w ∈ Piece.allWords ps, w.Searchable) : Enclosable (Piece.behind ps) := by
  match ps with
  | [] => exact enclosableNothing
  | p :: ps =>
    rw [Piece.allWords, List.forall_mem_append] at searchable
    refine enclosableAt (by decide) (.sign (by decide) (by decide) (by decide) ?_)
    exact balancedAppend (pieceEnclosable p searchable.1).balanced
      (piecesEnclosable ps searchable.2).balanced

theorem pieceEnclosable (p : Piece) (searchable : ∀ w ∈ p.words, w.Searchable) :
    Enclosable p.text.toList := by
  match p with
  | ⟨spelling, args⟩ =>
    rw [Piece.words, List.forall_mem_cons] at searchable
    rw [Piece.text, String.toList_append]
    exact enclosableAppend (enclosableNames searchable.1.1.names)
      (argsEnclosable args searchable.2)

theorem argsEnclosable (args : Option (List Ty))
    (searchable : ∀ w ∈ Piece.argsWords args, w.Searchable) :
    Enclosable (Piece.argsText args).toList := by
  match args with
  | none => exact enclosableNothing
  | some args =>
    obtain ⟨apart, balanced⟩ := listEnclosable args searchable
    rw [← List.append_nil (Piece.argsText _).toList, argsText]
    exact ⟨fun same => absurd (Option.some.inj same) (by decide), .nested apart balanced .nothing⟩

theorem listEnclosable (ts : List Ty) (searchable : ∀ w ∈ Ty.allWords ts, w.Searchable) :
    Enclosable (", ".intercalate (Ty.texts ts)).toList := by
  match ts with
  | [] => exact enclosableNothing
  | t :: ts =>
    rw [Ty.allWords, List.forall_mem_append] at searchable
    rw [typesText]
    exact enclosableAppend (typeEnclosable t searchable.1) (typesEnclosable ts searchable.2)

theorem typesEnclosable (ts : List Ty) (searchable : ∀ w ∈ Ty.allWords ts, w.Searchable) :
    Enclosable (Ty.behind ts) := by
  match ts with
  | [] => exact enclosableNothing
  | t :: ts =>
    rw [Ty.allWords, List.forall_mem_append] at searchable
    refine enclosableAt (by decide) (.sign (by decide) (by decide) (by decide) ?_)
    exact balancedAppend (typeEnclosable t searchable.1).balanced
      (typesEnclosable ts searchable.2).balanced

theorem optionEnclosable (unknown : Marker) (type : Option Ty)
    (searchable : ∀ w ∈ Ty.wordsOr unknown type, w.Searchable) :
    Enclosable (Ty.textOr unknown.text type).toList := by
  match type with
  | none => exact enclosableMarker unknown
  | some t => exact typeEnclosable t searchable

theorem signatureEnclosable (signature : Signature)
    (searchable : ∀ w ∈ signature.words, w.Searchable) : Enclosable signature.text.toList := by
  match signature with
  | ⟨params, ret, quals, refQual⟩ =>
    rw [Signature.words, List.forall_mem_append, List.forall_mem_append] at searchable
    rw [← List.append_nil (Signature.text _).toList, signatureText, List.append_nil]
    have returned := balancedAppend (enclosableRefQualifier refQual).balanced
      (balancedArrow (optionEnclosable .unknownReturn ret searchable.2.2).balanced)
    have qualified := balancedAppend (enclosableQualifiers quals).balanced returned
    exact enclosableAt (by decide) (balancedAppend (listEnclosable params searchable.1).balanced
      (.sign (by decide) (by decide) (by decide)
        (.sign (by decide) (by decide) (by decide) qualified)))

theorem entityEnclosable (entity : LocalEntity)
    (searchable : ∀ w ∈ entity.words, w.Searchable) : Enclosable entity.text.toList := by
  match entity with
  | ⟨root, name, type⟩ =>
    rw [LocalEntity.words, List.forall_mem_append, List.forall_mem_append] at searchable
    rw [LocalEntity.text]
    simp only [String.toList_append, List.append_assoc]
    have typed := enclosableAt (c := ' ') (by decide)
      (balancedArrow (optionEnclosable .unknownType type searchable.2.2).balanced)
    have named := enclosableAppend (typeEnclosable name searchable.2.1) typed
    exact enclosableAppend (rootEnclosable root searchable.1)
      (enclosableAppend (enclosablePlain (by decide)) named)

theorem rootEnclosable (root : Root) (searchable : ∀ w ∈ root.words, w.Searchable) :
    Enclosable root.key.toList := by
  match root with
  | .unknown => exact enclosableMarker .skippedRoot
  | .data name type =>
    rw [Root.words, List.forall_mem_append] at searchable
    rw [Root.key]
    simp only [String.toList_append, List.append_assoc]
    exact enclosableAppend (nameEnclosable name searchable.1) (enclosableAt (c := ' ') (by decide)
      (balancedArrow (optionEnclosable .unknownType type searchable.2).balanced))
  | .function name signature =>
    rw [Root.words, List.forall_mem_append] at searchable
    rw [Root.key, String.toList_append]
    exact enclosableAppend (nameEnclosable name searchable.1)
      (signatureEnclosable signature searchable.2)
  | .special kind type =>
    rw [Root.words, List.forall_mem_append] at searchable
    rw [Root.key, specialText]
    exact enclosableAppend (typeEnclosable type searchable.1) (enclosableSpecial kind)
  | .nested entity => exact entityEnclosable entity searchable

end

/-! ### Families of names -/

structure Stem where
  spelling : String
  templated : Bool
  deriving DecidableEq, Repr

namespace Stem

def text (s : Stem) : String := if s.templated then s.spelling ++ " " else s.spelling

def behind (stems : List Stem) : List Char := stems.flatMap fun s => ':' :: ':' :: s.text.toList

theorem joinedText (s : Stem) (stems : List Stem) :
    ("::".intercalate ((s :: stems).map text)).toList = s.text.toList ++ behind stems := by
  induction stems generalizing s with
  | nil => simp [behind]
  | cons t stems ih =>
    rw [List.map_cons, List.map_cons, String.intercalate_cons_cons, ← List.map_cons,
      String.toList_append, ih]
    simp [behind]

end Stem

def Piece.stem (p : Piece) : Stem := ⟨p.spelling, p.args.isSome⟩

def Name.stems (n : Name) : List Stem := n.pieces.map Piece.stem

section Families
variable {p : Piece} {reversed rest : List Char}

theorem blankEnds (reversed : List Char) : endsWithOperator (' ' :: reversed) = false := rfl

theorem familyPiece (searchable : ∀ w ∈ p.words, w.Searchable) (apart : Apart reversed)
    (rest : List Char) : familyFrom 0 reversed (p.text.toList ++ rest) =
        familyFrom 0 (p.stem.text.toList.reverse ++ reversed) rest ∧
      endsWithOperator (p.stem.text.toList.reverse ++ reversed) = false := by
  obtain ⟨spelling, args⟩ := p
  rw [Piece.words, List.forall_mem_cons] at searchable
  obtain ⟨⟨⟨_, names⟩, other⟩, inner⟩ := searchable
  have plain := operatorAtEnd names apart fun same => other (String.toList_inj.mp same)
  rw [Piece.text, String.toList_append, List.append_assoc, familyName names]
  cases args with
  | none => exact ⟨rfl, plain⟩
  | some args =>
    obtain ⟨notMinus, balanced⟩ := listEnclosable args inner
    have stem : (Stem.text ⟨spelling, true⟩).toList.reverse = ' ' :: spelling.toList.reverse := by
      simp [Stem.text]
    rw [argsText, familyArgs notMinus balanced plain, Piece.stem, Option.isSome_some, stem]
    exact ⟨rfl, blankEnds _⟩

theorem colonOrdinary : Ordinary ':' := by constructor <;> decide

theorem familyScope : familyFrom 0 reversed (':' :: ':' :: rest) =
    familyFrom 0 (':' :: ':' :: reversed) rest := by
  have unspelled (reversed rest : List Char) : Unspelled 0 reversed (':' :: rest) :=
    fun _ _ => (spellingNone (by decide)).mpr rfl
  rw [familyCopied colonOrdinary (unspelled _ _), familyCopied colonOrdinary (unspelled _ _)]

theorem familyPieces {ps : List Piece} (searchable : ∀ w ∈ Piece.allWords ps, w.Searchable)
    (plain : endsWithOperator reversed = false) :
    familyFrom 0 reversed (Piece.behind ps ++ '(' :: rest) =
      (Stem.behind (ps.map Piece.stem)).reverse ++ reversed := by
  induction ps generalizing reversed with
  | nil =>
    refine familyEnded fun _ word => ?_
    rw [plain] at word
    cases word
  | cons p ps ih =>
    rw [Piece.allWords, List.forall_mem_append] at searchable
    have apart : Apart (':' :: ':' :: reversed) := apartAt (by decide) _
    obtain ⟨first, plain⟩ := familyPiece searchable.1 apart (Piece.behind ps ++ '(' :: rest)
    have text : Piece.behind (p :: ps) ++ '(' :: rest =
        ':' :: ':' :: (p.text.toList ++ (Piece.behind ps ++ '(' :: rest)) := by
      simp [Piece.behind]
    rw [text, familyScope, first, ih searchable.2 plain]
    simp [Stem.behind]

theorem signatureOpens (f : Signature) : ∃ more, f.text.toList = '(' :: more := by
  obtain ⟨params, ret, quals, refQual⟩ := f
  exact ⟨_, by simpa using signatureText [] params ret quals refQual⟩

theorem familyOfName {n : Name} (searchable : ∀ w ∈ n.words, w.Searchable) (rest : List Char) :
    familyFrom 0 [] (n.text.toList ++ '(' :: rest) =
      ("::".intercalate (n.stems.map Stem.text)).toList.reverse := by
  obtain ⟨pieces⟩ := n
  cases pieces with
  | nil =>
    have none : ∀ w ∈ Piece.allWords [], w.Searchable := fun w mem => nomatch mem
    exact familyPieces none rfl
  | cons p ps =>
    rw [Name.words, Piece.allWords, List.forall_mem_append] at searchable
    obtain ⟨first, plain⟩ := familyPiece searchable.1 apartNothing
      (Piece.behind ps ++ '(' :: rest)
    rw [Name.text, piecesText, List.append_assoc, first, familyPieces searchable.2 plain,
      Name.stems, List.map_cons, Stem.joinedText, List.append_nil, List.reverse_append]

theorem familyOfFunction {n : Name} (searchable : ∀ w ∈ n.words, w.Searchable) (f : Signature) :
    family (Root.function n f).key = "::".intercalate (n.stems.map Stem.text) := by
  obtain ⟨more, parameters⟩ := signatureOpens f
  rw [family, Root.key, String.toList_append, parameters, familyOfName searchable,
    List.reverse_reverse, String.ofList_toList]

end Families

/-! ### Names of one family -/

namespace Stem
variable {s t : Stem} {rest rest' : List Char}

def IsLegible (s : Stem) : Prop := Legible s.spelling.toList

def mark (s : Stem) : List Char := if s.templated then [' '] else []

theorem textMarked (s : Stem) : s.text.toList = s.spelling.toList ++ s.mark := by
  obtain ⟨spelling, templated⟩ := s
  cases templated <;> simp [text, mark]

def Ends (rest : List Char) : Prop := ∀ c ∈ rest.head?, c = ':'

theorem endsBehind (stems : List Stem) : Ends (behind stems) := by
  intro c first
  cases stems with
  | nil => cases first
  | cons s stems =>
    cases first
    rfl

theorem apartMarked (s : Stem) (ends : Ends rest) : Apart (s.mark ++ rest) := by
  obtain ⟨spelling, templated⟩ := s
  cases templated with
  | true => exact apartAt (by decide) _
  | false =>
    intro c first
    rw [ends c first]
    decide

theorem markUnique (ends : Ends rest) (ends' : Ends rest')
    (same : s.mark ++ rest = t.mark ++ rest') : s.templated = t.templated ∧ rest = rest' := by
  obtain ⟨spelling, templated⟩ := s
  obtain ⟨spelling', templated'⟩ := t
  have apart {rest more : List Char} (ends : Ends rest) : rest ≠ ' ' :: more := by
    rintro rfl
    exact absurd (ends ' ' rfl) (by decide)
  cases templated with
  | true =>
    cases templated' with
    | true => exact ⟨rfl, (List.cons.inj same).2⟩
    | false => exact absurd same.symm (apart ends')
  | false =>
    cases templated' with
    | true => exact absurd same (apart ends)
    | false => exact ⟨rfl, same⟩

theorem stemUnique (legible : s.IsLegible) (legible' : t.IsLegible) (ends : Ends rest)
    (ends' : Ends rest') (same : s.text.toList ++ rest = t.text.toList ++ rest') :
    s = t ∧ rest = rest' := by
  rw [textMarked, textMarked, List.append_assoc, List.append_assoc] at same
  have taken := congrArg (List.takeWhile isNameChar) same
  rw [(Scanner.takeStretch legible.names (apartMarked s ends)).1,
    (Scanner.takeStretch legible'.names (apartMarked t ends')).1] at taken
  rw [taken] at same
  obtain ⟨marks, rests⟩ := markUnique ends ends' (List.append_cancel_left same)
  obtain ⟨spelling, templated⟩ := s
  obtain ⟨spelling', templated'⟩ := t
  cases String.toList_inj.mp taken
  cases marks
  exact ⟨rfl, rests⟩

theorem behindUnique {ss ts : List Stem} (legible : ∀ s ∈ ss, s.IsLegible)
    (legible' : ∀ t ∈ ts, t.IsLegible) (same : behind ss = behind ts) : ss = ts := by
  induction ss generalizing ts with
  | nil =>
    cases ts with
    | nil => rfl
    | cons t ts => cases same
  | cons s ss ih =>
    cases ts with
    | nil => cases same
    | cons t ts =>
      rw [List.forall_mem_cons] at legible legible'
      obtain ⟨stems, rests⟩ := stemUnique legible.1 legible'.1 (endsBehind ss) (endsBehind ts)
        (List.cons.inj (List.cons.inj same).2).2
      rw [stems, ih legible.2 legible'.2 rests]

theorem textNotEmpty (legible : s.IsLegible) (rest : List Char) : s.text.toList ++ rest ≠ [] := by
  rw [textMarked, List.append_assoc]
  exact List.append_ne_nil_of_left_ne_nil legible.some _

theorem joinedUnique {ss ts : List Stem} (legible : ∀ s ∈ ss, s.IsLegible)
    (legible' : ∀ t ∈ ts, t.IsLegible)
    (same : "::".intercalate (ss.map text) = "::".intercalate (ts.map text)) : ss = ts := by
  have chars := congrArg String.toList same
  cases ss with
  | nil =>
    cases ts with
    | nil => rfl
    | cons t ts =>
      rw [joinedText] at chars
      exact absurd chars.symm (textNotEmpty (legible' t List.mem_cons_self) _)
  | cons s ss =>
    cases ts with
    | nil =>
      rw [joinedText] at chars
      exact absurd chars (textNotEmpty (legible s List.mem_cons_self) _)
    | cons t ts =>
      rw [joinedText, joinedText] at chars
      rw [List.forall_mem_cons] at legible legible'
      obtain ⟨stems, rests⟩ := stemUnique legible.1 legible'.1 (endsBehind ss) (endsBehind ts) chars
      rw [stems, behindUnique legible.2 legible'.2 rests]

end Stem

theorem stemsLegible {n : Name} (searchable : ∀ w ∈ n.words, w.Searchable) :
    ∀ s ∈ n.stems, s.IsLegible := by
  obtain ⟨pieces⟩ := n
  rw [Name.words] at searchable
  rw [Name.stems]
  induction pieces with
  | nil => exact fun s mem => nomatch mem
  | cons p ps ih =>
    obtain ⟨spelling, args⟩ := p
    rw [Piece.allWords, Piece.words, List.forall_mem_append, List.forall_mem_cons] at searchable
    exact List.forall_mem_cons.mpr ⟨searchable.1.1.1, ih searchable.2⟩

/- The family of a function is its name with a blank in the place of each template argument list. So
functions are of one family if their names have the same pieces, of which the same ones are template
specializations, whatever the arguments and signatures. -/
theorem familiesGroupByStems {n m : Name} (searchable : ∀ w ∈ n.words, w.Searchable)
    (searchable' : ∀ w ∈ m.words, w.Searchable) (f g : Signature) :
    family (Root.function n f).key = "::".intercalate (n.stems.map Stem.text) ∧
      (family (Root.function n f).key = family (Root.function m g).key ↔ n.stems = m.stems) := by
  have first := familyOfFunction searchable f
  refine ⟨first, ?_⟩
  rw [first, familyOfFunction searchable' g]
  refine ⟨Stem.joinedUnique (stemsLegible searchable) (stemsLegible searchable'), fun same => ?_⟩
  rw [same]

def pushBack (element : Ty) : Name :=
  ⟨[.plain "std", .template "vector" [element], .plain "push_back"]⟩

theorem vectorsOfOneFamily :
    let table : Ty := .named ⟨[.plain "ns", .template "Table" [.special "T0"]]⟩
    let callback : Ty :=
      .function ⟨[.indirect table .pointer], some (.simple "int"), .none, .none⟩
    let inner : Ty := .nested ⟨.special .typeInfo (.simple "A"), .simple "x", none⟩
    let f : Signature := ⟨[.indirect callback .reference], none, .none, .none⟩
    let g : Signature := ⟨[], some inner, ⟨true, false, false⟩, .rvalue⟩
    (∀ w ∈ (pushBack callback).words, w.Searchable) ∧ (∀ w ∈ (pushBack inner).words, w.Searchable) ∧
      family (Root.function (pushBack callback) f).key = "std::vector ::push_back" ∧
      family (Root.function (pushBack callback) f).key =
        family (Root.function (pushBack inner) g).key := by
  intro table callback inner f g
  have searchable : ∀ w ∈ (pushBack callback).words, w.Searchable := by decide +kernel
  have searchable' : ∀ w ∈ (pushBack inner).words, w.Searchable := by decide +kernel
  obtain ⟨text, same⟩ := familiesGroupByStems searchable searchable' f g
  exact ⟨searchable, searchable', text.trans (by decide +kernel), same.mpr rfl⟩

end CxxSymbols.Canonical
