import CxxSymbols.Proofs.Canonical.Unique
import CxxSymbols.Proofs.Search.Runs
/-! The words of a key, in the order in which they are printed: the identifiers of names, at any
depth, and the words that the printer has for what is no name. Whatever it prints between them is no
name character, so the words are the runs of the key, and every identifier is found by a search. -/
namespace CxxSymbols.Canonical
open Search (Apart Legible apartAt apartNothing isNameChar runs runsAppend runsLegible runsNothing
  runsOther runsWord)

inductive Marker where
  | isConst
  | isVolatile
  | isRestrict
  | unknownReturn
  | unknownType
  | skippedType
  | skippedRoot
  | vtable
  | completeObjectLocator
  | typeInfo
  | typeInfoName
  deriving DecidableEq, Repr

def Marker.text : Marker → String
  | isConst => "const"
  | isVolatile => "volatile"
  | isRestrict => "restrict"
  | unknownReturn => "unknown"
  | unknownType => "$unknown"
  | skippedType => "$SKIP_TYPE"
  | skippedRoot => "$SKIP_ROOT"
  | vtable => "$vtable"
  | completeObjectLocator => "$complete_object_locator"
  | typeInfo => "$type_info"
  | typeInfoName => "$type_info_name"

inductive Word where
  | identifier (spelling : String)
  | tag (name : String)
  | marker (marker : Marker)
  deriving DecidableEq, Repr

namespace Word

def chars : Word → List Char
  | identifier spelling => spelling.toList
  | tag name => '$' :: '$' :: name.toList
  | marker m => m.text.toList

/- The word can be told from what stands around it, and is not the one for an operator, which may
take punctuation behind it along. -/
def Searchable : Word → Prop
  | identifier spelling => Legible spelling.toList ∧ spelling ≠ "operator"
  | tag name => Legible name.toList
  | marker _ => True

instance (w : Word) : Decidable w.Searchable :=
  match w with
  | identifier spelling =>
    inferInstanceAs (Decidable (Legible spelling.toList ∧ spelling ≠ "operator"))
  | tag name => inferInstanceAs (Decidable (Legible name.toList))
  | marker _ => inferInstanceAs (Decidable True)

end Word

/-! ### The words of a tree -/

def Qualifiers.words (q : Qualifiers) : List Word :=
  (if q.isConst then [.marker .isConst] else []) ++
    (if q.isVolatile then [.marker .isVolatile] else []) ++
    (if q.isRestrict then [.marker .isRestrict] else [])

def SpecialKind.word : SpecialKind → Word
  | vtable => .marker .vtable
  | completeObjectLocator => .marker .completeObjectLocator
  | typeInfo => .marker .typeInfo
  | typeInfoName => .marker .typeInfoName

mutual

def Ty.words : Ty → List Word
  | .skipped => [.marker .skippedType]
  | .special tag => [.tag tag]
  | .named name => name.words
  | .qualified child quals => quals.words ++ child.words
  | .indirect child _ => child.words
  | .function signature => signature.words
  | .nested entity => entity.words

def Name.words : Name → List Word
  | ⟨pieces⟩ => Piece.allWords pieces

def Piece.allWords : List Piece → List Word
  | [] => []
  | p :: rest => p.words ++ Piece.allWords rest

def Piece.words : Piece → List Word
  | ⟨spelling, args⟩ => .identifier spelling :: Piece.argsWords args

def Piece.argsWords : Option (List Ty) → List Word
  | none => []
  | some args => Ty.allWords args

def Ty.allWords : List Ty → List Word
  | [] => []
  | t :: rest => t.words ++ Ty.allWords rest

def Ty.wordsOr (unknown : Marker) : Option Ty → List Word
  | none => [.marker unknown]
  | some t => t.words

def Signature.words : Signature → List Word
  | ⟨params, ret, quals, _⟩ =>
    Ty.allWords params ++ (quals.words ++ Ty.wordsOr .unknownReturn ret)

def LocalEntity.words : LocalEntity → List Word
  | ⟨root, name, type⟩ => root.words ++ (name.words ++ Ty.wordsOr .unknownType type)

def Root.words : Root → List Word
  | .unknown => [.marker .skippedRoot]
  | .data name type => name.words ++ Ty.wordsOr .unknownType type
  | .function name signature => name.words ++ signature.words
  | .special kind type => type.words ++ [kind.word]
  | .nested entity => entity.words

end

/-! ### Texts and their runs -/

def Runs (text : List Char) (words : List Word) : Prop :=
  (∀ w ∈ words, w.Searchable) → runs text = words.map Word.chars

section Runs
variable {text rest : List Char} {words more : List Word}

theorem legibleMarker (m : Marker) : Legible m.text.toList := by
  cases m <;> decide

theorem wordsAppend (first : Runs text words) (second : Runs rest more) (apart : Apart rest) :
    Runs (text ++ rest) (words ++ more) := by
  intro searchable
  obtain ⟨left, right⟩ := List.forall_mem_append.mp searchable
  rw [runsAppend apart, first left, second right, List.map_append]

theorem wordsBehind {c : Char} (other : isNameChar c = false) (behind : Runs rest more) :
    Runs (c :: rest) more := by
  intro searchable
  rw [runsOther other, behind searchable]

theorem wordsBetween {c : Char} (first : Runs text words) (other : isNameChar c = false)
    (behind : Runs rest more) : Runs (text ++ c :: rest) (words ++ more) :=
  wordsAppend first (wordsBehind other behind) (apartAt other rest)

theorem wordsMarker (m : Marker) : Runs m.text.toList [.marker m] :=
  fun _ => runsLegible (legibleMarker m)

theorem wordsNothing : Runs [] [] := fun _ => runsNothing

theorem wordsIdentifier (spelling : String) : Runs spelling.toList [.identifier spelling] :=
  fun searchable => runsLegible (searchable _ List.mem_cons_self).1

theorem wordsTag (name : String) : Runs ('$' :: '$' :: name.toList) [.tag name] := by
  intro searchable
  have legible : Legible name.toList := searchable _ List.mem_cons_self
  refine runsLegible ⟨List.cons_ne_nil _ _, fun c mem => ?_⟩
  rcases List.mem_cons.mp mem with rfl | mem
  · decide
  · rcases List.mem_cons.mp mem with rfl | mem
    · decide
    · exact legible.names c mem

theorem wordsOptional (present : Bool) (m : Marker) (behind : Runs rest more) :
    Runs (optional present (m.text ++ " ") ++ rest)
      ((if present then [.marker m] else []) ++ more) := by
  cases present with
  | false => exact behind
  | true =>
    simp only [optional, if_true, String.toList_append, List.append_assoc]
    exact wordsBetween (wordsMarker m) (by decide) behind

theorem wordsQualifiers (q : Qualifiers) (behind : Runs rest more) :
    Runs (q.text.toList ++ rest) (q.words ++ more) := by
  rw [qualifiersText, Qualifiers.words]
  simp only [List.append_assoc]
  exact wordsOptional _ .isConst (wordsOptional _ .isVolatile (wordsOptional _ .isRestrict behind))

theorem wordsIndirection (kind : Indirection) (behind : Runs rest more) :
    Runs (kind.text.toList ++ rest) more := by
  cases kind with
  | pointer => exact wordsBehind (by decide) (wordsBehind (by decide) behind)
  | reference => exact wordsBehind (by decide) (wordsBehind (by decide) behind)
  | rvalueReference =>
    exact wordsBehind (by decide) (wordsBehind (by decide) (wordsBehind (by decide) behind))

theorem wordsRefQualifier (kind : RefQualifier) (behind : Runs rest more) :
    Runs (kind.text.toList ++ rest) more := by
  cases kind with
  | none => exact behind
  | lvalue => exact wordsIndirection .reference behind
  | rvalue => exact wordsIndirection .rvalueReference behind

theorem wordsArrow (behind : Runs rest more) : Runs ('-' :: '>' :: ' ' :: rest) more :=
  wordsBehind (by decide) (wordsBehind (by decide) (wordsBehind (by decide) behind))

theorem wordsSpecial (kind : SpecialKind) (first : Runs text words) :
    Runs (text ++ (kind.text "").toList) (words ++ [kind.word]) := by
  cases kind with
  | vtable => exact wordsBetween first (by decide) (wordsBehind (by decide) (wordsMarker .vtable))
  | completeObjectLocator =>
    exact wordsBetween first (by decide) (wordsBehind (by decide)
      (wordsMarker .completeObjectLocator))
  | typeInfo =>
    exact wordsBetween first (by decide) (wordsBehind (by decide) (wordsBehind (by decide)
      (wordsBehind (by decide) (wordsMarker .typeInfo))))
  | typeInfoName =>
    exact wordsBetween first (by decide) (wordsBehind (by decide) (wordsBehind (by decide)
      (wordsBehind (by decide) (wordsMarker .typeInfoName))))

theorem specialText (kind : SpecialKind) (type : String) :
    (kind.text type).toList = type.toList ++ (kind.text "").toList := by
  cases kind <;> simp [SpecialKind.text]

theorem apartBehind (ts : List Ty) : Apart (Ty.behind ts) := by
  cases ts with
  | nil => exact apartNothing
  | cons t ts => exact apartAt (by decide) _

theorem apartPieces (ps : List Piece) : Apart (Piece.behind ps) := by
  cases ps with
  | nil => exact apartNothing
  | cons p ps => exact apartAt (by decide) _

theorem apartSignature (signature : Signature) : Apart signature.text.toList := by
  obtain ⟨params, ret, quals, refQual⟩ := signature
  rw [← List.append_nil (Signature.text _).toList, signatureText]
  exact apartAt (by decide) _

end Runs

/-! ### Keys -/

mutual

theorem typeWords (t : Ty) : Runs t.text.toList t.words := by
  match t with
  | .skipped => exact wordsMarker .skippedType
  | .special tag =>
    rw [Ty.text, String.toList_append]
    exact wordsTag tag
  | .named name => exact nameWords name
  | .qualified child quals =>
    rw [Ty.text, String.toList_append]
    exact wordsQualifiers quals (typeWords child)
  | .indirect child kind =>
    rw [Ty.text, String.toList_append]
    exact wordsIndirection kind (typeWords child)
  | .function signature => exact signatureWords signature
  | .nested entity => exact entityWords entity

theorem nameWords (name : Name) : Runs name.text.toList name.words := by
  match name with
  | ⟨[]⟩ => exact wordsNothing
  | ⟨p :: ps⟩ =>
    rw [Name.text, piecesText]
    exact wordsAppend (pieceWords p) (piecesWords ps) (apartPieces ps)

theorem piecesWords (ps : List Piece) : Runs (Piece.behind ps) (Piece.allWords ps) := by
  match ps with
  | [] => exact wordsNothing
  | p :: ps =>
    exact wordsBehind (by decide) (wordsBehind (by decide)
      (wordsAppend (pieceWords p) (piecesWords ps) (apartPieces ps)))

theorem pieceWords (p : Piece) : Runs p.text.toList p.words := by
  match p with
  | ⟨spelling, none⟩ =>
    rw [Piece.text, Piece.argsText, String.append_empty]
    exact wordsIdentifier spelling
  | ⟨spelling, some args⟩ =>
    rw [Piece.text, String.toList_append, ← List.append_nil (Piece.argsText _).toList, argsText]
    have closed := wordsBetween (listWords args) (c := '>') (by decide) wordsNothing
    rw [List.append_nil] at closed
    exact wordsBetween (wordsIdentifier spelling) (by decide) closed

theorem typesWords (ts : List Ty) : Runs (Ty.behind ts) (Ty.allWords ts) := by
  match ts with
  | [] => exact wordsNothing
  | t :: ts =>
    exact wordsBehind (by decide) (wordsBehind (by decide)
      (wordsAppend (typeWords t) (typesWords ts) (apartBehind ts)))

theorem listWords (ts : List Ty) :
    Runs (", ".intercalate (Ty.texts ts)).toList (Ty.allWords ts) := by
  match ts with
  | [] => exact wordsNothing
  | t :: ts =>
    rw [typesText]
    exact wordsAppend (typeWords t) (typesWords ts) (apartBehind ts)

theorem optionWords (unknown : Marker) (type : Option Ty) :
    Runs (Ty.textOr unknown.text type).toList (Ty.wordsOr unknown type) := by
  match type with
  | none => exact wordsMarker unknown
  | some t => exact typeWords t

theorem signatureWords (signature : Signature) : Runs signature.text.toList signature.words := by
  match signature with
  | ⟨params, ret, quals, refQual⟩ =>
    rw [← List.append_nil (Signature.text _).toList, signatureText, List.append_nil]
    have behind := wordsRefQualifier refQual (wordsArrow (optionWords .unknownReturn ret))
    exact wordsBehind (by decide) (wordsBetween (listWords params) (by decide)
      (wordsBehind (by decide) (wordsQualifiers quals behind)))

theorem entityWords (entity : LocalEntity) : Runs entity.text.toList entity.words := by
  match entity with
  | ⟨root, name, type⟩ =>
    rw [LocalEntity.text]
    simp only [String.toList_append, List.append_assoc]
    have typed := wordsBetween (c := ' ') (typeWords name) (by decide)
      (wordsArrow (optionWords .unknownType type))
    exact wordsBetween (rootWords root) (by decide)
      (wordsBehind (by decide) (wordsBehind (by decide) typed))

theorem rootWords (root : Root) : Runs root.key.toList root.words := by
  match root with
  | .unknown => exact wordsMarker .skippedRoot
  | .data name type =>
    rw [Root.key]
    simp only [String.toList_append, List.append_assoc]
    exact wordsBetween (nameWords name) (by decide) (wordsArrow (optionWords .unknownType type))
  | .function name signature =>
    rw [Root.key, String.toList_append]
    exact wordsAppend (nameWords name) (signatureWords signature) (apartSignature signature)
  | .special kind type =>
    rw [Root.key, specialText]
    exact wordsSpecial kind (typeWords type)
  | .nested entity => exact entityWords entity

end

theorem operatorApart {w : Word} (searchable : w.Searchable) : w.chars ≠ Search.operatorWord := by
  cases w with
  | identifier spelling =>
    intro same
    exact searchable.2 (String.toList_inj.mp same)
  | tag name =>
    intro same
    cases same
  | marker m => cases m <;> decide

theorem identifiersSearchable {root : Root} (searchable : ∀ w ∈ root.words, w.Searchable)
    {spelling : String} (spelled : .identifier spelling ∈ root.words) :
    (∃ t ∈ Search.tokenize root.key, t.text = spelling) ∧
      ∀ (keys : List String) (place : Nat), keys[place]? = some root.key →
        place ∈ (Search.Index.build keys).query spelling := by
  have cut := rootWords root searchable
  have held : spelling.toList ∈ runs root.key.toList := by
    rw [cut]
    exact List.mem_map_of_mem spelled
  have plain : Search.operatorWord ∉ runs root.key.toList := by
    rw [cut]
    intro mem
    obtain ⟨w, inside, same⟩ := List.mem_map.mp mem
    exact operatorApart (searchable w inside) same
  exact Search.runFound (searchable _ spelled).1 held plain

def lastHit : Root :=
  let key : Ty := .simple "Key"
  let arguments : List Ty :=
    [.special "T0", .qualified (.indirect key .pointer) ⟨true, false, false⟩]
  .nested ⟨.function ⟨[.plain "ns", .template "Table" arguments]⟩ ⟨[key], none, .none, .lvalue⟩,
    .simple "last_hit2", none⟩

theorem lastHitSearchable :
    (∃ t ∈ Search.tokenize lastHit.key, t.text = "last_hit2") ∧
      1 ∈ (Search.Index.build ["Key", lastHit.key]).query "last_hit2" ∧
      1 ∈ (Search.Index.build ["Key", lastHit.key]).query "Key" := by
  have searchable : ∀ w ∈ lastHit.words, w.Searchable := by decide +kernel
  obtain ⟨token, found⟩ := identifiersSearchable searchable
    (by decide +kernel : .identifier "last_hit2" ∈ lastHit.words)
  exact ⟨token, found _ 1 rfl, (identifiersSearchable searchable
    (by decide +kernel : .identifier "Key" ∈ lastHit.words)).2 _ 1 rfl⟩

end CxxSymbols.Canonical
