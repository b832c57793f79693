import CxxSymbols.Canonical.Key
import CxxSymbols.Proofs.Text.Scanner
/-! How printed types begin and end. The core of the model is what has no expressions, no local
entities and only plain identifiers; there the first word or sign of a text tells what kind of type
it is, and what may follow a type cannot be taken for more of it. -/
namespace CxxSymbols.Canonical

/-! ### Words -/

def inWord (c : Char) : Bool := c.isAlphanum || c = '_'

def isWord (s : String) : Bool := s.toList.all inWord

def reserved : List String := ["const", "volatile", "restrict", "unknown"]

def isIdentifier (s : String) : Bool := s ≠ "" && isWord s && !reserved.contains s

def Stops (text : List Char) : Prop := ∀ c ∈ text.head?, inWord c = false

theorem wordTaken {word rest : List Char} (all : word.all inWord = true) (stops : Stops rest) :
    (word ++ rest).takeWhile inWord = word :=
  (Scanner.takeStretch (List.all_eq_true.mp all) stops).1

theorem wordsUnique {word word' rest rest' : List Char} (all : word.all inWord = true)
    (all' : word'.all inWord = true) (stops : Stops rest) (stops' : Stops rest')
    (same : word ++ rest = word' ++ rest') : word = word' ∧ rest = rest' := by
  have words : word = word' := by
    rw [← wordTaken all stops, same, wordTaken all' stops']
  subst words
  exact ⟨rfl, List.append_cancel_left same⟩

/-! ### The core of the model -/

def Ty.isQualified : Ty → Bool
  | .qualified .. => true
  | _ => false

mutual

def Ty.isCore : Ty → Bool
  | .skipped => true
  | .special tag => isWord tag
  | .named name => name.isCore
  | .qualified child quals => !quals.isEmpty && !child.isQualified && child.isCore
  | .indirect child _ => child.isCore
  | .function signature => signature.isCore
  | .nested _ => false

def Name.isCore : Name → Bool
  | ⟨pieces⟩ => !pieces.isEmpty && Piece.allCore pieces

def Piece.allCore : List Piece → Bool
  | [] => true
  | p :: rest => p.isCore && Piece.allCore rest

def Piece.isCore : Piece → Bool
  | ⟨spelling, args⟩ => isIdentifier spelling && Piece.argsCore args

def Piece.argsCore : Option (List Ty) → Bool
  | none => true
  | some args => Ty.allCore args

def Ty.allCore : List Ty → Bool
  | [] => true
  | t :: rest => t.isCore && Ty.allCore rest

def Ty.optionCore : Option Ty → Bool
  | none => true
  | some t => t.isCore

def Signature.isCore : Signature → Bool
  | ⟨params, ret, _, _⟩ => Ty.allCore params && Ty.optionCore ret

end

def Root.isCore : Root → Bool
  | .unknown => true
  | .data name type => name.isCore && Ty.optionCore type
  | .function name signature => name.isCore && signature.isCore
  | .special _ type => type.isCore
  | .nested _ => false

/-! ### Lists of texts -/

def Ty.behind (ts : List Ty) : List Char := ts.flatMap fun t => ',' :: ' ' :: t.text.toList

def Piece.behind (ps : List Piece) : List Char := ps.flatMap fun p => ':' :: ':' :: p.text.toList

theorem typesText (t : Ty) (ts : List Ty) :
    (", ".intercalate (Ty.texts (t :: ts))).toList = t.text.toList ++ Ty.behind ts := by
  induction ts generalizing t with
  | nil => simp [Ty.texts, Ty.behind]
  | cons u ts ih =>
    rw [Ty.texts, Ty.texts, String.intercalate_cons_cons, ← Ty.texts]
    simp [ih, Ty.behind]

theorem piecesText (p : Piece) (ps : List Piece) :
    ("::".intercalate (Piece.texts (p :: ps))).toList = p.text.toList ++ Piece.behind ps := by
  induction ps generalizing p with
  | nil => simp [Piece.texts, Piece.behind]
  | cons q ps ih =>
    rw [Piece.texts, Piece.texts, String.intercalate_cons_cons, ← Piece.texts]
    simp [ih, Piece.behind]

/-! ### What follows -/

/- What may follow a piece of a name: neither more of its identifier nor template arguments. -/
def EndsPiece (rest : List Char) : Prop := ∀ c ∈ rest.head?, inWord c = false ∧ c ≠ '<'

/- What may follow a type: nothing that may follow a piece of its name either. -/
structure Ends (rest : List Char) : Prop where
  piece : EndsPiece rest
  scope : ∀ {c more}, rest = ':' :: ':' :: c :: more → inWord c = false

theorem endsPieceStops {rest : List Char} (ends : EndsPiece rest) : Stops rest :=
  fun c first => (ends c first).1

theorem endsPieceAt {c : Char} (other : inWord c = false ∧ c ≠ '<') (rest : List Char) :
    EndsPiece (c :: rest) := by
  intro d first
  cases first
  exact other

theorem endsAt {c : Char} (other : inWord c = false ∧ c ≠ '<' ∧ c ≠ ':') (rest : List Char) :
    Ends (c :: rest) := by
  refine ⟨endsPieceAt ⟨other.1, other.2.1⟩ rest, fun shape => ?_⟩
  cases shape
  exact absurd rfl other.2.2

theorem endsNothing : Ends [] := by
  refine ⟨fun c first => ?_, fun shape => ?_⟩
  · cases first
  · cases shape

/-! ### Kinds of texts -/

inductive Form where
  | skipped
  | special
  | named
  | qualified
  | indirect
  | function
  | unknown
  | none
  deriving DecidableEq, Repr

def Form.of (text : List Char) : Form :=
  let word := text.takeWhile inWord
  if word = [] then
    match text with
    | '$' :: '$' :: _ => special
    | '$' :: _ => skipped
    | '*' :: _ | '&' :: _ => indirect
    | '(' :: _ => function
    | _ => none
  else if word = "unknown".toList then unknown
  else if reserved.contains (String.ofList word) then qualified
  else named

def Ty.form : Ty → Form
  | .skipped => .skipped
  | .special _ => .special
  | .named _ => .named
  | .qualified .. => .qualified
  | .indirect .. => .indirect
  | .function _ => .function
  | .nested _ => .none

theorem argsStop (args : Option (List Ty)) {rest : List Char} (ends : EndsPiece rest) :
    Stops ((Piece.argsText args).toList ++ rest) := by
  cases args with
  | none => simpa [Piece.argsText] using endsPieceStops ends
  | some args =>
    intro c first
    simp [Piece.argsText] at first
    subst first
    decide

theorem pieceBegins {p : Piece} (core : p.isCore = true) :
    ∃ c more, p.text.toList = c :: more ∧ inWord c = true := by
  obtain ⟨spelling, args⟩ := p
  simp only [Piece.isCore, isIdentifier, isWord, Bool.and_eq_true, decide_eq_true_eq] at core
  rw [Piece.text, String.toList_append]
  cases chars : spelling.toList with
  | nil => exact absurd (String.toList_eq_nil_iff.mp chars) core.1.1.1
  | cons c more =>
    rw [chars, List.all_cons, Bool.and_eq_true] at core
    exact ⟨c, _, rfl, core.1.1.2.1⟩

theorem formOfPiece {p : Piece} (core : p.isCore = true) {rest : List Char}
    (ends : EndsPiece rest) : Form.of (p.text.toList ++ rest) = .named := by
  obtain ⟨spelling, args⟩ := p
  simp only [Piece.isCore, isIdentifier, Bool.and_eq_true, decide_eq_true_eq] at core
  obtain ⟨⟨⟨some, all⟩, free⟩, _⟩ := core
  have word := wordTaken all (argsStop args ends)
  have present : spelling.toList ≠ [] := by simpa using some
  have apart : ¬spelling.toList = "unknown".toList := by
    intro same
    rw [String.toList_inj.mp same] at free
    exact absurd free (by decide)
  have unreserved : reserved.contains spelling = false := by simpa using free
  rw [Piece.text, String.toList_append, List.append_assoc]
  simp only [Form.of, word, if_neg present, if_neg apart, String.ofList_toList, unreserved,
    Bool.false_eq_true, if_false]

theorem formOfQualified {quals : Qualifiers} (some : quals.isEmpty = false) (rest : List Char) :
    Form.of (quals.text.toList ++ rest) = .qualified := by
  obtain ⟨isConst, isVolatile, isRestrict⟩ := quals
  cases isConst with
  | true => simp [Qualifiers.text, Form.of, reserved, inWord]
  | false =>
    cases isVolatile with
    | true => simp [Qualifiers.text, Form.of, reserved, inWord]
    | false =>
      cases isRestrict with
      | true => simp [Qualifiers.text, Form.of, reserved, inWord]
      | false => cases some

theorem formOfType {t : Ty} (core : t.isCore = true) {rest : List Char} (ends : EndsPiece rest) :
    Form.of (t.text.toList ++ rest) = t.form := by
  cases t with
  | skipped => simp [Ty.text, Form.of, inWord, Ty.form]
  | special tag => simp [Ty.text, Form.of, inWord, Ty.form]
  | named name =>
    obtain ⟨pieces⟩ := name
    simp only [Ty.isCore, Name.isCore, Bool.and_eq_true] at core
    cases pieces with
    | nil => cases core.1
    | cons p ps =>
      simp only [Piece.allCore, Bool.and_eq_true] at core
      rw [Ty.text, Name.text, piecesText, List.append_assoc]
      refine formOfPiece core.2.1 ?_
      cases ps with
      | nil => exact ends
      | cons q ps => exact endsPieceAt (by decide) _
  | qualified child quals =>
    simp only [Ty.isCore, Bool.and_eq_true, Bool.not_eq_true'] at core
    rw [Ty.text, String.toList_append, List.append_assoc]
    exact formOfQualified core.1.1 _
  | indirect child kind => cases kind <;> simp [Ty.text, Indirection.text, Form.of, inWord, Ty.form]
  | function signature =>
    obtain ⟨params, ret, quals, refQual⟩ := signature
    simp [Ty.text, Signature.text, Form.of, inWord, Ty.form]
  | nested entity => cases core

theorem formOfUnknown {rest : List Char} (stops : Stops rest) :
    Form.of ("unknown".toList ++ rest) = .unknown := by
  simp only [Form.of, wordTaken (by decide : "unknown".toList.all inWord = true) stops]
  rfl

end CxxSymbols.Canonical
