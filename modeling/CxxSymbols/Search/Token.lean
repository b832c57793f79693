/-!
The words of a canonical key. A run of name characters is a token, with the segments that its
letter case, digits and underscores cut it into behind it; a run that begins with `$` is a
placeholder and stays whole. `::` is a token, and so is an operator with its punctuation.
-/
namespace CxxSymbols.Search

structure Token where
  text : String
  start : Nat
  stop : Nat
  deriving DecidableEq, Repr, Inhabited

def isNameChar (c : Char) : Bool := c.isAlphanum || c = '_' || c = '$'

def isPunctuation (c : Char) : Bool :=
  let n := c.toNat
  (33 ≤ n && n ≤ 47) || (58 ≤ n && n ≤ 64) || (91 ≤ n && n ≤ 96) || (123 ≤ n && n ≤ 126)

def operatorWord : List Char := ['o', 'p', 'e', 'r', 'a', 't', 'o', 'r']

/- The punctuation that names an operator, where it stands behind the word: `()`, or all up to a
parenthesis or blank. -/
def operatorSpelling? : List Char → Option (List Char)
  | '(' :: ')' :: _ => some ['(', ')']
  | c :: rest =>
    if isPunctuation c && c ≠ '(' && c ≠ ':' && c ≠ '_' && c ≠ '$'
    then some (c :: rest.takeWhile fun x => x ≠ '(' && x ≠ ' ') else none
  | [] => none

def widthOf : List Char → Nat
  | [] => 0
  | c :: cs => c.utf8Size + widthOf cs

def Token.at (start : Nat) (cs : List Char) : Token :=
  ⟨String.ofList cs, start, start + widthOf cs⟩

def beginsAfter (before c : Char) : Bool :=
  (c.isUpper && !before.isUpper) || (c.isDigit && !before.isDigit)

def closeSegment (stop : Nat) (segment : List Char) : List (Nat × List Char) :=
  if segment.isEmpty then [] else [(stop - segment.length, segment.reverse)]

def segmentsFrom (place : Nat) (before : Option Char) (segment : List Char) :
    List Char → List (Nat × List Char)
  | [] => closeSegment place segment
  | c :: rest =>
    if c = '_' then closeSegment place segment ++ segmentsFrom (place + 1) (some c) [] rest
    else if before.any (beginsAfter · c) then
      closeSegment place segment ++ segmentsFrom (place + 1) (some c) [c] rest
    else segmentsFrom (place + 1) (some c) (c :: segment) rest

def segments (run : List Char) : List (Nat × List Char) :=
  if run.head? = some '$' then [] else segmentsFrom 0 none [] run

def runTokens (start : Nat) (run : List Char) : List Token :=
  let parts := segments run
  .at start run ::
    (if 1 < parts.length then parts.map fun (place, segment) => .at (start + place) segment else [])

theorem dropWhileNoLonger {α : Type} (test : α → Bool) (xs : List α) :
    (xs.dropWhile test).length ≤ xs.length :=
  (List.dropWhile_sublist test).length_le

def tokenizeAt (start : Nat) (cs : List Char) : List Token :=
  match cs with
  | [] => []
  | ':' :: ':' :: rest => .at start [':', ':'] :: tokenizeAt (start + 2) rest
  | c :: rest =>
    if isNameChar c then
      let run := c :: rest.takeWhile isNameChar
      let behind := rest.dropWhile isNameChar
      match if run = operatorWord then operatorSpelling? behind else none with
      | some spelling =>
        let token := run ++ spelling
        .at start token :: tokenizeAt (start + widthOf token) (behind.drop spelling.length)
      | none => runTokens start run ++ tokenizeAt (start + widthOf run) behind
    else tokenizeAt (start + c.utf8Size) rest
termination_by cs.length
decreasing_by
  all_goals simp only [List.length_cons, List.length_drop]
  all_goals have := dropWhileNoLonger isNameChar rest
  all_goals omega

def tokenize (text : String) : List Token := tokenizeAt 0 text.toList

end CxxSymbols.Search
