import CxxSymbols.Proofs.Search.Tokens
import Mathlib
/-! Texts joined by a blank. To the scan for tokens a blank is what the end of a text is: no piece
goes on over it, and none is told by what stands behind it. So the tokens of the texts stand side by
side, and a query for the joined text finds what the queries for both of them find. -/
namespace CxxSymbols.Search

/-! ### Places -/

def Token.shift (n : Nat) (t : Token) : Token := ⟨t.text, t.start + n, t.stop + n⟩

section Shift
variable {start : Nat} {cs : List Char}

theorem atShift (n start : Nat) (cs : List Char) :
    Token.at (start + n) cs = (Token.at start cs).shift n := by
  simp only [Token.at, Token.shift, Nat.add_right_comm]

theorem runTokensShift (n start : Nat) (run : List Char) :
    runTokens (start + n) run = (runTokens start run).map (Token.shift n) := by
  rw [runTokens, runTokens, List.map_cons, ← atShift]
  split
  · rw [List.map_map]
    refine congrArg _ (List.map_congr_left fun e _ => ?_)
    obtain ⟨place, segment⟩ := e
    exact (congrArg (Token.at · segment) (Nat.add_right_comm start n place)).trans
      (atShift n (start + place) segment)
  · rfl

theorem tokenizeShift (n start : Nat) (cs : List Char) :
    tokenizeAt (start + n) cs = (tokenizeAt start cs).map (Token.shift n) := by
  induction pieced cs generalizing start with
  | nothing => rw [tokenizeNothing, tokenizeNothing, List.map_nil]
  | scope next ih =>
    rw [tokenizeScope, tokenizeScope, List.map_cons, ← atShift, ← ih, Nat.add_right_comm]
  | operator spells next ih =>
    rw [tokenizeOperator spells, tokenizeOperator spells, List.map_cons, ← atShift, ← ih,
      Nat.add_right_comm]
  | run legible apart plain next ih =>
    rw [tokenizeRun legible apart plain, tokenizeRun legible apart plain, List.map_append,
      ← runTokensShift, ← ih, Nat.add_right_comm]
  | gap other single next ih =>
    rw [tokenizeGap other single, tokenizeGap other single, ← ih, Nat.add_right_comm]

end Shift

/-! ### Pieces in front of a blank -/

section Blank
variable {a rest spelling : List Char}

theorem apartBefore (apart : Apart a) (b : List Char) : Apart (a ++ ' ' :: b) := by
  cases a with
  | nil => exact apartAt rfl b
  | cons c a => exact apart

theorem spellsBefore (spells : Spells spelling rest) (b : List Char) :
    Spells spelling (rest ++ ' ' :: b) := by
  cases spells with
  | call => exact .call _
  | sign opens all stops =>
    refine .sign opens all fun c first => ?_
    cases rest with
    | nil =>
      cases first
      rfl
    | cons d rest => exact stops c first

theorem unspelledBefore (missing : operatorSpelling? a = none) (b : List Char) :
    operatorSpelling? (a ++ ' ' :: b) = none := by
  cases a with
  | nil => rfl
  | cons c a =>
    by_cases opening : c = '('
    · obtain rfl := opening
      cases a with
      | nil => rfl
      | cons d a =>
        by_cases closing : d = ')'
        · obtain rfl := closing
          cases missing
        · exact spellingUnpaired closing _
    · exact (spellingNone opening).mpr ((spellingNone opening).mp missing)

theorem tokenizeBlank (start : Nat) (b : List Char) :
    tokenizeAt start (' ' :: b) = tokenizeAt (start + 1) b :=
  tokenizeGap rfl (fun _ colon => absurd colon (by decide)) start

theorem tokenizeJoined (start : Nat) (a b : List Char) : tokenizeAt start (a ++ ' ' :: b) =
    tokenizeAt start a ++ tokenizeAt (start + (widthOf a + 1)) b := by
  induction pieced a generalizing start with
  | nothing =>
    rw [List.nil_append, tokenizeBlank, tokenizeNothing, List.nil_append, widthOf, Nat.zero_add]
  | @scope rest next ih =>
    have width : widthOf (':' :: ':' :: rest) = 2 + widthOf rest := widthOfAppend [':', ':'] rest
    rw [List.cons_append, List.cons_append, tokenizeScope, tokenizeScope, ih, List.cons_append,
      width, Nat.add_assoc 2, Nat.add_assoc start]
  | @operator spelling rest spells next ih =>
    rw [List.append_assoc, tokenizeOperator (spellsBefore spells b), tokenizeOperator spells, ih,
      List.cons_append, widthOfAppend _ rest, Nat.add_assoc (widthOf _), Nat.add_assoc start]
  | run legible apart plain next ih =>
    rw [List.append_assoc, tokenizeRun legible (apartBefore apart b) fun word =>
        unspelledBefore (plain word) b,
      tokenizeRun legible apart plain, ih, List.append_assoc, widthOfAppend,
      Nat.add_assoc (widthOf _), Nat.add_assoc start]
  | @gap c rest other single next ih =>
    have alone : ∀ more, c = ':' → rest ++ ' ' :: b = ':' :: more → False := by
      intro more colon shape
      cases rest with
      | nil => cases shape
      | cons d rest =>
        cases shape
        exact single rest colon rfl
    rw [List.cons_append, tokenizeGap other alone, tokenizeGap other single, ih, widthOf,
      Nat.add_assoc (Char.utf8Size _), Nat.add_assoc start]

end Blank

theorem joinedTokens (a b : String) : tokenize (a ++ " " ++ b) =
    tokenize a ++ (tokenize b).map (Token.shift (a.utf8ByteSize + 1)) := by
  have width : widthOf a.toList = a.utf8ByteSize := by
    rw [widthOfBytes, ← String.utf8ByteSize_ofList, String.ofList_toList]
  have whole : (a ++ " " ++ b).toList = a.toList ++ ' ' :: b.toList := by
    rw [String.toList_append, String.toList_append, List.append_assoc]
    rfl
  rw [tokenize, whole, tokenizeJoined, tokenizeShift, width]
  rfl

/-! ### Queries -/

theorem lowerNothing {text : String} : lowerTokens text = [] ↔ tokenize text = [] :=
  List.map_eq_nil_iff

theorem joinedLower (a b : String) :
    lowerTokens (a ++ " " ++ b) = lowerTokens a ++ lowerTokens b := by
  rw [lowerTokens, joinedTokens, List.map_append, List.map_map]
  rfl

theorem lowerOfWords (words : List String) :
    lowerTokens (" ".intercalate words) = words.flatMap lowerTokens := by
  induction words with
  | nil => exact lowerNothing.mpr (tokenizeNothing 0)
  | cons word words ih =>
    cases words with
    | nil => rw [String.intercalate_singleton, List.flatMap_singleton]
    | cons next words => rw [String.intercalate_cons_cons, joinedLower, ih, ← List.flatMap_cons]

namespace Index
variable {index : Index} {place : Nat}

theorem memQueryWords {words : List String} : place ∈ index.query (" ".intercalate words) ↔
    (∃ word ∈ words, tokenize word ≠ []) ∧
      ∀ word ∈ words, tokenize word ≠ [] → place ∈ index.query word := by
  rw [memQuery, lowerOfWords]
  constructor
  · rintro ⟨some, all⟩
    obtain ⟨token, held⟩ := List.exists_mem_of_ne_nil _ some
    obtain ⟨word, mem, inside⟩ := List.mem_flatMap.mp held
    refine ⟨⟨word, mem, lowerNothing.not.mp (List.ne_nil_of_mem inside)⟩, fun word mem asks => ?_⟩
    refine memQuery.mpr ⟨lowerNothing.not.mpr asks, fun token held => ?_⟩
    exact all token (List.mem_flatMap.mpr ⟨word, mem, held⟩)
  · rintro ⟨⟨word, mem, asks⟩, all⟩
    obtain ⟨token, held⟩ := List.exists_mem_of_ne_nil _ (lowerNothing.not.mpr asks)
    refine ⟨List.ne_nil_of_mem (List.mem_flatMap.mpr ⟨word, mem, held⟩), fun token held => ?_⟩
    obtain ⟨word, mem, inside⟩ := List.mem_flatMap.mp held
    have found := all word mem (lowerNothing.not.mp (List.ne_nil_of_mem inside))
    exact (memQuery.mp found).2 token inside

theorem queryNothing {text : String} (none : tokenize text = []) : index.query text = [] :=
  List.eq_nil_iff_forall_not_mem.mpr fun _ found => (memQuery.mp found).1 (lowerNothing.mpr none)

theorem memQueryJoined {a b : String} : place ∈ index.query (a ++ " " ++ b) ↔
    (tokenize a ≠ [] ∨ tokenize b ≠ []) ∧ (tokenize a ≠ [] → place ∈ index.query a) ∧
      (tokenize b ≠ [] → place ∈ index.query b) := by
  have two : a ++ " " ++ b = " ".intercalate [a, b] := by
    rw [String.intercalate_cons_cons, String.intercalate_singleton]
  rw [two, memQueryWords]
  simp only [List.mem_cons, List.not_mem_nil, or_false, exists_eq_or_imp, exists_eq_left,
    forall_eq_or_imp, forall_eq]

theorem sameQuery {text other : String}
    (same : ∀ place, place ∈ index.query text ↔ place ∈ index.query other) :
    index.query text = index.query other :=
  (index.queryAscends text).eq_of_mem_iff (index.queryAscends other) same

end Index

/- The tokens of two texts that are joined by a blank are those of the first and then those of the
second, so far behind as the first text and the blank are wide. In any index a query for both texts
finds what both queries find, or what one of them finds where the other text has no tokens. The
words of a command line are joined so, and all of those that have tokens have to be found. -/
theorem wordsAnded (a b : String) :
    tokenize (a ++ " " ++ b) =
        tokenize a ++ (tokenize b).map (Token.shift (a.utf8ByteSize + 1)) ∧
      ∀ index : Index,
        (tokenize a ≠ [] → tokenize b ≠ [] →
          index.query (a ++ " " ++ b) = (index.query a).filter (· ∈ index.query b)) ∧
        (tokenize a = [] → index.query (a ++ " " ++ b) = index.query b) ∧
        (tokenize b = [] → index.query (a ++ " " ++ b) = index.query a) ∧
        ∀ (words : List String) (place : Nat), place ∈ index.query (" ".intercalate words) ↔
          (∃ word ∈ words, tokenize word ≠ []) ∧
            ∀ word ∈ words, tokenize word ≠ [] → place ∈ index.query word := by
  refine ⟨joinedTokens a b, fun index => ⟨fun left right => ?_, fun none => ?_, fun none => ?_,
    fun words place => Index.memQueryWords⟩⟩
  · refine (index.queryAscends _).eq_of_mem_iff ((index.queryAscends a).filter _) fun place => ?_
    simp [Index.memQueryJoined, left, right]
  · refine Index.sameQuery fun place => ?_
    by_cases other : tokenize b = []
    · simp [Index.memQueryJoined, none, other, Index.queryNothing]
    · simp [Index.memQueryJoined, none, other]
  · refine Index.sameQuery fun place => ?_
    by_cases other : tokenize a = []
    · simp [Index.memQueryJoined, none, other, Index.queryNothing]
    · simp [Index.memQueryJoined, none, other]

def clearKeys : List String :=
  ["std::vector<int>::clear() -> void", "std::list<long>::clear() -> void",
    "std::vector<long>::clear() -> void"]

theorem vectorLongAnded :
    tokenize "vector" ≠ [] ∧ tokenize "long" ≠ [] ∧ tokenize "()" = [] ∧
      (Index.build clearKeys).query ("vector" ++ " " ++ "long") = [2] ∧
      (Index.build clearKeys).query ("()" ++ " " ++ "vector") = [0, 2] ∧
      (Index.build clearKeys).query ("vector" ++ " " ++ "()") = [0, 2] ∧
      2 ∈ (Index.build clearKeys).query (" ".intercalate ["vector", "()", "long"]) := by
  have vector : tokenize "vector" ≠ [] := by decide +kernel
  have long : tokenize "long" ≠ [] := by decide +kernel
  have none : tokenize "()" = [] := by decide +kernel
  have asked : (Index.build clearKeys).query "vector" = [0, 2] := by cbv
  have other : (Index.build clearKeys).query "long" = [1, 2] := by cbv
  obtain ⟨_, both⟩ := wordsAnded "vector" "long"
  obtain ⟨_, right⟩ := wordsAnded "vector" "()"
  obtain ⟨_, left⟩ := wordsAnded "()" "vector"
  refine ⟨vector, long, none, ?_, ?_, ?_, ?_⟩
  · rw [(both _).1 vector long, asked, other]
    rfl
  · rw [(left _).2.1 none, asked]
  · rw [(right _).2.2.1 none, asked]
  · refine ((both _).2.2.2 _ _).mpr ⟨⟨"vector", by simp, vector⟩, ?_⟩
    simp [none, asked, other]

end CxxSymbols.Search
