import CxxSymbols.Proofs.Search.Segments
import Mathlib.Data.List.Nodup
import Mathlib.Data.String.Basic
/-! The words of a text. The scan reads a piece of the text at a time: `::`, an operator, or a run
that stands between characters of another kind. It leaves out single characters that are in no run.
Each piece gives one lexeme: a token for the piece as a whole and, behind it, those for what a run is
cut into. -/
namespace CxxSymbols.Search

/-! ### Places in bytes -/

theorem widthOfAppend (a b : List Char) : widthOf (a ++ b) = widthOf a + widthOf b := by
  induction a with
  | nil => exact (Nat.zero_add _).symm
  | cons c a ih => rw [List.cons_append, widthOf, ih, widthOf, Nat.add_assoc]

theorem widthPositive {cs : List Char} (some : cs ≠ []) : 0 < widthOf cs := by
  cases cs with
  | nil => exact absurd rfl some
  | cons c cs => exact Nat.add_pos_left c.utf8Size_pos _

theorem widthOfBytes (cs : List Char) : widthOf cs = String.utf8Len cs := by
  induction cs with
  | nil => rfl
  | cons c cs ih => rw [widthOf, ih, String.utf8Len_cons, Nat.add_comm]

structure Token.IsSlice (text : String) (t : Token) : Prop where
  some : t.start < t.stop
  inside : t.stop ≤ text.utf8ByteSize
  begins : (⟨t.start⟩ : String.Pos.Raw).IsValid text
  ends : (⟨t.stop⟩ : String.Pos.Raw).IsValid text
  same : String.Pos.Raw.extract text ⟨t.start⟩ ⟨t.stop⟩ = t.text

theorem sliceBetween {text : String} {before part after : List Char} (some : part ≠ [])
    (whole : text.toList = before ++ part ++ after) :
    (Token.at (widthOf before) part).IsSlice text := by
  obtain rfl : String.ofList (before ++ part ++ after) = text := by rw [← whole, String.ofList_toList]
  have valid (front back : List Char) :
      (⟨widthOf front⟩ : String.Pos.Raw).IsValid (String.ofList (front ++ back)) := by
    rw [String.Pos.Raw.isValid_iff_exists_append]
    exact ⟨String.ofList front, String.ofList back, String.ofList_append, by
      rw [widthOfBytes, String.rawEndPos_ofList]⟩
  refine ⟨Nat.lt_add_of_pos_right (widthPositive some), ?_, ?_, ?_, ?_⟩
  · rw [String.utf8ByteSize_ofList, ← widthOfBytes, widthOfAppend, widthOfAppend]
    exact Nat.le_add_right _ _
  · rw [List.append_assoc]
    exact valid before (part ++ after)
  · have ends := valid (before ++ part) after
    rwa [widthOfAppend] at ends
  · simp only [Token.at, widthOfBytes]
    exact String.extract_of_valid before part after

def Token.Within (start : Nat) (piece : List Char) (t : Token) : Prop :=
  ∃ front part back, piece = front ++ part ++ back ∧ part ≠ [] ∧
    t = .at (start + widthOf front) part

section Within
variable {start : Nat} {piece : List Char} {t : Token}

theorem withinWhole (some : piece ≠ []) : (Token.at start piece).Within start piece :=
  ⟨[], piece, [], by simp, some, rfl⟩

theorem withinBounds (within : t.Within start piece) :
    start ≤ t.start ∧ t.start < t.stop ∧ t.stop ≤ start + widthOf piece := by
  obtain ⟨front, part, back, rfl, some, rfl⟩ := within
  have positive := widthPositive some
  simp only [Token.at, widthOfAppend]
  omega

end Within

/-! ### Lexemes -/

structure Lexeme where
  whole : Token
  subs : List Token

def Lexeme.tokens (g : Lexeme) : List Token := g.whole :: g.subs

def Before (cs : List Char) : Prop := ∀ c ∈ cs.getLast?, isNameChar c = false

structure IsRun (before run after : List Char) : Prop where
  legible : Legible run
  before : Before before
  after : Apart after

/- The word for an operator and its punctuation, where no longer run ends in the word. -/
structure IsOperator (before word after : List Char) : Prop where
  before : Before before
  spelled : ∃ spelling, word = operatorWord ++ spelling ∧ Spells spelling after

inductive Lexeme.Reads (before : List Char) : List Char → List Char → Lexeme → Prop where
  | scope (after : List Char) :
      Reads before [':', ':'] after ⟨.at (widthOf before) [':', ':'], []⟩
  | operator {word after : List Char} (operator : IsOperator before word after) :
      Reads before word after ⟨.at (widthOf before) word, []⟩
  | run {run after : List Char} {subs : List Token} (maximal : IsRun before run after)
      (parts : Subtokens (widthOf before) run subs) :
      Reads before run after ⟨.at (widthOf before) run, subs⟩

section Lexemes
variable {before piece after : List Char} {g : Lexeme}

theorem readsSome (reads : g.Reads before piece after) : piece ≠ [] := by
  cases reads with
  | scope => exact List.cons_ne_nil _ _
  | operator operator =>
    obtain ⟨spelling, rfl, _⟩ := operator.spelled
    exact List.append_ne_nil_of_left_ne_nil (List.cons_ne_nil _ _) _
  | run maximal => exact maximal.legible.some

theorem readsWhole (reads : g.Reads before piece after) : g.whole = .at (widthOf before) piece := by
  cases reads <;> rfl

theorem readsSubtoken (reads : g.Reads before piece after) {t : Token} (mem : t ∈ g.subs) :
    t.Within (widthOf before) piece := by
  cases reads with
  | scope => cases mem
  | operator => cases mem
  | run maximal parts =>
    obtain ⟨front, segment, back, whole, segmented, rfl⟩ := parts.between t mem
    exact ⟨front, segment, back, whole, segmented.some, rfl⟩

theorem readsWithin (reads : g.Reads before piece after) :
    ∀ t ∈ g.tokens, t.Within (widthOf before) piece := by
  intro t mem
  rcases List.mem_cons.mp mem with rfl | sub
  · rw [readsWhole reads]
    exact withinWhole (readsSome reads)
  · exact readsSubtoken reads sub

theorem beforeName {before rest : List Char} {c : Char} (name : isNameChar c = true)
    (fresh : Before before ∨ Apart (c :: rest)) : Before before := by
  rcases fresh with fresh | apart
  · exact fresh
  · exact absurd (apart c rfl) (by simp [name])

theorem operatorEnds {word : List Char} (operator : IsOperator before word after) :
    (∀ c ∈ word.getLast?, isNameChar c = false) ∨ Apart after := by
  obtain ⟨spelling, rfl, spells⟩ := operator.spelled
  cases spells with
  | call =>
    refine .inl fun c last => ?_
    cases last
    rfl
  | sign opens all stops =>
    refine .inr fun c first => ?_
    have stop := stops c first
    simp only [goesOn, Bool.and_eq_false_iff, decide_eq_false_iff_not, not_not] at stop
    rcases stop with rfl | rfl <;> rfl

theorem readsEnds (reads : g.Reads before piece after) : Before (before ++ piece) ∨ Apart after := by
  have ends : Before piece ∨ Apart after := by
    cases reads with
    | scope =>
      refine .inl fun c last => ?_
      cases last
      rfl
    | operator operator => exact operatorEnds operator
    | run maximal => exact .inr maximal.after
  rwa [Before, List.getLast?_append_of_ne_nil _ (readsSome reads)]

end Lexemes

/-! ### The scan -/

inductive Scanned : List Char → List Char → List Lexeme → Prop where
  | nothing (before : List Char) : Scanned before [] []
  | gap {before rest : List Char} {c : Char} {lexemes : List Lexeme} (other : isNameChar c = false)
      (next : Scanned (before ++ [c]) rest lexemes) : Scanned before (c :: rest) lexemes
  | read {before piece rest : List Char} {g : Lexeme} {lexemes : List Lexeme}
      (reads : g.Reads before piece rest) (next : Scanned (before ++ piece) rest lexemes) :
      Scanned before (piece ++ rest) (g :: lexemes)

section Pieces
variable {rest : List Char}

theorem tokenizeNothing (start : Nat) : tokenizeAt start [] = [] := by
  rw [tokenizeAt]

theorem tokenizeScope (start : Nat) (rest : List Char) : tokenizeAt start (':' :: ':' :: rest) =
    .at start [':', ':'] :: tokenizeAt (start + 2) rest := by
  rw [tokenizeAt]

theorem tokenizeGap {c : Char} (other : isNameChar c = false)
    (single : ∀ more, c = ':' → rest = ':' :: more → False) (start : Nat) :
    tokenizeAt start (c :: rest) = tokenizeAt (start + c.utf8Size) rest := by
  rw [tokenizeAt]
  · exact if_neg (ne_true_of_eq_false other)
  · exact single

theorem runTaken {c : Char} {more : List Char} (legible : Legible (c :: more))
    (apart : Apart rest) : isNameChar c = true ∧
      (more ++ rest).takeWhile isNameChar = more ∧ (more ++ rest).dropWhile isNameChar = rest := by
  obtain ⟨name, names⟩ := List.forall_mem_cons.mp legible.names
  exact ⟨name, Scanner.takeStretch names apart⟩

theorem tokenizeRun {run : List Char} (legible : Legible run) (apart : Apart rest)
    (plain : run = operatorWord → operatorSpelling? rest = none) (start : Nat) :
    tokenizeAt start (run ++ rest) =
      runTokens start run ++ tokenizeAt (start + widthOf run) rest := by
  cases run with
  | nil => exact absurd rfl legible.some
  | cons c more =>
    obtain ⟨name, taken, left⟩ := runTaken legible apart
    have missing : (if c :: more = operatorWord then operatorSpelling? rest else none) = none := by
      split
      · exact plain ‹_›
      · rfl
    rw [List.cons_append, tokenizeAt]
    · simp only [name, if_true, taken, left, missing]
    · rintro _ rfl
      cases name

theorem tokenizeOperator {spelling : List Char} (spells : Spells spelling rest) (start : Nat) :
    tokenizeAt start (operatorWord ++ spelling ++ rest) =
      .at start (operatorWord ++ spelling) ::
        tokenizeAt (start + widthOf (operatorWord ++ spelling)) rest := by
  have apart : Apart (spelling ++ rest) := by
    intro c first
    cases spells with
    | call =>
      cases first
      rfl
    | sign opens =>
      cases first
      by_contra name
      rw [nameOpensNothing (Bool.not_eq_false _ ▸ name)] at opens
      cases opens
  have legible : Legible operatorWord := by decide
  generalize same : operatorWord = word at legible ⊢
  cases word with
  | nil => exact absurd rfl legible.some
  | cons c more =>
    obtain ⟨name, taken, left⟩ := runTaken legible apart
    rw [List.append_assoc, List.cons_append, tokenizeAt]
    · simp only [name, if_true, taken, left, same, spellingRead spells, List.drop_left,
        List.cons_append]
    · rintro _ rfl
      cases name

inductive Pieced : List Char → Prop where
  | nothing : Pieced []
  | scope {rest : List Char} (next : Pieced rest) : Pieced (':' :: ':' :: rest)
  | operator {spelling rest : List Char} (spells : Spells spelling rest) (next : Pieced rest) :
      Pieced (operatorWord ++ spelling ++ rest)
  | run {run rest : List Char} (legible : Legible run) (apart : Apart rest)
      (plain : run = operatorWord → operatorSpelling? rest = none) (next : Pieced rest) :
      Pieced (run ++ rest)
  | gap {c : Char} {rest : List Char} (other : isNameChar c = false)
      (single : ∀ more, c = ':' → rest = ':' :: more → False) (next : Pieced rest) :
      Pieced (c :: rest)

theorem apartLeft (rest : List Char) : Apart (rest.dropWhile isNameChar) := by
  intro c first
  have stop := List.head?_dropWhile_not isNameChar rest
  rw [first] at stop
  exact stop

theorem legibleTaken {c : Char} (name : isNameChar c = true) (rest : List Char) :
    Legible (c :: rest.takeWhile isNameChar) := by
  refine ⟨List.cons_ne_nil _ _, fun d mem => ?_⟩
  rcases List.mem_cons.mp mem with rfl | within
  · exact name
  · exact List.mem_takeWhile_imp within

theorem pieced (cs : List Char) : Pieced cs := by
  generalize 0 = start
  induction start, cs using tokenizeAt.induct with
  | case1 start => exact .nothing
  | case2 start rest ih => exact .scope ih
  | case3 start c rest scope name run behind spelling found token ih =>
    obtain ⟨word, found⟩ : run = operatorWord ∧ operatorSpelling? behind = some spelling := by
      split at found
      · exact ⟨‹_›, found⟩
      · cases found
    obtain ⟨after, source, spells⟩ := spellingSource found
    have whole : c :: rest = operatorWord ++ spelling ++ after := by
      rw [← word, List.append_assoc, ← source, List.cons_append, List.takeWhile_append_dropWhile]
    rw [source, List.drop_left] at ih
    exact whole ▸ .operator spells ih
  | case4 start c rest scope name run behind missing ih =>
    have plain : run = operatorWord → operatorSpelling? behind = none := by
      intro word
      rwa [dif_pos word] at missing
    have whole : c :: rest = run ++ behind := by
      rw [List.cons_append, List.takeWhile_append_dropWhile]
    exact whole ▸ .run (legibleTaken name rest) (apartLeft rest) plain ih
  | case5 start c rest scope other ih => exact .gap (Bool.eq_false_iff.mpr other) scope ih

end Pieces

theorem beforeRun {before run rest : List Char} (legible : Legible run)
    (fresh : Before before ∨ Apart (run ++ rest)) : Before before := by
  obtain ⟨c, more, rfl⟩ := List.exists_cons_of_ne_nil legible.some
  exact beforeName (legible.names c List.mem_cons_self) fresh

/- The scan is at the place in bytes that the characters before it take, and never within a run. -/
theorem tokensScanned (start : Nat) (cs : List Char) : ∀ before : List Char,
    start = widthOf before → Before before ∨ Apart cs →
      ∃ lexemes, tokenizeAt start cs = lexemes.flatMap Lexeme.tokens ∧ Scanned before cs lexemes := by
  induction pieced cs generalizing start with
  | nothing =>
    intro before _ _
    exact ⟨[], tokenizeNothing start, .nothing before⟩
  | @scope rest next ih =>
    intro before place _
    have reads : Lexeme.Reads before [':', ':'] rest _ := .scope rest
    obtain ⟨lexemes, split, scanned⟩ := ih _ (before ++ [':', ':']) (widthOfAppend ..).symm
      (readsEnds reads)
    rw [tokenizeScope, place]
    exact ⟨_ :: lexemes, congrArg (_ :: ·) split, .read reads scanned⟩
  | @operator spelling rest spells next ih =>
    intro before place fresh
    rw [List.append_assoc] at fresh
    have reads : Lexeme.Reads before (operatorWord ++ spelling) rest _ :=
      .operator ⟨beforeRun (by decide) fresh, spelling, rfl, spells⟩
    obtain ⟨lexemes, split, scanned⟩ := ih _ (before ++ (operatorWord ++ spelling))
      (widthOfAppend ..).symm (readsEnds reads)
    rw [tokenizeOperator spells, place, split]
    exact ⟨_ :: lexemes, rfl, .read reads scanned⟩
  | @run run rest legible apart plain next ih =>
    intro before place fresh
    have reads : Lexeme.Reads before run rest _ :=
      .run ⟨legible, beforeRun legible fresh, apart⟩ (subtokensOfRun _ legible.names)
    obtain ⟨lexemes, split, scanned⟩ := ih _ (before ++ run) (widthOfAppend ..).symm
      (readsEnds reads)
    rw [tokenizeRun legible apart plain, runTokensCut, place, split]
    exact ⟨_ :: lexemes, rfl, .read reads scanned⟩
  | @gap c rest other single next ih =>
    intro before place _
    have gap : Before (before ++ [c]) := by
      intro d last
      rw [List.getLast?_concat] at last
      cases last
      exact other
    obtain ⟨lexemes, split, scanned⟩ := ih (start + c.utf8Size) (before ++ [c])
      (by rw [widthOfAppend, place]; rfl) (.inl gap)
    exact ⟨lexemes, (tokenizeGap other single start).trans split, .gap other scanned⟩

theorem scannedReads {before cs : List Char} {lexemes : List Lexeme}
    (scanned : Scanned before cs lexemes) : ∀ g ∈ lexemes, ∃ front piece after,
      cs = front ++ piece ++ after ∧ g.Reads (before ++ front) piece after := by
  induction scanned with
  | nothing => exact List.forall_mem_nil _
  | @gap before rest c lexemes other next ih =>
    intro g mem
    obtain ⟨front, piece, after, rfl, reads⟩ := ih g mem
    refine ⟨c :: front, piece, after, rfl, ?_⟩
    rwa [List.append_assoc] at reads
  | @read before piece rest h lexemes reads next ih =>
    intro g mem
    rcases List.mem_cons.mp mem with rfl | later
    · exact ⟨[], piece, rest, by simp, by rwa [List.append_nil]⟩
    · obtain ⟨front, more, after, rfl, behind⟩ := ih g later
      refine ⟨piece ++ front, more, after, by simp, ?_⟩
      rwa [List.append_assoc] at behind

theorem scannedBehind {before cs : List Char} {lexemes : List Lexeme}
    (scanned : Scanned before cs lexemes) :
    lexemes.Pairwise fun g h => ∀ a ∈ g.tokens, ∀ b ∈ h.tokens, a.stop ≤ b.start := by
  induction scanned with
  | nothing => exact .nil
  | gap other next ih => exact ih
  | @read before piece rest g lexemes reads next ih =>
    refine List.pairwise_cons.mpr ⟨fun h later a inG b inH => ?_, ih⟩
    obtain ⟨front, _, _, _, behind⟩ := scannedReads next h later
    have ends := (withinBounds (readsWithin reads a inG)).2.2
    have begins := (withinBounds (readsWithin behind b inH)).1
    rw [widthOfAppend, widthOfAppend] at begins
    omega

/-! ### Runs -/

def Covered (lexemes : List Lexeme) (before run : List Char) : Prop :=
  ∃ front word after, IsOperator front word after ∧ ⟨.at (widthOf front) word, []⟩ ∈ lexemes ∧
    widthOf front ≤ widthOf before ∧ widthOf before + widthOf run ≤ widthOf front + widthOf word

def Found (lexemes : List Lexeme) (before run : List Char) : Prop :=
  Covered lexemes before run ∨ ∃ subs, ⟨.at (widthOf before) run, subs⟩ ∈ lexemes

theorem foundLater {lexemes : List Lexeme} {before run : List Char} (found : Found lexemes before run)
    (g : Lexeme) : Found (g :: lexemes) before run := by
  rcases found with ⟨front, word, after, operator, mem, within⟩ | ⟨subs, mem⟩
  · exact .inl ⟨front, word, after, operator, List.mem_cons_of_mem _ mem, within⟩
  · exact .inr ⟨subs, List.mem_cons_of_mem _ mem⟩

section Runs
variable {before piece front more rest run after : List Char} {g : Lexeme}

theorem lastBehind (front : List Char) (some : more ≠ []) :
    more.getLast some ∈ (front ++ more).getLast? := by
  rw [List.getLast?_append_of_ne_nil _ some, List.getLast?_eq_some_getLast some]
  exact rfl

theorem maximalUnique (legible : Legible piece) (apart : Apart rest)
    (maximal : IsRun before run after) (same : piece ++ rest = run ++ after) : piece = run := by
  have taken := (Scanner.takeStretch legible.names apart).1
  rwa [same, (Scanner.takeStretch maximal.legible.names maximal.after).1, eq_comm] at taken

theorem runEnds (operator : IsOperator before (front ++ more) rest) (some : more ≠ [])
    (goesOn : more ++ rest = run ++ after) (maximal : IsRun (before ++ front) run after) :
    ∃ left, more = run ++ left := by
  rcases List.append_eq_append_iff.mp goesOn with ⟨extra, rfl, behind⟩ | ⟨left, same, _⟩
  · have names := maximal.legible.names
    rcases operatorEnds operator with ends | apart
    · have last := ends _ (lastBehind front some)
      have name := names _ (List.mem_append_left extra (List.getLast_mem some))
      rw [last] at name
      cases name
    · cases extra with
      | nil => exact ⟨[], by simp⟩
      | cons c extra =>
        have name := names c (List.mem_append_right more List.mem_cons_self)
        rw [apart c (by rw [behind]; rfl)] at name
        cases name
  · exact ⟨left, same⟩

theorem readsFound (reads : g.Reads before piece rest) (split : piece = front ++ more)
    (some : more ≠ []) (goesOn : more ++ rest = run ++ after)
    (maximal : IsRun (before ++ front) run after) (lexemes : List Lexeme) :
    Found (g :: lexemes) (before ++ front) run := by
  cases reads with
  | scope =>
    obtain ⟨c, run, rfl⟩ := List.exists_cons_of_ne_nil maximal.legible.some
    obtain ⟨d, more, rfl⟩ := List.exists_cons_of_ne_nil some
    have colon : d ∈ [':', ':'] := by simp [split]
    obtain rfl : d = c := (List.cons.inj goesOn).1
    obtain rfl : d = ':' := by simpa using colon
    cases maximal.legible.names ':' List.mem_cons_self
  | operator operator =>
    obtain rfl := split
    obtain ⟨left, rfl⟩ := runEnds operator some goesOn maximal
    refine .inl ⟨before, _, rest, operator, List.mem_cons_self, ?_, ?_⟩
    all_goals simp only [widthOfAppend]
    all_goals omega
  | run legible parts =>
    -- a run has no longer one before its end, so it begins where the piece begins
    have none : front = [] := by
      by_contra some
      have name := legible.legible.names (front.getLast some)
        (split ▸ List.mem_append_left more (List.getLast_mem some))
      have last := maximal.before _ (lastBehind before some)
      rw [last] at name
      cases name
    obtain rfl := none
    obtain rfl : piece = more := split
    obtain rfl := maximalUnique legible.legible legible.after maximal goesOn
    rw [List.append_nil]
    exact .inr ⟨_, List.mem_cons_self⟩

theorem scannedFound {cs : List Char} {lexemes : List Lexeme} (scanned : Scanned before cs lexemes)
    (whole : cs = front ++ run ++ after) (maximal : IsRun (before ++ front) run after) :
    Found lexemes (before ++ front) run := by
  induction scanned generalizing front with
  | nothing =>
    have none : run = [] := (List.append_eq_nil_iff.mp
      (List.append_eq_nil_iff.mp whole.symm).1).2
    exact absurd none maximal.legible.some
  | @gap before rest c lexemes other next ih =>
    cases front with
    | nil =>
      obtain ⟨d, run, rfl⟩ := List.exists_cons_of_ne_nil maximal.legible.some
      cases whole
      have name := maximal.legible.names c List.mem_cons_self
      rw [other] at name
      cases name
    | cons d front =>
      cases whole
      rw [List.append_cons] at maximal ⊢
      exact ih rfl maximal
  | @read before piece rest g lexemes reads next ih =>
    rw [List.append_assoc] at whole
    rcases List.append_eq_append_iff.mp whole with ⟨later, rfl, behind⟩ | ⟨more, split, goesOn⟩
    · rw [← List.append_assoc] at maximal ⊢
      exact foundLater (ih (by rw [behind, List.append_assoc]) maximal) g
    · by_cases none : more = []
      · rw [none, List.append_nil] at split
        rw [none, List.nil_append] at goesOn
        obtain rfl := split
        have later : Found lexemes (before ++ piece ++ []) run :=
          ih goesOn.symm (by rwa [List.append_nil])
        rw [List.append_nil] at later
        exact foundLater later g
      · exact readsFound reads split none goesOn.symm maximal lexemes

end Runs

/-! ### Order -/

def Token.Precedes (a b : Token) : Prop := a.start ≤ b.start ∧ a ≠ b

theorem precedesBehind {a b : Token} (some : a.start < a.stop) (behind : a.stop ≤ b.start) :
    Token.Precedes a b := by
  refine ⟨Nat.le_of_lt (Nat.lt_of_lt_of_le some behind), ?_⟩
  rintro rfl
  exact absurd some (Nat.not_lt.mpr behind)

section Order
variable {before piece after : List Char} {g : Lexeme}

theorem subtokenOther {start : Nat} {run : List Char} {subs : List Token}
    (parts : Subtokens start run subs) (within : ∀ t ∈ subs, t.Within start run) :
    ∀ t ∈ subs, t ≠ .at start run := by
  rintro t mem rfl
  have count := congrArg List.length (parts.texts (List.ne_nil_of_mem mem))
  have several := (parts.emitted.mp (List.ne_nil_of_mem mem)).2
  obtain ⟨front, back, rfl⟩ := List.append_of_mem mem
  obtain ⟨_, behind, across⟩ := List.pairwise_append.mp parts.ascend
  cases front with
  | cons u front =>
    have apart := across u List.mem_cons_self _ List.mem_cons_self
    have bounds := withinBounds (within u (by simp))
    simp only [Token.at] at apart
    omega
  | nil =>
    cases back with
    | nil =>
      rw [← count] at several
      simp at several
    | cons u back =>
      have apart := (List.pairwise_cons.mp behind).1 u List.mem_cons_self
      have bounds := withinBounds (within u (by simp))
      simp only [Token.at] at apart
      omega

theorem lexemeOrdered (reads : g.Reads before piece after) : g.tokens.Pairwise Token.Precedes := by
  have within : ∀ t ∈ g.subs, t.Within (widthOf before) piece := fun t => readsSubtoken reads
  cases reads with
  | scope => exact List.pairwise_singleton _ _
  | operator => exact List.pairwise_singleton _ _
  | run maximal parts =>
    refine List.pairwise_cons.mpr ⟨fun t mem => ⟨?_, ?_⟩, ?_⟩
    · exact (withinBounds (within t mem)).1
    · exact (subtokenOther parts within t mem).symm
    · refine parts.ascend.imp_of_mem fun {a b} mem _ behind => ?_
      exact precedesBehind (withinBounds (within a mem)).2.1 behind

theorem scannedOrdered {cs : List Char} {lexemes : List Lexeme}
    (scanned : Scanned before cs lexemes) : (lexemes.flatMap Lexeme.tokens).Pairwise Token.Precedes := by
  refine List.pairwise_flatMap.mpr ⟨fun g mem => ?_, ?_⟩
  · obtain ⟨_, _, _, _, reads⟩ := scannedReads scanned g mem
    exact lexemeOrdered reads
  · refine (scannedBehind scanned).imp_of_mem fun {g h} mem _ behind a inG b inH => ?_
    obtain ⟨_, _, _, _, reads⟩ := scannedReads scanned g mem
    exact precedesBehind (withinBounds (readsWithin reads a inG)).2.1 (behind a inG b inH)

end Order

/-! ### The tokens of a text -/

/- The tokens of a text, by the pieces that they are for. -/
structure Tokenized (text : String) (lexemes : List Lexeme) : Prop where
  tokens : tokenize text = lexemes.flatMap Lexeme.tokens
  slices : ∀ t ∈ tokenize text, t.IsSlice text
  ascend : (tokenize text).Pairwise fun a b => a.start ≤ b.start
  disjoint : lexemes.Pairwise fun g h => g.whole.stop ≤ h.whole.start
  reads : ∀ g ∈ lexemes, ∃ before piece after,
    text.toList = before ++ piece ++ after ∧ g.Reads before piece after
  runs : ∀ before run after, text.toList = before ++ run ++ after → IsRun before run after →
    Covered lexemes before run ∨ (∃ subs, ⟨.at (widthOf before) run, subs⟩ ∈ lexemes) ∧
      (tokenize text).count (.at (widthOf before) run) = 1

theorem lexemeSlices {text : String} {before piece after : List Char} {g : Lexeme}
    (whole : text.toList = before ++ piece ++ after) (reads : g.Reads before piece after) :
    ∀ t ∈ g.tokens, t.IsSlice text := by
  intro t mem
  obtain ⟨front, part, back, rfl, some, rfl⟩ := readsWithin reads t mem
  rw [← widthOfAppend]
  have split : text.toList = before ++ front ++ part ++ (back ++ after) := by simp [whole]
  exact sliceBetween some split

theorem textTokenized (text : String) : ∃ lexemes, Tokenized text lexemes := by
  obtain ⟨lexemes, tokens, scanned⟩ := tokensScanned 0 text.toList [] rfl
    (.inl fun _ last => nomatch last)
  have reads := scannedReads scanned
  have ordered := scannedOrdered scanned
  refine ⟨lexemes, tokens, fun t mem => ?_, ?_, ?_, reads, fun before run after whole maximal => ?_⟩
  · rw [tokenize, tokens] at mem
    obtain ⟨g, held, within⟩ := List.mem_flatMap.mp mem
    obtain ⟨before, piece, after, whole, read⟩ := reads g held
    exact lexemeSlices whole read t within
  · rw [tokenize, tokens]
    exact ordered.imp And.left
  · refine (scannedBehind scanned).imp fun {g h} behind => ?_
    exact behind _ List.mem_cons_self _ List.mem_cons_self
  · have found : Found lexemes ([] ++ before) run := scannedFound scanned whole maximal
    rcases found with covered | ⟨subs, mem⟩
    · exact .inl covered
    · refine .inr ⟨⟨subs, mem⟩, ?_⟩
      rw [tokenize, tokens]
      exact List.count_eq_one_of_mem (ordered.imp And.right)
        (List.mem_flatMap.mpr ⟨_, mem, List.mem_cons_self⟩)

example : (tokenize "$x::operator<<(fooBar_2)").map Token.text =
    ["$x", "::", "operator<<", "fooBar_2", "foo", "Bar", "2"] := by decide +kernel

end CxxSymbols.Search
