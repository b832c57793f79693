import CxxSymbols.Proofs.Search.Tokens
import Mathlib.Data.List.Forall2
import Mathlib.Data.List.Infix
/-! Texts that have been typed in part. Where a text is cut off, the piece that is cut gets shorter: a
run and the last one of its segments end earlier, an operator loses some of its punctuation or all of
it, and of `::` there is nothing left to read. All pieces before that one are read as they were. So
each token of the part begins a token of the whole text, and a query for the part finds all that one
for the whole text finds. -/
namespace CxxSymbols.Search

structure Token.Begins (t u : Token) : Prop where
  start : t.start = u.start
  text : t.text.toList <+: u.text.toList

def Begun (ts us : List Token) : Prop := ∀ t ∈ ts, ∃ u ∈ us, t.Begins u

section Begun
variable {t u : Token} {ts us ts' us' : List Token}

theorem beginsAt (start : Nat) {cs ds : List Char} (begins : cs <+: ds) :
    (Token.at start cs).Begins (.at start ds) := by
  refine ⟨rfl, ?_⟩
  rwa [Token.at, Token.at, String.toList_ofList, String.toList_ofList]

theorem begunNothing (us : List Token) : Begun [] us := List.forall_mem_nil _

theorem begunAppend (front : Begun ts us) (back : Begun ts' us') :
    Begun (ts ++ ts') (us ++ us') := by
  intro t mem
  rcases List.mem_append.mp mem with first | later
  · obtain ⟨u, inside, begins⟩ := front t first
    exact ⟨u, List.mem_append_left us' inside, begins⟩
  · obtain ⟨u, inside, begins⟩ := back t later
    exact ⟨u, List.mem_append_right us inside, begins⟩

theorem begunCons (first : t.Begins u) (others : Begun ts us) : Begun (t :: ts) (u :: us) :=
  List.forall_mem_cons.mpr ⟨⟨u, List.mem_cons_self, first⟩, fun t mem => by
    obtain ⟨v, inside, begins⟩ := others t mem
    exact ⟨v, List.mem_cons_of_mem u inside, begins⟩⟩

end Begun

/-! ### Segments -/

def Extends (a b : Nat × List Char) : Prop := a.1 = b.1 ∧ a.2 <+: b.2

section Segments
variable {segment : List Char}

theorem extendsRefl (entries : List (Nat × List Char)) : List.Forall₂ Extends entries entries :=
  List.forall₂_same.mpr fun e _ => ⟨rfl, List.prefix_refl e.2⟩

theorem segmentGoesOn (place : Nat) (before : Option Char) (begun : segment ≠ [])
    (more : List Char) :
    ∃ tail back, segmentsFrom place before segment more =
      (place - segment.length, segment.reverse ++ tail) :: back := by
  have closed : closeSegment place segment = [(place - segment.length, segment.reverse)] := by
    simp [closeSegment, begun]
  induction more generalizing place before segment with
  | nil => exact ⟨[], [], by rw [segmentsFrom, closed, List.append_nil]⟩
  | cons c more ih =>
    rw [segmentsFrom]
    split
    · exact ⟨[], _, by rw [closed, List.append_nil, List.singleton_append]⟩
    · split
      · exact ⟨[], _, by rw [closed, List.append_nil, List.singleton_append]⟩
      · obtain ⟨tail, back, rest⟩ := ih (place + 1) (some c) (List.cons_ne_nil c segment)
          (by simp [closeSegment])
        refine ⟨c :: tail, back, ?_⟩
        rw [rest, List.length_cons, Nat.add_sub_add_right, List.reverse_cons, List.append_assoc,
          List.singleton_append]

theorem segmentsExtended (place : Nat) (before : Option Char) (segment run more : List Char) :
    ∃ front back, segmentsFrom place before segment (run ++ more) = front ++ back ∧
      List.Forall₂ Extends (segmentsFrom place before segment run) front := by
  induction run generalizing place before segment with
  | nil =>
    by_cases nothing : segment = []
    · obtain rfl := nothing
      exact ⟨[], _, rfl, .nil⟩
    · obtain ⟨tail, back, rest⟩ := segmentGoesOn place before nothing more
      refine ⟨[_], back, rest, ?_⟩
      simp [segmentsFrom, closeSegment, nothing, Extends]
  | cons c run ih =>
    rw [List.cons_append, segmentsFrom, segmentsFrom]
    have closed := extendsRefl (closeSegment place segment)
    split
    · obtain ⟨front, back, rest, extended⟩ := ih (place + 1) (some c) []
      exact ⟨_ ++ front, back, by rw [rest, List.append_assoc], List.rel_append closed extended⟩
    · split
      · obtain ⟨front, back, rest, extended⟩ := ih (place + 1) (some c) [c]
        exact ⟨_ ++ front, back, by rw [rest, List.append_assoc], List.rel_append closed extended⟩
      · exact ih (place + 1) (some c) (c :: segment)

end Segments

/-! ### Runs -/

section Runs
variable {run : List Char}

theorem segmentsOfCut (nonempty : run ≠ []) (more : List Char) :
    ∃ front back, segments (run ++ more) = front ++ back ∧
      List.Forall₂ Extends (segments run) front := by
  have first : (run ++ more).head? = run.head? := List.head?_append_of_ne_nil _ nonempty
  rw [segments, segments, first]
  split
  · exact ⟨[], [], rfl, .nil⟩
  · exact segmentsExtended 0 none [] run more

theorem segmentsBegun (start : Nat) {parts others : List (Nat × List Char)}
    (extended : List.Forall₂ Extends parts others) :
    Begun (parts.map fun (place, segment) => .at (start + place) segment)
      (others.map fun (place, segment) => .at (start + place) segment) := by
  induction extended with
  | nil => exact begunNothing _
  | @cons part other parts others first rest ih =>
    obtain ⟨place, segment⟩ := part
    obtain ⟨rfl, begins⟩ : place = other.1 ∧ segment <+: other.2 := first
    exact begunCons (beginsAt _ begins) ih

theorem runBegun (start : Nat) (nonempty : run ≠ []) (more : List Char) :
    Begun (runTokens start run) (runTokens start (run ++ more)) := by
  obtain ⟨front, back, whole, extended⟩ := segmentsOfCut nonempty more
  refine begunCons (beginsAt start (List.prefix_append run more)) ?_
  split
  · rename_i several
    rw [extended.length_eq] at several
    have severalOn : 1 < (front ++ back).length := by
      rw [List.length_append]
      omega
    rw [whole, if_pos severalOn, List.map_append]
    intro t mem
    obtain ⟨u, inside, begins⟩ := segmentsBegun start extended t mem
    exact ⟨u, List.mem_append_left _ inside, begins⟩
  · exact begunNothing _

theorem runOfOperator (start : Nat) (begins : run <+: operatorWord) :
    runTokens start run = [.at start run] := by
  have single : ∀ word ∈ operatorWord.inits, ¬1 < (segments word).length := by decide
  rw [runTokens, if_neg (single run ((List.mem_inits run operatorWord).mpr begins))]

end Runs

/-! ### Pieces -/

section Pieces
variable {run rest spelling : List Char}

theorem runGoesOn (legible : Legible run) (apart : Apart rest) (more : List Char) :
    ∃ further behind, rest ++ more = further ++ behind ∧ Legible (run ++ further) ∧ Apart behind ∧
      (further = [] ∨ rest = []) := by
  cases rest with
  | nil =>
    refine ⟨more.takeWhile isNameChar, more.dropWhile isNameChar, ?_, ?_, ?_, .inr rfl⟩
    · exact List.takeWhile_append_dropWhile.symm
    · refine ⟨List.append_ne_nil_of_left_ne_nil legible.some _, fun c mem => ?_⟩
      rcases List.mem_append.mp mem with first | later
      · exact legible.names c first
      · exact List.mem_takeWhile_imp later
    · exact apartLeft more
  | cons c rest =>
    refine ⟨[], c :: rest ++ more, rfl, ?_, apart, .inl rfl⟩
    rwa [List.append_nil]

theorem spellingGoesOn (spells : Spells spelling rest) (more : List Char) :
    ∃ further behind, rest ++ more = further ++ behind ∧ Spells (spelling ++ further) behind ∧
      (further = [] ∨ rest = []) := by
  cases spells with
  | call => exact ⟨[], rest ++ more, rfl, .call _, .inl rfl⟩
  | sign opens all stops =>
    cases rest with
    | nil =>
      refine ⟨more.takeWhile goesOn, more.dropWhile goesOn, ?_, ?_, .inr rfl⟩
      · exact List.takeWhile_append_dropWhile.symm
      · refine .sign opens (fun c mem => ?_) fun c first => ?_
        · rcases List.mem_append.mp mem with before | later
          · exact all c before
          · exact List.mem_takeWhile_imp later
        · exact stopsLeft more c first
    | cons c rest =>
      refine ⟨[], c :: rest ++ more, rfl, ?_, .inl rfl⟩
      rw [List.append_nil]
      exact .sign opens all stops

/- Where an operator gets punctuation only from what was cut off, there was nothing to read behind
its word, but perhaps the parenthesis that opens a pair. -/
theorem nothingUnspelled (missing : operatorSpelling? rest = none) {more : List Char}
    (found : operatorSpelling? (rest ++ more) = some spelling) (start : Nat) :
    tokenizeAt start rest = [] := by
  cases rest with
  | nil => exact tokenizeNothing start
  | cons c rest =>
    by_cases opening : c = '('
    · obtain rfl := opening
      cases rest with
      | nil => exact (tokenizeGap rfl (fun _ colon => by cases colon) start).trans (tokenizeNothing _)
      | cons d rest =>
        have closing : d = ')' := by
          by_contra other
          cases (spellingUnpaired other (rest ++ more)).symm.trans found
        obtain rfl := closing
        cases missing
    · rw [spellingNone opening] at missing
      rw [List.cons_append, (spellingNone opening).mpr missing] at found
      cases found

theorem tokensBegun (start : Nat) (cut more : List Char) :
    Begun (tokenizeAt start cut) (tokenizeAt start (cut ++ more)) := by
  induction pieced cut generalizing start with
  | nothing =>
    rw [tokenizeNothing]
    exact begunNothing _
  | @scope rest next ih =>
    rw [List.cons_append, List.cons_append, tokenizeScope, tokenizeScope]
    exact begunCons (beginsAt start (List.prefix_refl _)) (ih _)
  | @operator spelling rest spells next ih =>
    obtain ⟨further, behind, split, spellsOn, either⟩ := spellingGoesOn spells more
    have whole : operatorWord ++ spelling ++ rest ++ more =
        operatorWord ++ (spelling ++ further) ++ behind := by
      rw [List.append_assoc _ rest, split]
      simp only [List.append_assoc]
    rw [whole, tokenizeOperator spells, tokenizeOperator spellsOn, ← List.append_assoc]
    refine begunCons (beginsAt start (List.prefix_append _ further)) ?_
    rcases either with rfl | rfl
    · rw [List.append_nil, ← List.nil_append behind, ← split]
      exact ih _
    · rw [tokenizeNothing]
      exact begunNothing _
  | @run run rest legible apart plain next ih =>
    obtain ⟨further, behind, split, legibleOn, apartOn, either⟩ := runGoesOn legible apart more
    have whole : run ++ rest ++ more = run ++ further ++ behind := by
      rw [List.append_assoc, split, List.append_assoc]
    rw [whole, tokenizeRun legible apart plain]
    by_cases spelled : run ++ further = operatorWord ∧ operatorSpelling? behind ≠ none
    · -- the run is, or goes on as, the word for an operator that has its punctuation further on
      obtain ⟨word, found⟩ := spelled
      obtain ⟨spelling, found⟩ := Option.ne_none_iff_exists'.mp found
      have nothing : tokenizeAt (start + widthOf run) rest = [] := by
        rcases either with rfl | rfl
        · rw [List.append_nil] at word
          rw [List.nil_append] at split
          exact nothingUnspelled (plain word) (split ▸ found) _
        · exact tokenizeNothing _
      obtain ⟨after, rfl, spells⟩ := spellingSource found
      have begins : run <+: operatorWord := ⟨further, word⟩
      rw [nothing, List.append_nil, runOfOperator start begins, word, ← List.append_assoc,
        tokenizeOperator spells]
      exact begunCons (beginsAt start (begins.trans (List.prefix_append _ _))) (begunNothing _)
    · have plainOn : run ++ further = operatorWord → operatorSpelling? behind = none := by
        intro word
        by_contra found
        exact spelled ⟨word, found⟩
      rw [tokenizeRun legibleOn apartOn plainOn]
      refine begunAppend (runBegun start legible.some further) ?_
      rcases either with rfl | rfl
      · rw [List.append_nil, ← List.nil_append behind, ← split]
        exact ih _
      · rw [tokenizeNothing]
        exact begunNothing _
  | @gap c rest other single next ih =>
    rw [tokenizeGap other single]
    by_cases colons : c = ':' ∧ rest = []
    · obtain ⟨rfl, rfl⟩ := colons
      rw [tokenizeNothing]
      exact begunNothing _
    · have alone : ∀ further, c = ':' → rest ++ more = ':' :: further → False := by
        intro further colon shape
        cases rest with
        | nil => exact colons ⟨colon, rfl⟩
        | cons d rest =>
          cases shape
          exact single rest colon rfl
      rw [List.cons_append, tokenizeGap other alone]
      exact ih _

end Pieces

/-! ### Queries -/

theorem lowerBegun {t u : Token} (begins : t.Begins u) :
    (t.text.map Char.toLower).toList <+: (u.text.map Char.toLower).toList := by
  rw [String.toList_map, String.toList_map]
  exact begins.text.map Char.toLower

namespace Index

theorem matchingShorter {index : Index} {shorter text : String}
    (begins : shorter.toList <+: text.toList) : index.matching text ⊆ index.matching shorter := by
  intro place found
  obtain ⟨token, places, held, goesOn, mem⟩ := memMatching.mp found
  exact memMatching.mpr ⟨token, places, held, begins.trans goesOn, mem⟩

/- What a text finds in an index, its beginnings find too, if there is anything in them to ask for. -/
theorem beginningFindsMore (index : Index) {shorter text : String}
    (begins : shorter.toList <+: text.toList) (asks : tokenize shorter ≠ []) :
    index.query text ⊆ index.query shorter := by
  intro place found
  obtain ⟨_, all⟩ := memQuery.mp found
  refine memQuery.mpr ⟨fun none => asks (List.map_eq_nil_iff.mp none), fun token mem => ?_⟩
  obtain ⟨t, inside, rfl⟩ := List.mem_map.mp mem
  obtain ⟨more, whole⟩ := begins
  have begun := tokensBegun 0 shorter.toList more
  rw [whole] at begun
  obtain ⟨u, there, goesOn⟩ := begun t inside
  exact matchingShorter (lowerBegun goesOn) (all _ (List.mem_map_of_mem there))

theorem operatorTyped :
    "Log2::operator".toList <+: "Log2::operator<<(fooBa".toList ∧
      tokenize "Log2::operator" ≠ [] ∧
      0 ∈ (build ["Log2::operator<<(FooBar) -> Log2"]).query "Log2::operator" := by
  have begins : "Log2::operator".toList <+: "Log2::operator<<(fooBa".toList := by decide
  have asks : tokenize "Log2::operator" ≠ [] := by decide +kernel
  have typed : lowerTokens "Log2::operator<<(fooBa" ≠ [] ∧
      ∀ token ∈ lowerTokens "Log2::operator<<(fooBa",
        ∃ u ∈ lowerTokens "Log2::operator<<(FooBar) -> Log2", token.toList <+: u.toList := by
    decide +kernel
  refine ⟨begins, asks, beginningFindsMore _ begins asks (memQuery.mpr ⟨typed.1, ?_⟩)⟩
  exact fun token mem => memMatchingBuild.mpr ⟨_, rfl, typed.2 token mem⟩

end Index
end CxxSymbols.Search
