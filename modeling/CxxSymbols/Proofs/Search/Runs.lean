import CxxSymbols.Proofs.Search.Query
import CxxSymbols.Proofs.Text.Scanner
/-! The runs of name characters in a text. What is no name character keeps runs apart, so the runs of
a text that is put together are those of its parts. Unless one of them is the word for an operator,
each run is cut into the same tokens wherever it stands. -/
namespace CxxSymbols.Search

def runs (cs : List Char) : List (List Char) :=
  match cs with
  | [] => []
  | c :: rest =>
    if isNameChar c then (c :: rest.takeWhile isNameChar) :: runs (rest.dropWhile isNameChar)
    else runs rest
termination_by cs.length
decreasing_by
  all_goals have := dropWhileNoLonger isNameChar rest
  all_goals simp only [List.length_cons]
  all_goals omega

def Apart (cs : List Char) : Prop := ∀ c ∈ cs.head?, isNameChar c = false

section Texts
variable {a b rest : List Char} {c : Char}

theorem apartNothing : Apart [] := by
  intro c first
  cases first

theorem apartAt (other : isNameChar c = false) (rest : List Char) : Apart (c :: rest) := by
  intro d first
  cases first
  exact other

theorem runsNothing : runs [] = [] := by
  rw [runs]

theorem runsName (name : isNameChar c = true) (rest : List Char) : runs (c :: rest) =
    (c :: rest.takeWhile isNameChar) :: runs (rest.dropWhile isNameChar) := by
  rw [runs, if_pos name]

theorem runsOther (other : isNameChar c = false) (rest : List Char) :
    runs (c :: rest) = runs rest := by
  rw [runs, if_neg (by simp [other])]

theorem runsAppend (apart : Apart b) : runs (a ++ b) = runs a ++ runs b := by
  induction a using runs.induct with
  | case1 => rw [List.nil_append, runsNothing, List.nil_append]
  | case2 c rest name ih =>
    -- a run ends where a part begins that it cannot go on in
    obtain ⟨taken, left⟩ := Scanner.stretchBefore apart rest
    rw [List.cons_append, runsName name, taken, left, ih, runsName name, List.cons_append]
  | case3 c rest other ih =>
    have other := Bool.eq_false_iff.mpr other
    rw [List.cons_append, runsOther other, ih, runsOther other]

structure Legible (cs : List Char) : Prop where
  some : cs ≠ []
  names : ∀ c ∈ cs, isNameChar c = true

instance (cs : List Char) : Decidable (Legible cs) :=
  decidable_of_iff (cs.isEmpty = false ∧ cs.all isNameChar = true) ⟨
    fun both => ⟨List.isEmpty_eq_false_iff.mp both.1, List.all_eq_true.mp both.2⟩,
    fun legible => ⟨List.isEmpty_eq_false_iff.mpr legible.some, List.all_eq_true.mpr legible.names⟩⟩

theorem runsLegible (legible : Legible a) : runs a = [a] := by
  cases a with
  | nil => exact absurd rfl legible.some
  | cons c rest =>
    have names : ∀ d ∈ rest, isNameChar d = true :=
      fun d mem => legible.names d (List.mem_cons_of_mem _ mem)
    obtain ⟨taken, left⟩ := Scanner.takeStretch names apartNothing
    rw [List.append_nil] at taken left
    rw [runsName (legible.names c List.mem_cons_self), taken, left, runsNothing]

theorem runsWord (legible : Legible a) (apart : Apart rest) : runs (a ++ rest) = a :: runs rest := by
  rw [runsAppend apart, runsLegible legible, List.singleton_append]

end Texts

/-! ### Tokens -/

theorem runTokensText (place place' : Nat) (run : List Char) :
    (runTokens place run).map Token.text = (runTokens place' run).map Token.text := by
  rw [runTokens, runTokens]
  split <;> simp [Token.at]

theorem runTokenized {start : Nat} {cs : List Char} (plain : operatorWord ∉ runs cs) :
    ∀ run ∈ runs cs, ∃ place, runTokens place run ⊆ tokenizeAt start cs := by
  induction start, cs using tokenizeAt.induct with
  | case1 start =>
    intro run mem
    rw [runsNothing] at mem
    cases mem
  | case2 start rest ih =>
    have same : runs (':' :: ':' :: rest) = runs rest :=
      (runsOther (by decide) _).trans (runsOther (by decide) _)
    rw [same] at plain ⊢
    intro run mem
    obtain ⟨place, within⟩ := ih plain run mem
    refine ⟨place, fun token held => ?_⟩
    rw [tokenizeAt]
    exact List.mem_cons_of_mem _ (within held)
  | case3 start c rest scope name run behind spelling found ih =>
    rw [runsName name] at plain
    have ordinary : run ≠ operatorWord := fun same => plain (same ▸ List.mem_cons_self)
    rw [dif_neg ordinary] at found
    cases found
  | case4 start c rest scope name run behind none ih =>
    rw [runsName name] at plain ⊢
    have ordinary : run ≠ operatorWord := fun same => plain (same ▸ List.mem_cons_self)
    have split : tokenizeAt start (c :: rest) =
        runTokens start run ++ tokenizeAt (start + widthOf run) behind := by
      rw [tokenizeAt]
      · simp only [name, if_true, run, behind, if_neg ordinary]
      · exact scope
    rw [split]
    intro other mem
    rcases List.mem_cons.mp mem with rfl | later
    · exact ⟨start, List.subset_append_left _ _⟩
    · obtain ⟨place, within⟩ := ih (fun held => plain (List.mem_cons_of_mem _ held)) other later
      exact ⟨place, fun token held => List.mem_append_right _ (within held)⟩
  | case5 start c rest scope other ih =>
    have split : tokenizeAt start (c :: rest) = tokenizeAt (start + c.utf8Size) rest := by
      rw [tokenizeAt]
      · exact if_neg other
      · exact scope
    rw [split, runsOther (Bool.eq_false_iff.mpr other)] at *
    exact ih plain

theorem tokenizeLegible {cs : List Char} (legible : Legible cs) :
    tokenizeAt 0 cs = runTokens 0 cs := by
  cases cs with
  | nil => exact absurd rfl legible.some
  | cons c rest =>
    have name := legible.names c List.mem_cons_self
    obtain ⟨taken, left⟩ := Scanner.takeStretch
      (fun d mem => legible.names d (List.mem_cons_of_mem c mem)) apartNothing
    rw [List.append_nil] at taken left
    have alone : operatorSpelling? [] = none := rfl
    have nothing (start : Nat) : tokenizeAt start [] = [] := by rw [tokenizeAt]
    rw [tokenizeAt]
    · simp only [name, if_true, taken, left, alone, ite_self, nothing, List.append_nil]
    · rintro _ rfl
      cases name

theorem tokensHeld {run text : String} (legible : Legible run.toList)
    (held : run.toList ∈ runs text.toList) (plain : operatorWord ∉ runs text.toList) :
    ∀ t ∈ tokenize run, ∃ u ∈ tokenize text, u.text = t.text := by
  obtain ⟨place, within⟩ := @runTokenized 0 _ plain _ held
  intro t mem
  rw [tokenize, tokenizeLegible legible] at mem
  have text : t.text ∈ (runTokens place run.toList).map Token.text := by
    rw [runTokensText place 0]
    exact List.mem_map_of_mem mem
  obtain ⟨u, inside, same⟩ := List.mem_map.mp text
  exact ⟨u, within inside, same⟩

theorem wholeRun {run : String} (legible : Legible run.toList) :
    ∃ t ∈ tokenize run, t.text = run := by
  rw [tokenize, tokenizeLegible legible]
  exact ⟨_, List.mem_cons_self, String.ofList_toList⟩

theorem runFound {run text : String} (legible : Legible run.toList)
    (held : run.toList ∈ runs text.toList) (plain : operatorWord ∉ runs text.toList) :
    (∃ t ∈ tokenize text, t.text = run) ∧ ∀ (keys : List String) (place : Nat),
      keys[place]? = some text → place ∈ (Index.build keys).query run := by
  have tokens := tokensHeld legible held plain
  obtain ⟨whole, mem, same⟩ := wholeRun legible
  refine ⟨same ▸ tokens whole mem, fun keys place here => Index.memQuery.mpr ⟨?_, ?_⟩⟩
  · exact List.ne_nil_of_mem (List.mem_map_of_mem mem)
  · intro token asked
    obtain ⟨t, inside, rfl⟩ := List.mem_map.mp asked
    obtain ⟨u, there, text⟩ := tokens t inside
    exact Index.memMatchingBuild.mpr ⟨_, here, _, List.mem_map.mpr ⟨u, there, by rw [text]⟩,
      List.prefix_refl _⟩

end CxxSymbols.Search
