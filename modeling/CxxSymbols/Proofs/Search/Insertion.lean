import CxxSymbols.Proofs.Search.Build
import Mathlib.Data.List.Induction
import Mathlib.Data.List.Sort
/-! Adding posting lists to an index. In whatever order and in whatever pieces they are added, a token
has in the end the places that it had and those that are mentioned for it, each once and in ascending
order. So calls that mention the same make the same index, and an index comes about again from the
entries that it has. All this needs ascending lists to begin with. The place of a key is a word of 32
bits, so they ascend as long as there are no more keys than words, and one key more breaks them. -/
namespace CxxSymbols.Search

theorem sortUniqueSame {xs ys : List Nat} (same : ∀ n, n ∈ xs ↔ n ∈ ys) :
    sortUnique xs = sortUnique ys :=
  (sortUniqueAscends xs).eq_of_mem_iff (sortUniqueAscends ys) fun n =>
    memSortUnique.trans ((same n).trans memSortUnique.symm)

/-! ### What calls mention -/

abbrev Insertion := String × List Nat

def mentioned (calls : List Insertion) (token : String) : List Nat :=
  (calls.filter fun call => call.1 = token).flatMap Prod.snd

structure SameMentions (calls others : List Insertion) : Prop where
  tokens : ∀ token, token ∈ calls.map Prod.fst ↔ token ∈ others.map Prod.fst
  places : ∀ token place, place ∈ mentioned calls token ↔ place ∈ mentioned others token

section Mentions
variable {calls others : List Insertion} {token : String} {place : Nat}

theorem memMentioned : place ∈ mentioned calls token ↔
    ∃ call ∈ calls, call.1 = token ∧ place ∈ call.2 := by
  simp only [mentioned, List.mem_flatMap, List.mem_filter, decide_eq_true_eq, and_assoc]

theorem mentionedHere (places : List Nat) (calls : List Insertion) (token : String) :
    mentioned ((token, places) :: calls) token = places ++ mentioned calls token := by
  simp [mentioned]

theorem mentionedElsewhere {other : String} (apart : other ≠ token) (places : List Nat)
    (calls : List Insertion) :
    mentioned ((other, places) :: calls) token = mentioned calls token := by
  simp [mentioned, apart]

theorem mentionedNowhere (missing : token ∉ calls.map Prod.fst) : mentioned calls token = [] := by
  refine List.eq_nil_iff_forall_not_mem.mpr fun place mem => missing ?_
  obtain ⟨call, inside, rfl, _⟩ := memMentioned.mp mem
  exact List.mem_map_of_mem inside

def Mentions (others calls : List Insertion) : Prop :=
  ∀ call ∈ calls, call.1 ∈ others.map Prod.fst ∧ ∀ place ∈ call.2, place ∈ mentioned others call.1

instance : Decidable (Mentions others calls) :=
  inferInstanceAs (Decidable (∀ call ∈ calls, call.1 ∈ others.map Prod.fst ∧
    ∀ place ∈ call.2, place ∈ mentioned others call.1))

theorem sameOfMentions (forth : Mentions others calls) (back : Mentions calls others) :
    SameMentions calls others := by
  have tokens {calls others : List Insertion} (all : Mentions others calls) {token : String}
      (mem : token ∈ calls.map Prod.fst) : token ∈ others.map Prod.fst := by
    obtain ⟨call, inside, rfl⟩ := List.mem_map.mp mem
    exact (all call inside).1
  have places {calls others : List Insertion} (all : Mentions others calls) {token : String}
      {place : Nat} (mem : place ∈ mentioned calls token) : place ∈ mentioned others token := by
    obtain ⟨call, inside, rfl, held⟩ := memMentioned.mp mem
    exact (all call inside).2 place held
  exact ⟨fun _ => ⟨tokens forth, tokens back⟩, fun _ _ => ⟨places forth, places back⟩⟩

theorem sameOfPerm (perm : calls.Perm others) : SameMentions calls others where
  tokens _ := (perm.map Prod.fst).mem_iff
  places _ _ := ((perm.filter _).flatMap_right Prod.snd).mem_iff

end Mentions

namespace Index
variable {index : Index} {calls others : List Insertion} {token : String}

/-! ### Insertion -/

def insertAll (index : Index) (calls : List Insertion) : Index :=
  calls.foldl (fun index call => index.insert call.1 call.2) index

def added (places : List Nat) (old : Option Postings) : Option Postings :=
  some (sortUnique ((old.getD #[]).toList ++ places)).toArray

theorem addedSame {places others : List Nat} (same : ∀ n, n ∈ places ↔ n ∈ others)
    (old : Option Postings) : added places old = added others old := by
  refine congrArg (fun list => some (List.toArray list)) (sortUniqueSame fun n => ?_)
  rw [List.mem_append, List.mem_append, same]

theorem addedTwice (places others : List Nat) (old : Option Postings) :
    added others (added places old) = added (places ++ others) old := by
  refine congrArg (fun list => some (List.toArray list)) (sortUniqueSame fun n => ?_)
  simp only [added, Option.getD_some, List.mem_append, memSortUnique, or_assoc]

theorem insertAtToken (index : Index) (token : String) (places : List Nat) (k : String) :
    (index.insert token places).postings[k]? =
      if token = k then added places index.postings[k]? else index.postings[k]? := by
  rw [insert, Std.ExtTreeMap.getElem?_alter]
  by_cases same : token = k
  · subst same
    rw [if_pos Std.compare_self, if_pos rfl]
    rfl
  · rw [if_neg fun equal => same (Std.compare_eq_iff_eq.mp equal), if_neg same]

theorem insertAllAtToken (index : Index) (calls : List Insertion) (token : String) :
    (index.insertAll calls).postings[token]? =
      if token ∈ calls.map Prod.fst then added (mentioned calls token) index.postings[token]?
      else index.postings[token]? := by
  induction calls generalizing index with
  | nil => rfl
  | cons call calls ih =>
    obtain ⟨other, places⟩ := call
    have first : (index.insertAll ((other, places) :: calls)).postings[token]? =
        ((index.insert other places).insertAll calls).postings[token]? := rfl
    rw [first, ih, insertAtToken]
    by_cases same : other = token
    · subst same
      rw [if_pos rfl, mentionedHere, if_pos (List.mem_map_of_mem (f := Prod.fst) List.mem_cons_self)]
      split
      · exact addedTwice ..
      · rename_i last
        rw [mentionedNowhere last, List.append_nil]
    · have tokens : token ∈ ((other, places) :: calls).map Prod.fst ↔ token ∈ calls.map Prod.fst := by
        simp [Ne.symm same]
      rw [if_neg same, mentionedElsewhere same]
      simp only [tokens]

theorem insertAllSame (same : SameMentions calls others) (index : Index) :
    index.insertAll calls = index.insertAll others := by
  have postings : (index.insertAll calls).postings = (index.insertAll others).postings := by
    refine Std.ExtTreeMap.ext_getElem? fun token => ?_
    rw [insertAllAtToken, insertAllAtToken, addedSame (same.places token)]
    simp only [same.tokens token]
  exact congrArg Index.mk postings

def Holds (index : Index) (token : String) (place : Nat) : Prop :=
  ∃ places : Postings, index.postings[token]? = some places ∧ place ∈ places.toList

theorem addedHolds {places : List Nat} {old : Option Postings} {place : Nat} :
    (∃ list : Postings, added places old = some list ∧ place ∈ list.toList) ↔
      (∃ list : Postings, old = some list ∧ place ∈ list.toList) ∨ place ∈ places := by
  simp only [added, Option.some.injEq, exists_eq_left', memSortUnique, List.mem_append]
  cases old <;> simp

theorem insertAllHolds (index : Index) (calls : List Insertion) (token : String) (place : Nat) :
    (index.insertAll calls).Holds token place ↔
      index.Holds token place ∨ place ∈ mentioned calls token := by
  rw [Holds, insertAllAtToken]
  split
  · exact addedHolds
  · rename_i missing
    rw [mentionedNowhere missing]
    simp [Holds]

/-! ### Ascending lists -/

def Ascends (index : Index) : Prop :=
  ∀ (token : String) (places : Postings),
    index.postings[token]? = some places → Ascending places.toList

theorem insertAscends (ascends : index.Ascends) (token : String) (places : List Nat) :
    (index.insert token places).Ascends := by
  intro k list found
  rw [insertAtToken] at found
  split at found
  · cases found
    exact sortUniqueAscends _
  · exact ascends k list found

theorem insertAllAscends (ascends : index.Ascends) (calls : List Insertion) :
    (index.insertAll calls).Ascends := by
  induction calls generalizing index with
  | nil => exact ascends
  | cons call calls ih => exact ih (insertAscends ascends call.1 call.2)

theorem buildAscends (keys : List String) : (build keys).Ascends := by
  intro token places found
  rw [buildPostings found]
  exact holdingAscends keys token

/-! ### Places in words -/

/- After 2³² keys the places start over. -/
def buildInWords (keys : List String) : Index :=
  keys.zipIdx.foldl (fun index (key, place) => index.noteKey (UInt32.ofNat place).toNat key) empty

theorem inWordsConcat (keys : List String) (key : String) :
    buildInWords (keys ++ [key]) =
      (buildInWords keys).noteKey (UInt32.ofNat keys.length).toNat key := by
  rw [buildInWords, List.zipIdx_append, Nat.zero_add, List.foldl_append]
  rfl

theorem inWordsLists {keys : List String} (few : keys.length ≤ UInt32.size) :
    Lists keys (buildInWords keys) := by
  induction keys using List.reverseRecOn with
  | nil => exact buildLists []
  | append_singleton keys last ih =>
    rw [List.length_append, List.length_singleton] at few
    have place : (UInt32.ofNat keys.length).toNat = keys.length := UInt32.toNat_ofNat_of_lt' few
    rw [inWordsConcat, place]
    exact noteKeyLists (ih (Nat.le_of_succ_le few)) last

theorem inWordsFits {keys : List String} (few : keys.length ≤ UInt32.size) :
    buildInWords keys = build keys := by
  have postings : (buildInWords keys).postings = (build keys).postings :=
    Std.ExtTreeMap.ext_getElem? fun token =>
      (inWordsLists few token).trans (buildLists keys token).symm
  exact congrArg Index.mk postings

theorem inWordsStartOver {keys : List String} (full : keys.length = UInt32.size) (key : String) :
    buildInWords (keys ++ [key]) = (build keys).noteKey 0 key := by
  rw [inWordsConcat, inWordsFits (Nat.le_of_eq full), full]
  rfl

/- An index to which nothing has been added yet, over no more keys than there are places. -/
def Started (index : Index) : Prop :=
  index = empty ∨ ∃ keys : List String, keys.length ≤ UInt32.size ∧ index = buildInWords keys

theorem startedAscends (started : index.Started) : index.Ascends := by
  rcases started with rfl | ⟨keys, few, rfl⟩
  · exact buildAscends []
  · rw [inWordsFits few]
    exact buildAscends keys

/-! ### Entries -/

def entries (index : Index) : List Insertion := index.toList.map fun e => (e.1, e.2.toList)

theorem memEntries : token ∈ index.entries.map Prod.fst ↔
    ∃ places, index.postings[token]? = some places := by
  simp [entries, toList, Std.ExtTreeMap.mem_toList_iff_getElem?_eq_some]

theorem mentionedEntries {place : Nat} :
    place ∈ mentioned index.entries token ↔ index.Holds token place := by
  rw [memMentioned]
  constructor
  · rintro ⟨call, inside, rfl, mem⟩
    obtain ⟨e, there, rfl⟩ := List.mem_map.mp inside
    exact ⟨e.2, Std.ExtTreeMap.mem_toList_iff_getElem?_eq_some.mp there, mem⟩
  · rintro ⟨places, held, mem⟩
    have there : (token, places) ∈ index.toList :=
      Std.ExtTreeMap.mem_toList_iff_getElem?_eq_some.mpr held
    exact ⟨_, List.mem_map_of_mem there, rfl, mem⟩

theorem entriesInserted (ascends : index.Ascends) : empty.insertAll index.entries = index := by
  have postings : (empty.insertAll index.entries).postings = index.postings := by
    refine Std.ExtTreeMap.ext_getElem? fun token => ?_
    have nothing : empty.postings[token]? = none := Std.ExtTreeMap.getElem?_empty
    rw [insertAllAtToken, nothing]
    cases held : index.postings[token]? with
    | none =>
      rw [if_neg]
      intro mem
      obtain ⟨places, found⟩ := memEntries.mp mem
      cases held.symm.trans found
    | some places =>
      have same (place : Nat) : place ∈ mentioned index.entries token ↔ place ∈ places.toList := by
        rw [mentionedEntries, Holds, held]
        simp
      rw [if_pos (memEntries.mpr ⟨places, held⟩), addedSame same, added, Option.getD_none,
        List.nil_append, sortUniqueOfAscending (ascends token places held)]
  exact congrArg Index.mk postings

/- Calls that mention the same tokens, each with the same places, make the same index, in which each
token has what it had and what is mentioned for it. The places of a token ascend after each call. Any
calls that mention what the entries of an index do, in whatever order, pieces and repetitions, make
the index out of an empty one, whether or not anything was added to it. -/
theorem insertionIsUnion {start : Index} (started : start.Started) :
    (∀ calls others, SameMentions calls others → start.insertAll calls = start.insertAll others) ∧
      (∀ calls token place, (start.insertAll calls).Holds token place ↔
        start.Holds token place ∨ place ∈ mentioned calls token) ∧
      (∀ (calls : List Insertion) (count : Nat), (start.insertAll (calls.take count)).Ascends) ∧
      ∀ calls again, SameMentions again (start.insertAll calls).entries →
        empty.insertAll again = start.insertAll calls := by
  have ascends := startedAscends started
  refine ⟨fun calls others same => insertAllSame same start, insertAllHolds start,
    fun calls count => insertAllAscends ascends _, fun calls again same => ?_⟩
  rw [insertAllSame same, entriesInserted (insertAllAscends ascends calls)]

theorem piecesInserted :
    (build ["f(A)", "A"]).Started ∧
      (build ["f(A)", "A"]).insertAll [("f", [7, 1, 7]), ("b", []), ("f", [3])] =
        (build ["f(A)", "A"]).insertAll [("f", [3, 1]), ("f", [7, 3]), ("b", [])] ∧
      empty.insertAll [("f", [0, 0]), ("a", [1]), ("f", []), ("a", [0, 1])] =
        build ["f(A)", "A"] := by
  have few : ["f(A)", "A"].length ≤ UInt32.size := by decide
  have started : (build ["f(A)", "A"]).Started := .inr ⟨_, few, (inWordsFits few).symm⟩
  obtain ⟨union, _, _, again⟩ := insertionIsUnion started
  refine ⟨started, union _ _ (sameOfMentions (by decide) (by decide)), again [] _ ?_⟩
  exact sameOfMentions (by decide +kernel) (by decide +kernel)

/-! ### One key too many -/

theorem blankHolding (count : Nat) :
    holding (["b", "b"] ++ List.replicate count "") "b" = [0, 1] := by
  induction count with
  | zero => decide +kernel
  | succ count ih =>
    rw [List.replicate_succ', ← List.append_assoc, holdingConcat, ih, if_neg (by decide +kernel)]
    rfl

/- The third key with the token comes after 2³² others. The place 0 stands at the end of its list
then, where no list that something was inserted into has it. -/
theorem placesStartOver :
    let keys := ["b", "b"] ++ List.replicate (UInt32.size - 2) "" ++ ["b"]
    (buildInWords keys).postings["b"]? = some #[0, 1, 0] ∧ ¬(buildInWords keys).Ascends ∧
      empty.insertAll (buildInWords keys).entries ≠ buildInWords keys := by
  have full : (["b", "b"] ++ List.replicate (UInt32.size - 2) "").length = UInt32.size := by
    rw [List.length_append, List.length_replicate]
    rfl
  have before := buildLists (["b", "b"] ++ List.replicate (UInt32.size - 2) "") "b"
  rw [blankHolding] at before
  have built := inWordsStartOver full "b"
  have tokens : lowerTokens "b" = ["b"] := by decide +kernel
  generalize ["b", "b"] ++ List.replicate (UInt32.size - 2) "" = keys at built before
  have found : (buildInWords (keys ++ ["b"])).postings["b"]? = some #[0, 1, 0] := by
    rw [built, noteKey, tokens, List.foldl_cons, List.foldl_nil, note, Std.ExtTreeMap.getElem?_alter,
      if_pos Std.compare_self, before]
    rfl
  have falls : ¬(buildInWords (keys ++ ["b"])).Ascends := fun ascends =>
    absurd (ascends "b" _ found) (by decide)
  refine ⟨found, falls, fun same => falls ?_⟩
  rw [← same]
  exact insertAllAscends (buildAscends []) _

end Index
end CxxSymbols.Search
