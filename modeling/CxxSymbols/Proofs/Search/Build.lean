import CxxSymbols.Proofs.Search.Ascending
/-! What building an index comes to: each token has the places of the keys that hold it. A token
may come again in the key that is at hand, and only there, because all earlier places are below
the one of this key. So the last place of a list tells whether it has the key already. -/
namespace CxxSymbols.Search

def holding (keys : List String) (token : String) : List Nat :=
  (keys.zipIdx.filter fun e => token ∈ lowerTokens e.1).map Prod.snd

theorem memHolding {keys : List String} {token : String} {place : Nat} :
    place ∈ holding keys token ↔ ∃ key, keys[place]? = some key ∧ token ∈ lowerTokens key := by
  simp only [holding, List.mem_map, List.mem_filter, decide_eq_true_eq, Prod.exists,
    exists_eq_right, List.mk_mem_zipIdx_iff_getElem?]

theorem holdingAscends (keys : List String) (token : String) : Ascending (holding keys token) := by
  have part : (holding keys token).Sublist (List.range' 0 keys.length) := by
    rw [← List.zipIdx_map_snd]
    exact List.filter_sublist.map Prod.snd
  exact List.Pairwise.sublist part List.pairwise_lt_range'

theorem holdingFewer (keys : List String) (token : String) :
    (holding keys token).length ≤ keys.length := by
  rw [holding, List.length_map]
  exact Nat.le_trans (List.length_filter_le _ _) (Nat.le_of_eq List.length_zipIdx)

theorem holdingBelow {keys : List String} {token : String} {place : Nat}
    (mem : place ∈ holding keys token) : place < keys.length := by
  obtain ⟨key, found, _⟩ := memHolding.mp mem
  exact (List.getElem?_eq_some_iff.mp found).1

theorem holdingConcat (keys : List String) (key token : String) :
    holding (keys ++ [key]) token =
      holding keys token ++ if token ∈ lowerTokens key then [keys.length] else [] := by
  have last : [key].zipIdx keys.length = [(key, keys.length)] := rfl
  rw [holding, List.zipIdx_append, Nat.zero_add, last, List.filter_append, List.map_append,
    ← holding]
  by_cases held : token ∈ lowerTokens key
  · simp [held]
  · simp [held]

/- A list as an index holds it: an empty one is left out. -/
def listed : List Nat → Option Postings
  | [] => none
  | place :: places => some (place :: places).toArray

theorem listedConcat (places : List Nat) (place : Nat) :
    listed (places ++ [place]) = some (places ++ [place]).toArray := by
  cases places <;> rfl

namespace Index
variable {index : Index} {place : Nat} {old : String → List Nat}

/- What an index has for a token while a key is noted, of whose tokens some have been. -/
def During (old : String → List Nat) (place : Nat) (tokens : List String) (index : Index) : Prop :=
  ∀ token, index.postings[token]? =
    listed (old token ++ if token ∈ tokens then [place] else [])

theorem noteDuring {tokens : List String} (below : ∀ token, ∀ m ∈ old token, m < place)
    (during : During old place tokens index) (next : String) :
    During old place (tokens ++ [next]) (index.note place next) := by
  intro token
  rw [note, Std.ExtTreeMap.getElem?_alter]
  by_cases same : next = token
  · obtain rfl := same
    rw [if_pos (Std.compare_self), during next]
    by_cases noted : next ∈ tokens
    · simp [noted, listedConcat]
    · have fresh : (old next).getLast? ≠ some place := by
        intro last
        exact Nat.lt_irrefl _ (below next place (List.mem_of_getLast? last))
      cases shape : old next with
      | nil => simp [noted, listed]
      | cons m places =>
        rw [shape] at fresh
        simp [noted, listed, fresh]
  · have apart : ¬compare next token = .eq := fun equal => same (Std.compare_eq_iff_eq.mp equal)
    rw [if_neg apart, during token]
    have other : ¬token = next := fun equal => same equal.symm
    simp [other]

theorem noteKeyDuring (below : ∀ token, ∀ m ∈ old token, m < place) {tokens : List String}
    (during : During old place tokens index) (rest : List String) :
    During old place (tokens ++ rest)
      (rest.foldl (fun index token => index.note place token) index) := by
  induction rest generalizing tokens index with
  | nil =>
    rw [List.append_nil]
    exact during
  | cons next rest ih =>
    have more := ih (noteDuring below during next)
    rw [List.append_assoc] at more
    exact more

def Lists (keys : List String) (index : Index) : Prop :=
  ∀ token, index.postings[token]? = listed (holding keys token)

theorem noteKeyLists {keys : List String} (lists : Lists keys index) (key : String) :
    Lists (keys ++ [key]) (index.noteKey keys.length key) := by
  have before : During (holding keys) keys.length [] index := by
    intro token
    rw [lists token]
    simp
  have noted := noteKeyDuring (fun token m mem => holdingBelow mem) before (lowerTokens key)
  intro token
  rw [holdingConcat]
  exact noted token

theorem buildListsFrom {seen : List String} (lists : Lists seen index) (keys : List String) :
    Lists (seen ++ keys) (keys.foldl (fun (index, place) key =>
      (noteKey index place key, place + 1)) (index, seen.length)).1 := by
  induction keys generalizing seen index with
  | nil =>
    rw [List.append_nil]
    exact lists
  | cons key keys ih =>
    have more := ih (noteKeyLists lists key)
    rw [List.append_assoc, List.length_append] at more
    exact more

theorem buildLists (keys : List String) : Lists keys (build keys) := by
  have none : Lists [] empty := by
    intro token
    exact Std.ExtTreeMap.getElem?_empty
  exact buildListsFrom none keys

theorem buildPostings {keys : List String} {token : String} {places : Postings}
    (found : (build keys).postings[token]? = some places) :
    places.toList = holding keys token := by
  rw [buildLists keys token] at found
  cases shape : holding keys token with
  | nil =>
    rw [shape] at found
    cases found
  | cons m ms =>
    rw [shape] at found
    cases found
    rfl

theorem memBuildPostings {keys : List String} {token : String} {place : Nat} :
    (∃ places, (build keys).postings[token]? = some places ∧ place ∈ places.toList) ↔
      place ∈ holding keys token := by
  constructor
  · rintro ⟨places, found, mem⟩
    rw [← buildPostings found]
    exact mem
  · intro mem
    rw [buildLists keys token]
    cases shape : holding keys token with
    | nil =>
      rw [shape] at mem
      cases mem
    | cons m ms =>
      rw [shape] at mem
      exact ⟨_, rfl, mem⟩

end Index
end CxxSymbols.Search
