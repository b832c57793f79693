import CxxSymbols.Proofs.Search.Build
/-! A query finds what one would find by going through all keys. The tokens that begin with a text
stand together in the order of strings, from the first one that is not below the text. -/
namespace CxxSymbols.Search

/-! ### Strings with a common beginning -/

theorem listNotBelowBeginning {p s : List Char} (begins : p <+: s) : ¬s < p := by
  induction p generalizing s with
  | nil => exact List.not_lt_nil s
  | cons c p ih =>
    obtain ⟨t, rfl⟩ := begins
    rw [List.cons_append, List.cons_lt_cons_iff, not_or]
    refine ⟨Nat.lt_irrefl _, fun both => ?_⟩
    exact ih (List.prefix_append p t) both.2

theorem listBetweenBegins {p a b : List Char} (above : ¬a < p) (less : a < b) (begins : p <+: b) :
    p <+: a := by
  induction p generalizing a b with
  | nil => exact List.nil_prefix
  | cons c p ih =>
    obtain ⟨t, rfl⟩ := begins
    cases a with
    | nil => exact absurd (List.nil_lt_cons c p) above
    | cons d a =>
      rw [List.cons_lt_cons_iff, not_or] at above
      rw [List.cons_append, List.cons_lt_cons_iff] at less
      have same : d = c := by
        rcases less with lower | equal
        · exact absurd lower above.1
        · exact equal.1
      obtain rfl := same
      have behind : a < p ++ t := by
        rcases less with lower | equal
        · exact absurd lower above.1
        · exact equal.2
      have rest := ih (fun lower => above.2 ⟨rfl, lower⟩) behind (List.prefix_append p t)
      exact (List.prefix_cons_inj d).mpr rest

theorem notBelowBeginning {p s : String} (begins : p.toList <+: s.toList) : ¬s < p :=
  listNotBelowBeginning begins

theorem betweenBegins {p a b : String} (above : ¬a < p) (less : a < b)
    (begins : p.toList <+: b.toList) : p.toList <+: a.toList :=
  listBetweenBegins above less begins

/- In an ordered list, where what is low comes first and what is wanted stands together behind it,
skipping the one and taking the other gives all that is wanted. -/
theorem stretchOfOrdered {α : Type} {r : α → α → Prop} {low wanted : α → Bool} {xs : List α}
    (ordered : xs.Pairwise r) (down : ∀ a b, r a b → low b = true → low a = true)
    (apart : ∀ a, wanted a = true → low a = false)
    (together : ∀ a b, r a b → low a = false → wanted b = true → wanted a = true) :
    (xs.dropWhile low).takeWhile wanted = xs.filter wanted := by
  induction xs with
  | nil => rfl
  | cons a xs ih =>
    have rest := ih ordered.of_cons
    cases skipped : low a with
    | true =>
      have other : ¬wanted a = true := by
        intro taken
        cases skipped.symm.trans (apart a taken)
      rw [List.dropWhile_cons_of_pos skipped, rest, List.filter_cons_of_neg other]
    | false =>
      have high : xs.dropWhile low = xs := by
        cases xs with
        | nil => rfl
        | cons b xs =>
          refine List.dropWhile_cons_of_neg fun lower => ?_
          have same := down a b (List.rel_of_pairwise_cons ordered List.mem_cons_self) lower
          cases skipped.symm.trans same
      rw [high] at rest
      rw [List.dropWhile_cons_of_neg (by simp [skipped])]
      cases taken : wanted a with
      | true => rw [List.takeWhile_cons_of_pos taken, List.filter_cons_of_pos taken, rest]
      | false =>
        rw [List.takeWhile_cons_of_neg (by simp [taken]), List.filter_cons_of_neg (by simp [taken])]
        refine (List.filter_eq_nil_iff.mpr fun b mem want => ?_).symm
        have same := together a b (List.rel_of_pairwise_cons ordered mem) skipped want
        cases taken.symm.trans same

namespace Index

theorem ordered (index : Index) : index.toList.Pairwise fun a b => a.1 < b.1 := by
  refine Std.ExtTreeMap.ordered_keys_toList.imp fun less => ?_
  exact compareOfLessAndEq_eq_lt.mp less

theorem memMatching {index : Index} {text : String} {place : Nat} :
    place ∈ index.matching text ↔ ∃ (token : String) (places : Postings),
      index.postings[token]? = some places ∧ text.toList <+: token.toList ∧
        place ∈ places.toList := by
  have stretch : (index.toList.dropWhile fun e => e.1 < text).takeWhile
      (fun e => text.toList.isPrefixOf e.1.toList) =
        index.toList.filter fun e => text.toList.isPrefixOf e.1.toList := by
    refine stretchOfOrdered index.ordered ?_ ?_ ?_
    · intro a b less low
      exact decide_eq_true (String.lt_trans less (of_decide_eq_true low))
    · intro a begins
      exact decide_eq_false (notBelowBeginning (List.isPrefixOf_iff_prefix.mp begins))
    · intro a b less high begins
      have above := of_decide_eq_false high
      exact List.isPrefixOf_iff_prefix.mpr
        (betweenBegins above less (List.isPrefixOf_iff_prefix.mp begins))
  rw [matching, memSortUnique, stretch]
  simp only [List.mem_flatMap, List.mem_filter, List.isPrefixOf_iff_prefix, Prod.exists, toList,
    Std.ExtTreeMap.mem_toList_iff_getElem?_eq_some, and_assoc]

theorem matchingAscends (index : Index) (text : String) : Ascending (index.matching text) :=
  sortUniqueAscends _

/- What one token after the other leaves of what was found. Where nothing is left, no token brings
anything back. -/
theorem narrowed {index : Index} {found : List Nat} (ascends : Ascending found)
    (tokens : List String) : Ascending (index.narrow found tokens) ∧
      ∀ place, place ∈ index.narrow found tokens ↔
        place ∈ found ∧ ∀ token ∈ tokens, place ∈ index.matching token := by
  induction tokens generalizing found with
  | nil => exact ⟨ascends, by simp [narrow]⟩
  | cons token tokens ih =>
    rw [narrow]
    split
    · rename_i none
      rw [List.isEmpty_iff.mp none]
      exact ⟨.nil, by simp⟩
    · have matched := index.matchingAscends token
      obtain ⟨rest, all⟩ := ih (intersectAscends ascends matched)
      refine ⟨rest, fun place => ?_⟩
      rw [all, memIntersect ascends matched, List.forall_mem_cons, and_assoc]

theorem memSought {text token : String} : token ∈ sought text ↔ token ∈ lowerTokens text :=
  memDropRepeats.trans List.mem_mergeSort

theorem queryAscends (index : Index) (text : String) : Ascending (index.query text) := by
  unfold query
  split
  · exact .nil
  · rename_i first rest _
    exact (narrowed (index.matchingAscends first) rest).1

theorem memQuery {index : Index} {text : String} {place : Nat} :
    place ∈ index.query text ↔ lowerTokens text ≠ [] ∧
      ∀ token ∈ lowerTokens text, place ∈ index.matching token := by
  have asked : place ∈ index.query text ↔ sought text ≠ [] ∧
      ∀ token ∈ sought text, place ∈ index.matching token := by
    unfold query
    split
    · rename_i none
      simp [none]
    · rename_i first rest some
      rw [(narrowed (index.matchingAscends first) rest).2, some, List.forall_mem_cons]
      simp
  simp only [asked, ne_eq, List.eq_nil_iff_forall_not_mem, memSought]

theorem memMatchingBuild {keys : List String} {text : String} {place : Nat} :
    place ∈ (build keys).matching text ↔ ∃ key, keys[place]? = some key ∧
      ∃ token ∈ lowerTokens key, text.toList <+: token.toList := by
  rw [memMatching]
  constructor
  · rintro ⟨token, places, found, begins, mem⟩
    obtain ⟨key, here, held⟩ := memHolding.mp (memBuildPostings.mp ⟨places, found, mem⟩)
    exact ⟨key, here, token, held, begins⟩
  · rintro ⟨key, here, token, held, begins⟩
    obtain ⟨places, found, mem⟩ := memBuildPostings.mpr (memHolding.mpr ⟨key, here, held⟩)
    exact ⟨token, places, found, begins, mem⟩

/- The places that a query finds, in ascending order and each once, are those of the keys that have,
for each token of the text, a token that it begins, where upper and lower case are alike. -/
theorem queryIsNaiveSearch (keys : List String) (text : String) :
    Ascending ((build keys).query text) ∧
      ∀ place, place ∈ (build keys).query text ↔
        ∃ key, keys[place]? = some key ∧ tokenize text ≠ [] ∧
          ∀ t ∈ tokenize text, ∃ u ∈ tokenize key,
            (t.text.map Char.toLower).toList <+: (u.text.map Char.toLower).toList := by
  refine ⟨queryAscends _ text, fun place => ?_⟩
  rw [memQuery]
  constructor
  · rintro ⟨some, all⟩
    have nonempty : tokenize text ≠ [] := by
      intro none
      exact some (by rw [lowerTokens, none]; rfl)
    obtain ⟨first, mem⟩ := List.exists_mem_of_ne_nil _ some
    obtain ⟨key, here, _⟩ := memMatchingBuild.mp (all first mem)
    refine ⟨key, here, nonempty, fun t inside => ?_⟩
    obtain ⟨other, there, token, held, begins⟩ :=
      memMatchingBuild.mp (all _ (List.mem_map.mpr ⟨t, inside, rfl⟩))
    cases here.symm.trans there
    obtain ⟨u, mem, rfl⟩ := List.mem_map.mp held
    exact ⟨u, mem, begins⟩
  · rintro ⟨key, here, nonempty, all⟩
    refine ⟨fun none => nonempty (List.map_eq_nil_iff.mp none), fun token mem => ?_⟩
    obtain ⟨t, inside, rfl⟩ := List.mem_map.mp mem
    obtain ⟨u, held, begins⟩ := all t inside
    exact memMatchingBuild.mpr ⟨key, here, _, List.mem_map.mpr ⟨u, held, rfl⟩, begins⟩

end Index
end CxxSymbols.Search
