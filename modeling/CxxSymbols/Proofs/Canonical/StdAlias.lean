import CxxSymbols.Canonical.StdAlias
/-! Shortening what is short already. Each rule for a piece leaves one that no rule matches: an alias
has no arguments, and what has lost its default argument has one. The namespace `__cxx11` is taken
out once, so a name in which it stands twice is the only one that a second pass makes shorter. -/
namespace CxxSymbols.Canonical

theorem dropDefaultedAgain (helper : String) (args : List Ty) :
    dropDefaulted helper (dropDefaulted helper args) = dropDefaulted helper args := by
  match args with
  | [base, second] =>
    cases dropped : second.isStdOver helper base with
    | true => simp [dropDefaulted, dropped]
    | false => simp [dropDefaulted, dropped]
  | [] => rfl
  | [_] => rfl
  | _ :: _ :: _ :: _ => rfl

namespace Piece
variable {p : Piece} {args : List Ty}

theorem stdAliasPlain (spelling : String) : (plain spelling).stdAlias = plain spelling := rfl

inductive Shortened (p : Piece) (args : List Ty) : Prop where
  | renamed {short : String} (matched : stringAlias? args = some short)
      (result : p.stdAlias = plain short)
  | dropped (helper : String) (always : ∀ args, (template p.spelling args).stdAlias =
      template p.spelling (dropDefaulted helper args))
  | kept (result : p.stdAlias = p)

theorem shortened (present : p.args = some args) : Shortened p args := by
  obtain ⟨spelling, _⟩ := p
  cases present
  by_cases string : spelling = "basic_string"
  · obtain rfl := string
    cases matched : stringAlias? args with
    | some short => exact .renamed matched (by simp [stdAlias, matched])
    | none => exact .kept (by simp [stdAlias, matched])
  · by_cases container : spelling = "vector" ∨ spelling = "initializer_list"
    · exact .dropped "allocator" fun args => by simp [stdAlias, template, string, container]
    · by_cases pointer : spelling = "unique_ptr"
      · exact .dropped "default_delete" fun args => by simp [stdAlias, template, pointer]
      · exact .kept (by simp [stdAlias, string, container, pointer])

theorem stdAliasAgain (p : Piece) : p.stdAlias.stdAlias = p.stdAlias := by
  obtain ⟨spelling, args⟩ := p
  cases args with
  | none => rfl
  | some args =>
    cases shortened (p := ⟨spelling, some args⟩) rfl with
    | renamed _ result => rw [result, stdAliasPlain]
    | dropped helper always =>
      have once : stdAlias ⟨spelling, some args⟩ = _ := always args
      rw [once, always, dropDefaultedAgain]
    | kept result => rw [result, result]

theorem aliasCases {short : String} (matched : stringAlias? args = some short) :
    short = "string" ∨ short = "wstring" := by
  unfold stringAlias? at matched
  split at matched
  · simp only at matched
    split at matched
    · split at matched
      · cases matched
        exact .inl rfl
      · split at matched
        · cases matched
          exact .inr rfl
        · cases matched
    · cases matched
  · cases matched

theorem stdAliasInline (p : Piece) : p.stdAlias = plain "__cxx11" ↔ p = plain "__cxx11" := by
  obtain ⟨spelling, args⟩ := p
  cases args with
  | none => rfl
  | some args =>
    have other : (⟨spelling, some args⟩ : Piece) ≠ plain "__cxx11" := by
      intro same
      cases same
    refine iff_of_false (fun same => ?_) other
    cases shortened (p := ⟨spelling, some args⟩) rfl with
    | renamed matched result =>
      have spellings := congrArg Piece.spelling (result.symm.trans same)
      rcases aliasCases matched with rfl | rfl <;> exact absurd spellings (by decide)
    | dropped helper always =>
      have once : stdAlias ⟨spelling, some args⟩ = _ := always args
      cases once.symm.trans same
    | kept result => exact other (result.symm.trans same)

end Piece

namespace Name
variable {p : Piece} {rest : List Piece}

theorem stdAliasDirect (other : p ≠ .plain "__cxx11") :
    stdAlias ⟨.plain "std" :: p :: rest⟩ = ⟨.plain "std" :: p.stdAlias :: rest⟩ := by
  unfold stdAlias
  split
  · rename_i shape
    cases shape
    exact absurd rfl other
  · rename_i shape
    cases shape
    exact absurd rfl other
  · rename_i shape
    cases shape
    rfl
  · rename_i apart
    exact absurd rfl (apart p rest)

theorem stdAliasElsewhere {pieces : List Piece}
    (elsewhere : ¬∃ p rest, pieces = .plain "std" :: p :: rest) :
    stdAlias ⟨pieces⟩ = ⟨pieces⟩ := by
  unfold stdAlias
  split
  · exact absurd ⟨_, _, ‹_›⟩ elsewhere
  · exact absurd ⟨_, _, ‹_›⟩ elsewhere
  · exact absurd ⟨_, _, ‹_›⟩ elsewhere
  · rfl

/- What is left without the inline namespace is shortened as if it had never been there, also where
it is that namespace once more. -/
theorem stdAliasInside : stdAlias ⟨.plain "std" :: .plain "__cxx11" :: p :: rest⟩ =
    ⟨.plain "std" :: p.stdAlias :: rest⟩ := rfl

theorem stdAliasShorter (rest : List Piece) :
    (stdAlias ⟨.plain "std" :: .plain "__cxx11" :: rest⟩).pieces.length = rest.length + 1 := by
  cases rest with
  | nil => rfl
  | cons p rest => rfl

theorem stdAliasDirectAgain (other : p ≠ .plain "__cxx11") :
    stdAlias ⟨.plain "std" :: p.stdAlias :: rest⟩ = ⟨.plain "std" :: p.stdAlias :: rest⟩ := by
  have short : p.stdAlias ≠ .plain "__cxx11" := fun same => other (p.stdAliasInline.mp same)
  rw [stdAliasDirect short, p.stdAliasAgain]

def DoublesInline (n : Name) : Prop :=
  ∃ rest, n.pieces = .plain "std" :: .plain "__cxx11" :: .plain "__cxx11" :: rest

/- A name that has been shortened stays as it is, unless the inline namespace was there twice: then
one is left, and going over the name once more takes out that one too. -/
theorem shortenedStays (n : Name) : n.stdAlias.stdAlias = n.stdAlias ↔ ¬n.DoublesInline := by
  obtain ⟨pieces⟩ := n
  by_cases inside : ∃ rest, pieces = .plain "std" :: .plain "__cxx11" :: rest
  · obtain ⟨rest, rfl⟩ := inside
    cases rest with
    | nil =>
      refine iff_of_true rfl ?_
      rintro ⟨more, shape⟩
      cases shape
    | cons p rest =>
      by_cases doubled : p = .plain "__cxx11"
      · obtain rfl := doubled
        refine iff_of_false (fun same => ?_) (fun single => single ⟨rest, rfl⟩)
        have lengths := congrArg (fun n : Name => n.pieces.length) same
        rw [stdAliasInside, Piece.stdAliasPlain, stdAliasShorter] at lengths
        exact absurd lengths (Nat.ne_of_lt (Nat.lt_succ_self _))
      · refine iff_of_true ?_ ?_
        · rw [stdAliasInside, stdAliasDirectAgain doubled]
        · rintro ⟨more, shape⟩
          cases shape
          exact doubled rfl
  · refine iff_of_true ?_ fun ⟨rest, shape⟩ => inside ⟨_, shape⟩
    by_cases direct : ∃ p rest, pieces = .plain "std" :: p :: rest
    · obtain ⟨p, rest, rfl⟩ := direct
      have other : p ≠ .plain "__cxx11" := by
        rintro rfl
        exact inside ⟨rest, rfl⟩
      rw [stdAliasDirect other, stdAliasDirectAgain other]
    · rw [stdAliasElsewhere direct, stdAliasElsewhere direct]

/- `std::__cxx11::__cxx11::f` -/
theorem doubledShrinksAgain :
    let n : Name := ⟨[.plain "std", .plain "__cxx11", .plain "__cxx11", .plain "f"]⟩
    n.stdAlias.text = "std::__cxx11::f" ∧ n.stdAlias.stdAlias.text = "std::f" ∧
      n.stdAlias.stdAlias ≠ n.stdAlias := by
  exact ⟨by decide, by decide, fun same => absurd (congrArg Name.text same) (by decide)⟩

end Name
end CxxSymbols.Canonical
