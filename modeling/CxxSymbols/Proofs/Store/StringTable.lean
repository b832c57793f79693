import CxxSymbols.Store.StringTable
/-! Strings by number. A number goes on standing for its string while others come in, and in the
end it stands for a text of its own or for an entry of the table that is the same string. -/
namespace CxxSymbols.Store.StringPool

def string? (pool : StringPool) (n : Nat) : Option String := (pool.strings[n]?).map (·.string)

def Consistent (pool : StringPool) : Prop :=
  ∀ s n, pool.numbers[s]? = some n → pool.string? n = some s

theorem emptyConsistent : Consistent {} := by
  intro s n found
  cases Std.HashMap.getElem?_empty.symm.trans found

theorem stringOfCounted (pool : StringPool) (k n : Nat) :
    string? { pool with strings :=
      pool.strings.modify k fun e => { e with count := e.count + 1 } } n = pool.string? n := by
  simp only [string?, Array.getElem?_modify]
  split
  · cases pool.strings[n]? <;> rfl
  · rfl

theorem stringOfPushed (pool : StringPool) (s : String) (size n : Nat) :
    string? ⟨pool.numbers.insert s pool.strings.size, pool.strings.push ⟨s, 1⟩, size⟩ n =
      if n = pool.strings.size then some s else pool.string? n := by
  simp only [string?, Array.getElem?_push]
  split <;> rfl

theorem stringWithin {pool : StringPool} {n : Nat} {s : String} (named : pool.string? n = some s) :
    n < pool.strings.size := by
  obtain ⟨e, found, _⟩ := Option.map_eq_some_iff.mp named
  exact (Array.getElem?_eq_some_iff.mp found).1

theorem internNames {pool : StringPool} (ok : pool.Consistent) (s : String) :
    (pool.intern s).2.string? (pool.intern s).1 = some s := by
  unfold intern
  split
  · rename_i n known
    rw [stringOfCounted]
    exact ok s n known
  · simp only [stringOfPushed, if_true]

theorem internKeeps {pool : StringPool} {n : Nat} {x : String} (named : pool.string? n = some x)
    (s : String) : (pool.intern s).2.string? n = some x := by
  unfold intern
  split
  · rw [stringOfCounted]
    exact named
  · rw [stringOfPushed, if_neg (Nat.ne_of_lt (stringWithin named))]
    exact named

theorem internConsistent {pool : StringPool} (ok : pool.Consistent) (s : String) :
    (pool.intern s).2.Consistent := by
  intro x n known
  unfold intern at known ⊢
  split at known
  · rw [stringOfCounted]
    exact ok x n known
  · rw [stringOfPushed]
    rw [Std.HashMap.getElem?_insert] at known
    split at known
    · rename_i same
      rw [if_pos (Option.some.inj known).symm, eq_of_beq same]
    · have named := ok x n known
      rw [if_neg (Nat.ne_of_lt (stringWithin named))]
      exact named

theorem internSize (pool : StringPool) (s : String) :
    (pool.intern s).2.strings.size ≤ pool.strings.size + 1 := by
  unfold intern
  split
  · rw [Array.size_modify]
    exact Nat.le_succ _
  · exact Nat.le_of_eq (Array.size_push _)

/-! ### The table -/

def Stands (table : List String) (s : String) : Resolution → Prop
  | .inline text => text = s
  | .entry place => table[place]? = some s

theorem resolutionsLength (entries : Nat) (strings : List StringCount) :
    (resolutionsFrom entries strings).length = strings.length := by
  induction strings generalizing entries with
  | nil => rfl
  | cons e rest ih =>
    rw [resolutionsFrom]
    split
    · exact congrArg (· + 1) (ih _)
    · exact congrArg (· + 1) (ih _)

theorem resolvedFrom {strings : List StringCount} {n : Nat} {e : StringCount}
    (found : strings[n]? = some e) (before : List String) :
    ∃ r, (resolutionsFrom before.length strings)[n]? = some r ∧
      Stands (before ++ (strings.filter fun e => 1 < e.count).map (·.string)) e.string r := by
  induction strings generalizing n before with
  | nil => cases found
  | cons head rest ih =>
    by_cases shared : 1 < head.count
    · have kept : (head :: rest).filter (fun e => decide (1 < e.count)) =
          head :: rest.filter fun e => decide (1 < e.count) :=
        List.filter_cons_of_pos (decide_eq_true shared)
      rw [resolutionsFrom, if_pos shared, kept, List.map_cons]
      cases n with
      | zero =>
        cases Option.some.inj found
        refine ⟨_, rfl, ?_⟩
        simp [Stands]
      | succ n =>
        have more := ih (n := n) found (before ++ [head.string])
        rw [List.length_append, List.append_assoc] at more
        exact more
    · have dropped : (head :: rest).filter (fun e => decide (1 < e.count)) =
          rest.filter fun e => decide (1 < e.count) :=
        List.filter_cons_of_neg fun more => shared (of_decide_eq_true more)
      rw [resolutionsFrom, if_neg shared, dropped]
      cases n with
      | zero =>
        cases Option.some.inj found
        exact ⟨_, rfl, rfl⟩
      | succ n => exact ih (n := n) found before

theorem resolved {pool : StringPool} {n : Nat} {s : String} (named : pool.string? n = some s) :
    ∃ r, pool.resolutions[n]? = some r ∧ Stands pool.table s r := by
  obtain ⟨e, found, rfl⟩ := Option.map_eq_some_iff.mp named
  obtain ⟨r, at', stands⟩ := resolvedFrom (Array.getElem?_toList.trans found) []
  exact ⟨r, by rw [resolutions, List.getElem?_toArray]; exact at', stands⟩

theorem tableSize (pool : StringPool) : pool.table.length ≤ pool.strings.size := by
  rw [table, List.length_map]
  exact Nat.le_trans (List.length_filter_le _ _) (Nat.le_of_eq Array.length_toList)

end CxxSymbols.Store.StringPool
