import CxxSymbols.Proofs.Store.Postings
import CxxSymbols.Text.Number
/-! Which lists of ordinals have distances, and which distances are those of a list. Either way one
leads back to the other, so a posting list and its message tell the same. -/
namespace CxxSymbols.Store.IndexMessage

def reach (ds : List UInt32) : Nat := Text.total (ds.map UInt32.toNat)

theorem reachNext (d : UInt32) (ds : List UInt32) : reach (d :: ds) = d.toNat + reach ds := rfl

theorem reachFront {front ds : List UInt32} (begins : front <+: ds) : reach front ≤ reach ds := by
  induction front generalizing ds with
  | nil => exact Nat.zero_le _
  | cons d front ih =>
    cases ds with
    | nil => cases List.prefix_nil.mp begins
    | cons e ds =>
      obtain ⟨rfl, behind⟩ := List.cons_prefix_cons.mp begins
      exact Nat.add_le_add_left (ih behind) d.toNat

structure Spaced (ds : List UInt32) : Prop where
  apart : ∀ d ∈ ds.tail, d ≠ 0
  within : ∀ front, front <+: ds → reach front < UInt32.size

structure Reached (ds ns : List UInt32) : Prop where
  length : ns.length = ds.length
  sums : ∀ (k : Nat) (h : k < ns.length), ns[k].toNat = reach (ds.take (k + 1))

/-! ### Distances of ordinals -/

theorem deltasAfterUnordered {before : UInt32} {ns : List UInt32}
    (unordered : ¬(before :: ns).Pairwise (· < ·)) : deltasAfter before ns = none := by
  cases distances : deltasAfter before ns with
  | none => rfl
  | some ds => exact absurd (ascendingOfDeltasAfter distances) unordered

theorem deltasOfUnordered {ns : List UInt32} (unordered : ¬ns.Pairwise (· < ·)) :
    deltas? ns = none := by
  cases ns with
  | nil => exact absurd .nil unordered
  | cons n ns => rw [deltas?, deltasAfterUnordered unordered, Option.map_none]

/-! ### Ordinals at distances -/

theorem addFits {before d : UInt32} (fits : before.toNat + d.toNat < UInt32.size) :
    (before + d).toNat = before.toNat + d.toNat := by
  rw [UInt32.toNat_add]
  exact Nat.mod_eq_of_lt fits

theorem deltasAfterSums {before : UInt32} {ds ns : List UInt32}
    (ok : sumsAfter before ds = some ns) : deltasAfter before ns = some ds := by
  induction ds generalizing before ns with
  | nil =>
    cases Option.some.inj ok
    rfl
  | cons d ds ih =>
    rw [sumsAfter] at ok
    split at ok
    · rename_i step
      obtain ⟨rest, sums, rfl⟩ := Option.map_eq_some_iff.mp ok
      have next := addFits step.2
      have positive : 0 < d.toNat := Nat.pos_of_ne_zero fun zero =>
        step.1 (UInt32.toNat_inj.mp zero)
      have less : before < before + d := by
        rw [UInt32.lt_iff_toNat_lt, next]
        omega
      have back : before + d - before = d := by
        apply UInt32.toNat_inj.mp
        rw [wordSub less, next]
        omega
      rw [deltasAfter, if_pos less, ih sums, back]
      rfl
    · cases ok

theorem deltasOfSums {ds ns : List UInt32} (ok : sums? ds = some ns) : deltas? ns = some ds := by
  cases ds with
  | nil =>
    cases Option.some.inj ok
    rfl
  | cons d ds =>
    obtain ⟨rest, sums, rfl⟩ := Option.map_eq_some_iff.mp ok
    rw [deltas?, deltasAfterSums sums]
    rfl

theorem sumsAfterSome {before : UInt32} {ds : List UInt32} :
    (sumsAfter before ds).isSome ↔
      (∀ d ∈ ds, d ≠ 0) ∧ before.toNat + reach ds < UInt32.size := by
  induction ds generalizing before with
  | nil =>
    have fits : before.toNat + reach [] < UInt32.size := before.toNat_lt
    exact ⟨fun _ => ⟨by simp, fits⟩, fun _ => rfl⟩
  | cons d ds ih =>
    rw [sumsAfter, reachNext, List.forall_mem_cons]
    split
    · rename_i step
      rw [Option.isSome_map, ih, addFits step.2, Nat.add_assoc, and_assoc]
      exact ⟨fun spaced => ⟨step.1, spaced⟩, fun spaced => spaced.2⟩
    · rename_i stuck
      constructor
      · intro impossible
        cases impossible
      · rintro ⟨apart, within⟩
        refine absurd ⟨apart.1, ?_⟩ stuck
        omega

theorem sumsSome {ds : List UInt32} : (sums? ds).isSome ↔ Spaced ds := by
  cases ds with
  | nil =>
    refine ⟨fun _ => ⟨by simp, fun front begins => ?_⟩, fun _ => rfl⟩
    rw [List.prefix_nil.mp begins]
    decide
  | cons d ds =>
    rw [sums?, Option.isSome_map, sumsAfterSome, ← reachNext]
    constructor
    · rintro ⟨apart, within⟩
      exact ⟨apart, fun front begins => Nat.lt_of_le_of_lt (reachFront begins) within⟩
    · intro spaced
      exact ⟨spaced.apart, spaced.within _ (List.prefix_refl _)⟩

theorem sumsAfterReached {before : UInt32} {ds ns : List UInt32}
    (ok : sumsAfter before ds = some ns) : ns.length = ds.length ∧
      ∀ (k : Nat) (h : k < ns.length), ns[k].toNat = before.toNat + reach (ds.take (k + 1)) := by
  induction ds generalizing before ns with
  | nil =>
    cases Option.some.inj ok
    exact ⟨rfl, nofun⟩
  | cons d ds ih =>
    rw [sumsAfter] at ok
    split at ok
    · rename_i step
      obtain ⟨rest, sums, rfl⟩ := Option.map_eq_some_iff.mp ok
      obtain ⟨length, further⟩ := ih sums
      have next := addFits step.2
      refine ⟨congrArg Nat.succ length, fun k inside => ?_⟩
      rw [List.take_succ_cons, reachNext]
      cases k with
      | zero =>
        rw [List.getElem_cons_zero, next]
        rfl
      | succ k =>
        rw [List.getElem_cons_succ, further k (Nat.lt_of_succ_lt_succ inside), next, Nat.add_assoc]
    · cases ok

theorem sumsReached {ds ns : List UInt32} (ok : sums? ds = some ns) : Reached ds ns := by
  cases ds with
  | nil =>
    cases Option.some.inj ok
    exact ⟨rfl, nofun⟩
  | cons d ds =>
    obtain ⟨rest, sums, rfl⟩ := Option.map_eq_some_iff.mp ok
    obtain ⟨length, further⟩ := sumsAfterReached sums
    refine ⟨congrArg Nat.succ length, fun k inside => ?_⟩
    rw [List.take_succ_cons, reachNext]
    cases k with
    | zero => rfl
    | succ k => exact further k (Nat.lt_of_succ_lt_succ inside)

/-! ### Entries and messages -/

theorem ofRecordAscending {entry : IndexEntry} (ascends : entry.ordinals.Pairwise (· < ·)) :
    ∃ m, ofRecord entry = .ok m ∧ m.token = entry.token ∧ m.toRecord = .ok entry ∧
      Reached m.deltas entry.ordinals := by
  obtain ⟨ds, distances, _⟩ := deltasOfAscending ascends
  have written : ofRecord entry = .ok ⟨entry.token, ds⟩ := by rw [ofRecord, distances]
  exact ⟨_, written, rfl, toRecordOfRecord written, sumsReached (sumsOfDeltas distances)⟩

theorem ofRecordUnordered {entry : IndexEntry} (unordered : ¬entry.ordinals.Pairwise (· < ·)) :
    ofRecord entry = .error .postingsNotSorted := by
  rw [ofRecord, deltasOfUnordered unordered]

theorem toRecordSpaced {m : IndexMessage} (spaced : Spaced m.deltas) :
    ∃ entry, m.toRecord = .ok entry ∧ entry.token = m.token ∧ ofRecord entry = .ok m ∧
      Reached m.deltas entry.ordinals := by
  obtain ⟨ns, sums⟩ := Option.isSome_iff_exists.mp (sumsSome.mpr spaced)
  exact ⟨⟨m.token, ns⟩, by rw [toRecord, sums], rfl, by rw [ofRecord, deltasOfSums sums],
    sumsReached sums⟩

theorem toRecordUnspaced {m : IndexMessage} (unspaced : ¬Spaced m.deltas) :
    m.toRecord = .error .postingsNotSorted := by
  have none : sums? m.deltas = none :=
    Option.not_isSome_iff_eq_none.mp fun some => unspaced (sumsSome.mp some)
  rw [toRecord, none]

/- Posting lists and messages tell the same: a list is written exactly if it ascends, a message is
read exactly if its distances are those of a list, and each leads back to the other with its token.
What is not written or not read is refused as unsorted. -/
theorem distancesInvertible :
    (∀ entry : IndexEntry,
      (entry.ordinals.Pairwise (· < ·) ∧
        ∃ m, ofRecord entry = .ok m ∧ m.token = entry.token ∧ m.toRecord = .ok entry ∧
          Reached m.deltas entry.ordinals) ∨
      (¬entry.ordinals.Pairwise (· < ·) ∧ ofRecord entry = .error .postingsNotSorted)) ∧
    ∀ m : IndexMessage,
      (Spaced m.deltas ∧
        ∃ entry, m.toRecord = .ok entry ∧ entry.token = m.token ∧ ofRecord entry = .ok m ∧
          Reached m.deltas entry.ordinals) ∨
      (¬Spaced m.deltas ∧ m.toRecord = .error .postingsNotSorted) := by
  constructor
  · intro entry
    by_cases ascends : entry.ordinals.Pairwise (· < ·)
    · exact .inl ⟨ascends, ofRecordAscending ascends⟩
    · exact .inr ⟨ascends, ofRecordUnordered ascends⟩
  · intro m
    by_cases spaced : Spaced m.deltas
    · exact .inl ⟨spaced, toRecordSpaced spaced⟩
    · exact .inr ⟨spaced, toRecordUnspaced spaced⟩

example : sums? [3, 1, 0xFFFFFFFB] = some [3, 4, 0xFFFFFFFF] ∧ sums? [3, 1, 0xFFFFFFFC] = none := by
  decide

end CxxSymbols.Store.IndexMessage
