import CxxSymbols.Store.Message
/-! Posting lists as they are written: the first ordinal and the distances between them. -/
namespace CxxSymbols.Store.IndexMessage

theorem wordSub {a b : UInt32} (less : a < b) : (b - a).toNat = b.toNat - a.toNat := by
  rw [UInt32.toNat_sub_of_le _ _ (Nat.le_of_lt less)]

theorem sumsAfterDeltas {before : UInt32} {ns ds : List UInt32}
    (ok : deltasAfter before ns = some ds) : sumsAfter before ds = some ns := by
  induction ns generalizing before ds with
  | nil =>
    cases Option.some.inj ok
    rfl
  | cons n ns ih =>
    rw [deltasAfter] at ok
    split at ok
    · rename_i less
      obtain ⟨rest, distances, rfl⟩ := Option.map_eq_some_iff.mp ok
      have distance := wordSub less
      have ordered : before.toNat < n.toNat := less
      have back : before + (n - before) = n := by
        apply UInt32.toNat_inj.mp
        rw [UInt32.toNat_add, distance]
        have bound := n.toNat_lt
        omega
      have positive : n - before ≠ 0 := by
        intro zero
        have none : (n - before).toNat = 0 := congrArg UInt32.toNat zero
        omega
      have fits : before.toNat + (n - before).toNat < UInt32.size := by
        have bound : n.toNat < UInt32.size := n.toNat_lt
        omega
      rw [sumsAfter, if_pos ⟨positive, fits⟩, back, ih distances]
      rfl
    · cases ok

theorem sumsOfDeltas {ns ds : List UInt32} (ok : deltas? ns = some ds) : sums? ds = some ns := by
  cases ns with
  | nil =>
    cases Option.some.inj ok
    rfl
  | cons n ns =>
    obtain ⟨rest, distances, rfl⟩ := Option.map_eq_some_iff.mp ok
    rw [sums?, sumsAfterDeltas distances]
    rfl

theorem deltasAfterAscending {before : UInt32} {ns : List UInt32}
    (ascends : (before :: ns).Pairwise (· < ·)) :
    ∃ ds, deltasAfter before ns = some ds ∧ ds.length = ns.length := by
  induction ns generalizing before with
  | nil => exact ⟨[], rfl, rfl⟩
  | cons n ns ih =>
    obtain ⟨ds, distances, length⟩ := ih ascends.of_cons
    have less : before < n := List.rel_of_pairwise_cons ascends List.mem_cons_self
    refine ⟨(n - before) :: ds, ?_, congrArg Nat.succ length⟩
    rw [deltasAfter, if_pos less, distances]
    rfl

theorem deltasOfAscending {ns : List UInt32} (ascends : ns.Pairwise (· < ·)) :
    ∃ ds, deltas? ns = some ds ∧ ds.length = ns.length := by
  cases ns with
  | nil => exact ⟨[], rfl, rfl⟩
  | cons n ns =>
    obtain ⟨ds, distances, length⟩ := deltasAfterAscending ascends
    refine ⟨n :: ds, ?_, congrArg Nat.succ length⟩
    rw [deltas?, distances]
    rfl

theorem ascendingOfDeltasAfter {before : UInt32} {ns ds : List UInt32}
    (ok : deltasAfter before ns = some ds) : (before :: ns).Pairwise (· < ·) := by
  induction ns generalizing before ds with
  | nil => exact List.pairwise_singleton _ _
  | cons n ns ih =>
    rw [deltasAfter] at ok
    split at ok
    · rename_i less
      obtain ⟨rest, distances, _⟩ := Option.map_eq_some_iff.mp ok
      have ascends := ih distances
      refine List.pairwise_cons.mpr ⟨fun m mem => ?_, ascends⟩
      rcases List.mem_cons.mp mem with rfl | later
      · exact less
      · exact UInt32.lt_trans less (List.rel_of_pairwise_cons ascends later)
    · cases ok

theorem ascendingOfDeltas {ns ds : List UInt32} (ok : deltas? ns = some ds) :
    ns.Pairwise (· < ·) := by
  cases ns with
  | nil => exact .nil
  | cons n ns =>
    obtain ⟨rest, distances, _⟩ := Option.map_eq_some_iff.mp ok
    exact ascendingOfDeltasAfter distances

theorem toRecordOfRecord {entry : IndexEntry} {m : IndexMessage} (ok : ofRecord entry = .ok m) :
    m.toRecord = .ok entry := by
  obtain ⟨token, ordinals⟩ := entry
  unfold ofRecord at ok
  split at ok
  · rename_i deltas distances
    cases ok
    rw [toRecord, sumsOfDeltas distances]
  · cases ok

end CxxSymbols.Store.IndexMessage
