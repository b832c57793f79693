import CxxSymbols.Proofs.Store.Layout
import Mathlib.Data.List.Forall2
import Mathlib.Data.List.Perm.Basic
import Std.Data.String.ToNat
/-! Numbers that are given back. The strings of a pool may come up in any order when its map is gone
through: what a number stands for does not depend on it. A string that came once is given away with
its number, and the others stay entries of the table, in the order in which they first came. Numbers
are words of 32 bits. As long as there are no more different strings than words, no two of them have
the same number; the next string takes that of the first. -/
namespace CxxSymbols.Store

/-! ### Giving back -/

abbrev Numbered := StringCount × UInt32

structure Resolver where
  /- the strings that came once, until they are given away -/
  texts : Std.HashMap UInt32 String
  /- the places of the others in the table -/
  places : Std.HashMap UInt32 UInt32
  table : List String

namespace Resolver

def ofWalk (walk : List Numbered) : Resolver :=
  let (shared, single) := walk.partition fun e => 1 < e.1.count
  let sorted := shared.mergeSort fun a b => a.2 ≤ b.2
  { texts := .ofList (single.map fun e => (e.2, e.1.string))
    places := .ofList (sorted.zipIdx.map fun (e, place) => (e.2, UInt32.ofNat place))
    table := sorted.map fun e => e.1.string }

def resolve (r : Resolver) (n : UInt32) : Option Resolution × Resolver :=
  match r.texts[n]? with
  | some s => (some (.inline s), { r with texts := r.texts.erase n })
  | none => (r.places[n]?.map fun place => .entry place.toNat, r)

def resolveAll (r : Resolver) : List UInt32 → List (Option Resolution) × Resolver
  | [] => ([], r)
  | n :: rest =>
    let (answer, r) := r.resolve n
    let (answers, r) := r.resolveAll rest
    (answer :: answers, r)

end Resolver

def StringPool.internAll (pool : StringPool) : List String → List Nat × StringPool
  | [] => ([], pool)
  | k :: rest =>
    let (n, pool) := pool.intern k
    let (numbers, pool) := pool.internAll rest
    (n :: numbers, pool)

/- Numbers as they are given out. After 2³² strings they start over. -/
def inWords (numbers : List Nat) : List UInt32 := numbers.map UInt32.ofNat

def numbered (strings : List StringCount) : List Numbered :=
  strings.zipIdx.map fun (e, n) => (e, UInt32.ofNat n)

def StringPool.walked (pool : StringPool) (order : List (String × Nat)) : List Numbered :=
  order.map fun (s, n) => (⟨s, (pool.strings[n]?.getD default).count⟩, UInt32.ofNat n)

/-! ### Words -/

section Words
variable {strings : List StringCount}

theorem wordOfPlace {α : Type} {l : List α} (few : l.length ≤ UInt32.size) {place : Nat} {a : α}
    (known : l[place]? = some a) : (UInt32.ofNat place).toNat = place :=
  UInt32.toNat_ofNat_of_lt' (Nat.lt_of_lt_of_le (List.getElem?_eq_some_iff.mp known).1 few)

theorem memNumbered (few : strings.length ≤ UInt32.size) {e : StringCount} {n : UInt32} :
    (e, n) ∈ numbered strings ↔ strings[n.toNat]? = some e := by
  rw [numbered, List.mem_map]
  constructor
  · rintro ⟨⟨e, place⟩, mem, same⟩
    cases same
    have known := List.mk_mem_zipIdx_iff_getElem?.mp mem
    rwa [wordOfPlace few known]
  · intro known
    exact ⟨(e, n.toNat), List.mk_mem_zipIdx_iff_getElem?.mpr known,
      congrArg (Prod.mk e) UInt32.ofNat_toNat⟩

theorem numberedOrdered (few : strings.length ≤ UInt32.size) :
    (numbered strings).Pairwise fun a b => a.2 < b.2 := by
  have ordered : strings.zipIdx.Pairwise fun a b => a.2 < b.2 := by
    refine List.pairwise_map.mp ?_
    rw [List.zipIdx_map_snd]
    exact List.pairwise_lt_range' 1
  refine List.pairwise_map.mpr (ordered.imp_of_mem fun {a b} memA memB less => ?_)
  rw [UInt32.lt_iff_toNat_lt, wordOfPlace few (List.mem_zipIdx_iff_getElem?.mp memA),
    wordOfPlace few (List.mem_zipIdx_iff_getElem?.mp memB)]
  exact less

theorem numbersOnce (few : strings.length ≤ UInt32.size) :
    ((numbered strings).map Prod.snd).Nodup :=
  List.pairwise_map.mpr ((numberedOrdered few).imp UInt32.ne_of_lt)

end Words

namespace StringPool

/-! ### Numbers -/

section Numbers
variable {pool : StringPool} {before keys : List String} {n : UInt32} {k : String}

theorem internAllNames (ok : pool.Consistent) (counts : pool.Counts before) (keys : List String) :
    List.Forall₂ (fun k n => (pool.internAll keys).2.string? n = some k) keys
        (pool.internAll keys).1 ∧
      (∀ n k, pool.string? n = some k → (pool.internAll keys).2.string? n = some k) ∧
      (pool.internAll keys).2.Counts (before ++ keys) := by
  induction keys generalizing pool before with
  | nil => exact ⟨.nil, fun _ _ named => named, by rwa [List.append_nil]⟩
  | cons k rest ih =>
    obtain ⟨names, keeps, counts⟩ := ih (internConsistent ok k) (internCounts counts k)
    rw [List.append_assoc] at counts
    exact ⟨.cons (keeps _ _ (internNames ok k)) names,
      fun n s named => keeps n s (internKeeps named k), counts⟩

theorem collected (keys : List String) : (internAll {} keys).2.Counts keys :=
  (internAllNames emptyConsistent emptyCounts keys).2.2

theorem collectedNames (keys : List String) :
    List.Forall₂ (fun k n => (distinct keys)[n]? = some k) keys (internAll {} keys).1 := by
  refine (internAllNames emptyConsistent emptyCounts keys).1.imp fun k n named => ?_
  rwa [← countsNamed (collected keys)]

theorem collectedWords (few : (distinct keys).length ≤ UInt32.size) :
    List.Forall₂ (fun k (n : UInt32) => (distinct keys)[n.toNat]? = some k) keys
      (inWords (internAll {} keys).1) := by
  refine List.forall₂_map_right_iff.mpr ((collectedNames keys).imp fun k n named => ?_)
  rwa [wordOfPlace few named]

theorem wordsBack (few : (distinct keys).length ≤ UInt32.size) {ks : List String} {ns : List Nat}
    (named : List.Forall₂ (fun k n => (distinct keys)[n]? = some k) ks ns) :
    (inWords ns).map UInt32.toNat = ns := by
  induction named with
  | nil => rfl
  | cons first _ ih =>
    rw [inWords, List.map_cons, List.map_cons, wordOfPlace few first]
    exact congrArg (_ :: ·) ih

theorem numberUsed {ks : List String} {ns : List UInt32}
    (named : List.Forall₂ (fun k (n : UInt32) => (distinct keys)[n.toNat]? = some k) ks ns)
    (known : (distinct keys)[n.toNat]? = some k) (came : k ∈ ks) : n ∈ ns := by
  induction named with
  | nil => cases came
  | cons first _ ih =>
    rcases List.mem_cons.mp came with rfl | behind
    · have inside := (List.getElem?_eq_some_iff.mp known).1
      have same := (List.getElem?_inj inside (distinctOnce keys)).mp (known.trans first.symm)
      exact UInt32.toNat_inj.mp same ▸ List.mem_cons_self
    · exact List.mem_cons_of_mem _ (ih behind)

theorem numbersBelow {ks : List String} {ns : List UInt32}
    (named : List.Forall₂ (fun k (n : UInt32) => (distinct keys)[n.toNat]? = some k) ks ns)
    (given : n ∈ ns) : n.toNat < keys.length := by
  induction named with
  | nil => cases given
  | cons first _ ih =>
    rcases List.mem_cons.mp given with rfl | behind
    · exact Nat.lt_of_lt_of_le (List.getElem?_eq_some_iff.mp first).1 (distinctFewer keys)
    · exact ih behind

theorem distinctOrdered (keys : List String) :
    (distinct keys).Pairwise fun k later => keys.idxOf k < keys.idxOf later := by
  induction keys using List.reverseRecOn with
  | nil => exact .nil
  | append_singleton keys last ih =>
    have same {k : String} (old : k ∈ distinct keys) :
        (keys ++ [last]).idxOf k = keys.idxOf k := List.idxOf_append_of_mem (memDistinct.mp old)
    have kept : (distinct keys).Pairwise fun k later =>
        (keys ++ [last]).idxOf k < (keys ++ [last]).idxOf later :=
      ih.imp_of_mem fun old old' less => by rwa [same old, same old']
    rw [distinctNext]
    split
    · exact kept
    · rename_i new
      refine List.pairwise_append.mpr ⟨kept, List.pairwise_singleton _ _, fun k old l isLast => ?_⟩
      cases List.mem_singleton.mp isLast
      have known := List.idxOf_lt_length_of_mem (memDistinct.mp old)
      rw [same old, List.idxOf_append_of_notMem fun old => new (memDistinct.mpr old)]
      omega

end Numbers

/-! ### What is listed -/

section Listed
variable {pool : StringPool} {keys : List String} {n : Nat} {k : String}

theorem cameOf (known : (distinct keys)[n]? = some k) : k ∈ keys :=
  memDistinct.mp (List.mem_of_getElem? known)

theorem cameAgain (known : (distinct keys)[n]? = some k) (more : keys.count k ≠ 1) :
    1 < keys.count k := by
  have positive := List.count_pos_iff.mpr (cameOf known)
  omega

theorem sharedOnce (keys : List String) : (shared keys).Nodup := (distinctOnce keys).filter _

theorem memShared : k ∈ shared keys ↔ 1 < keys.count k := by
  rw [shared, List.mem_filter, decide_eq_true_eq, memDistinct, and_iff_right_iff_imp]
  exact fun again => List.count_pos_iff.mp (Nat.lt_of_succ_lt again)

theorem countsKnown (counts : pool.Counts keys) (known : (distinct keys)[n]? = some k) :
    pool.strings.toList[n]? = some ⟨k, keys.count k⟩ := by
  rw [counts.strings, List.getElem?_map, known]
  rfl

theorem countsUnknown (counts : pool.Counts keys) (unknown : (distinct keys)[n]? = none) :
    pool.strings.toList[n]? = none := by
  rw [counts.strings, List.getElem?_map, unknown]
  rfl

theorem countsUnresolved (counts : pool.Counts keys) (unknown : (distinct keys)[n]? = none) :
    pool.resolutions[n]? = none := by
  have beyond := List.getElem?_eq_none_iff.mp unknown
  rw [resolutions, List.getElem?_toArray, List.getElem?_eq_none_iff, resolutionsLength,
    Array.length_toList, countsStrings counts]
  exact beyond

theorem memCounted (counts : pool.Counts keys) {e : StringCount} :
    (e, n) ∈ pool.strings.toList.zipIdx ↔
      ∃ k, pool.numbers[k]? = some n ∧ e = ⟨k, (pool.strings[n]?.getD default).count⟩ := by
  rw [List.mk_mem_zipIdx_iff_getElem?, ← Array.getElem?_toList]
  constructor
  · intro found
    rw [counts.strings, List.getElem?_map] at found
    obtain ⟨k, known, rfl⟩ := Option.map_eq_some_iff.mp found
    refine ⟨k, (counts.numbers k n).mpr known, ?_⟩
    rw [countsKnown counts known]
    rfl
  · rintro ⟨k, number, rfl⟩
    rw [countsKnown counts ((counts.numbers k n).mp number)]
    rfl

theorem countedPerm (counts : pool.Counts keys) :
    (pool.numbers.toList.map fun (s, n) =>
      (StringCount.mk s (pool.strings[n]?.getD default).count, n)).Perm
        pool.strings.toList.zipIdx := by
  have strings : (pool.numbers.toList.map Prod.fst).Nodup := List.pairwise_map.mpr
    (Std.HashMap.distinct_keys_toList.imp fun other => ne_of_beq_false other)
  have numbers : (pool.strings.toList.zipIdx.map Prod.snd).Nodup := by
    rw [List.zipIdx_map_snd]
    exact List.nodup_range' 1
  refine (List.perm_ext_iff_of_nodup (.of_map (fun e => e.1.string) ?_)
    (.of_map _ numbers)).mpr fun ⟨e, n⟩ => ?_
  · rw [List.map_map]
    exact strings
  rw [memCounted counts, List.mem_map]
  constructor
  · rintro ⟨⟨k, m⟩, mem, same⟩
    cases same
    exact ⟨k, Std.HashMap.mem_toList_iff_getElem?_eq_some.mp mem, rfl⟩
  · rintro ⟨k, number, rfl⟩
    exact ⟨(k, n), Std.HashMap.mem_toList_iff_getElem?_eq_some.mpr number, rfl⟩

theorem walkedPerm (counts : pool.Counts keys) {order : List (String × Nat)}
    (perm : order.Perm pool.numbers.toList) :
    (pool.walked order).Perm (numbered pool.strings.toList) := by
  have words := (countedPerm counts).map fun (e, n) => ((e, UInt32.ofNat n) : Numbered)
  rw [List.map_map] at words
  exact (perm.map _).trans words

end Listed

end StringPool

namespace Resolver
open StringPool

/-! ### What a walk leads to -/

theorem ofListFinds {β : Type} {l : List (UInt32 × β)} (once : (l.map Prod.fst).Nodup) {n : UInt32}
    {v : β} : (Std.HashMap.ofList l)[n]? = some v ↔ (n, v) ∈ l := by
  have apart : l.Pairwise fun a b => (a.1 == b.1) = false :=
    (List.pairwise_map.mp once).imp fun other => beq_false_of_ne other
  constructor
  · intro found
    by_cases listed : n ∈ l.map Prod.fst
    · obtain ⟨⟨m, w⟩, mem, rfl⟩ := List.mem_map.mp listed
      rw [Std.HashMap.getElem?_ofList_of_mem BEq.rfl apart mem] at found
      cases found
      exact mem
    · rw [Std.HashMap.getElem?_ofList_of_contains_eq_false (by simpa using listed)] at found
      cases found
  · exact fun mem => Std.HashMap.getElem?_ofList_of_mem BEq.rfl apart mem

section Walk
variable {strings : List StringCount} {walk : List Numbered} {n place : UInt32} {s : String}

def again (strings : List StringCount) : List Numbered :=
  (numbered strings).filter fun e => 1 < e.1.count

theorem againFewer (strings : List StringCount) : (again strings).length ≤ strings.length := by
  refine Nat.le_trans (List.length_filter_le _ _) (Nat.le_of_eq ?_)
  rw [numbered, List.length_map, List.length_zipIdx]

theorem againSorted (few : strings.length ≤ UInt32.size) (order : walk.Perm (numbered strings)) :
    ((walk.partition fun e => 1 < e.1.count).1.mergeSort fun a b => a.2 ≤ b.2) =
      again strings := by
  rw [List.partition_eq_filter_filter]
  have perm := (List.mergeSort_perm (walk.filter fun e => 1 < e.1.count)
    fun a b => decide (a.2 ≤ b.2)).trans (order.filter _)
  have trans (a b c : Numbered) (ab : decide (a.2 ≤ b.2) = true) (bc : decide (b.2 ≤ c.2) = true) :
      decide (a.2 ≤ c.2) = true := by
    simp only [decide_eq_true_eq] at ab bc ⊢
    exact UInt32.le_trans ab bc
  have total (a b : Numbered) : (decide (a.2 ≤ b.2) || decide (b.2 ≤ a.2)) = true := by
    simp only [Bool.or_eq_true, decide_eq_true_eq]
    exact UInt32.le_total _ _
  have sorted := (List.pairwise_mergeSort trans total (walk.filter fun e => 1 < e.1.count)).imp
    of_decide_eq_true
  refine perm.eq_of_pairwise (fun a b memA memB ab ba => ?_) sorted
    (((numberedOrdered few).filter _).imp UInt32.le_of_lt)
  exact List.inj_on_of_nodup_map (numbersOnce few) (List.mem_filter.mp (perm.mem_iff.mp memA)).1
    (List.mem_filter.mp memB).1 (UInt32.le_antisymm ab ba)

theorem ofWalkTable (few : strings.length ≤ UInt32.size) (order : walk.Perm (numbered strings)) :
    (ofWalk walk).table = (again strings).map fun e => e.1.string := by
  rw [← againSorted few order]
  rfl

theorem ofWalkTexts (few : strings.length ≤ UInt32.size) (order : walk.Perm (numbered strings)) :
    (ofWalk walk).texts[n]? = some s ↔
      ∃ e, strings[n.toNat]? = some e ∧ ¬1 < e.count ∧ e.string = s := by
  have once : (((walk.filter fun e => !decide (1 < e.1.count)).map
      fun e => (e.2, e.1.string)).map Prod.fst).Nodup := by
    rw [List.map_map]
    exact ((order.map Prod.snd).nodup_iff.mpr (numbersOnce few)).sublist
      (List.filter_sublist.map _)
  have texts : (ofWalk walk).texts = .ofList ((walk.filter fun e => !decide (1 < e.1.count)).map
      fun e => (e.2, e.1.string)) := by
    rw [ofWalk, List.partition_eq_filter_filter]
    rfl
  rw [texts, ofListFinds once, List.mem_map]
  constructor
  · rintro ⟨⟨e, m⟩, mem, same⟩
    cases same
    obtain ⟨listed, single⟩ := List.mem_filter.mp mem
    exact ⟨e, (memNumbered few).mp (order.mem_iff.mp listed), by simpa using single, rfl⟩
  · rintro ⟨e, known, single, rfl⟩
    have listed := order.mem_iff.mpr ((memNumbered few).mpr known)
    exact ⟨(e, n), List.mem_filter.mpr ⟨listed, by simpa using single⟩, rfl⟩

theorem ofWalkPlaces (few : strings.length ≤ UInt32.size) (order : walk.Perm (numbered strings)) :
    (ofWalk walk).places[n]? = some place ↔
      ∃ e, (again strings)[place.toNat]? = some (e, n) := by
  have once : (((again strings).zipIdx.map fun (e, place) =>
      (e.2, UInt32.ofNat place)).map Prod.fst).Nodup := by
    have numbers : ((again strings).zipIdx.map fun (e, place) =>
        (e.2, UInt32.ofNat place)).map Prod.fst = (again strings).map Prod.snd := by
      conv_rhs => rw [← List.zipIdx_map_fst 0 (again strings), List.map_map]
      rw [List.map_map]
      rfl
    rw [numbers]
    exact (numbersOnce few).sublist (List.filter_sublist.map _)
  have places : (ofWalk walk).places =
      .ofList ((again strings).zipIdx.map fun (e, place) => (e.2, UInt32.ofNat place)) := by
    rw [← againSorted few order]
    rfl
  rw [places, ofListFinds once, List.mem_map]
  constructor
  · rintro ⟨⟨⟨e, m⟩, j⟩, mem, same⟩
    cases same
    have known := List.mk_mem_zipIdx_iff_getElem?.mp mem
    exact ⟨e, by rwa [wordOfPlace (Nat.le_trans (againFewer strings) few) known]⟩
  · rintro ⟨e, known⟩
    exact ⟨((e, n), place.toNat), List.mk_mem_zipIdx_iff_getElem?.mpr known,
      congrArg (Prod.mk n) UInt32.ofNat_toNat⟩

end Walk

/-! ### One number after the other -/

section Run
variable {keys ks rest : List String} {r : Resolver} {k : String} {n : UInt32} {ns : List UInt32}

def Tells (keys table : List String) (k : String) (answer : Option Resolution) : Prop :=
  if keys.count k = 1 then answer = some (.inline k)
  else ∃ place, answer = some (.entry place) ∧ table[place]? = some k

/- Strings whose numbers are still to come can be told. One that comes once was not given away. -/
structure Due (keys rest : List String) (r : Resolver) : Prop where
  once : ∀ {n : UInt32} {k : String}, (distinct keys)[n.toNat]? = some k → keys.count k = 1 →
    k ∈ rest → r.texts[n]? = some k
  again : ∀ {n : UInt32} {k : String}, (distinct keys)[n.toNat]? = some k → keys.count k ≠ 1 →
    r.texts[n]? = none ∧ ∃ place, r.places[n]? = some place ∧ r.table[place.toNat]? = some k

theorem resolveTable (r : Resolver) (n : UInt32) : (r.resolve n).2.table = r.table := by
  rw [resolve]
  split
  · rfl
  · rfl

theorem resolveAllTable (r : Resolver) (ns : List UInt32) : (r.resolveAll ns).2.table = r.table := by
  induction ns generalizing r with
  | nil => rfl
  | cons n ns ih => exact (ih (r.resolve n).2).trans (resolveTable r n)

theorem resolveDue (due : Due keys (k :: rest) r) (within : (k :: rest).Sublist keys)
    (named : (distinct keys)[n.toNat]? = some k) :
    Tells keys r.table k (r.resolve n).1 ∧ Due keys rest (r.resolve n).2 := by
  by_cases single : keys.count k = 1
  · have text := due.once named single List.mem_cons_self
    have gone : k ∉ rest := by
      have few := within.count_le k
      rw [List.count_cons_self, single] at few
      exact List.count_eq_zero.mp (by omega)
    simp only [resolve, text]
    refine ⟨by rw [Tells, if_pos single], fun {m l} known alone later => ?_,
      fun {m l} known more => ?_⟩
    · have other : n ≠ m := by
        rintro rfl
        cases Option.some.inj (named.symm.trans known)
        exact gone later
      rw [Std.HashMap.getElem?_erase, if_neg (by simpa using other)]
      exact due.once known alone (List.mem_cons_of_mem _ later)
    · obtain ⟨none, place⟩ := due.again known more
      refine ⟨?_, place⟩
      rw [Std.HashMap.getElem?_erase, none, ite_self]
  · obtain ⟨none, place, found, entry⟩ := due.again named single
    simp only [resolve, none, found]
    refine ⟨?_, fun known alone later => due.once known alone (List.mem_cons_of_mem _ later),
      due.again⟩
    rw [Tells, if_neg single]
    exact ⟨place.toNat, rfl, entry⟩

theorem resolveAllDue
    (named : List.Forall₂ (fun k (n : UInt32) => (distinct keys)[n.toNat]? = some k) ks ns)
    (due : Due keys ks r) (within : ks.Sublist keys) :
    List.Forall₂ (Tells keys r.table) ks (r.resolveAll ns).1 := by
  induction named generalizing r with
  | nil => exact .nil
  | cons named _ ih =>
    obtain ⟨tells, due⟩ := resolveDue due within named
    have behind := ih due (List.sublist_of_cons_sublist within)
    rw [resolveTable] at behind
    exact .cons tells behind

def Unknown (r : Resolver) (n : UInt32) : Prop := r.texts[n]? = none ∧ r.places[n]? = none

theorem resolveUnknown (unknown : r.Unknown n) : (r.resolve n).1 = none := by
  simp only [resolve, unknown.1, unknown.2, Option.map_none]

theorem unknownStays (unknown : r.Unknown n) (m : UInt32) : (r.resolve m).2.Unknown n := by
  rw [resolve]
  split
  · refine ⟨?_, unknown.2⟩
    rw [Std.HashMap.getElem?_erase, unknown.1, ite_self]
  · exact unknown

theorem unknownAlways (unknown : r.Unknown n) (asked : List UInt32) :
    (r.resolveAll asked).2.Unknown n := by
  induction asked generalizing r with
  | nil => exact unknown
  | cons m asked ih => exact ih (unknownStays unknown m)

end Run

/-! ### From a pool -/

section Pool
variable {pool : StringPool} {keys : List String} {walk : List Numbered} {k : String} {n : UInt32}

theorem countsFew (counts : pool.Counts keys) (few : (distinct keys).length ≤ UInt32.size) :
    pool.strings.toList.length ≤ UInt32.size := by
  rwa [Array.length_toList, countsStrings counts]

theorem ofPoolTable (few : pool.strings.toList.length ≤ UInt32.size)
    (order : walk.Perm (numbered pool.strings.toList)) : (ofWalk walk).table = pool.table := by
  rw [ofWalkTable few order, StringPool.table, again, numbered, List.filter_map, List.map_map]
  conv_rhs => rw [← List.zipIdx_map_fst 0 pool.strings.toList, List.filter_map, List.map_map]
  rfl

theorem ofPoolDue (counts : pool.Counts keys) (few : pool.strings.toList.length ≤ UInt32.size)
    (order : walk.Perm (numbered pool.strings.toList)) : Due keys keys (ofWalk walk) := by
  refine ⟨fun {n k} known single _ => ?_, fun {n k} known more => ?_⟩
  · exact (ofWalkTexts few order).mpr ⟨_, countsKnown counts known, by simp [single], rfl⟩
  · have counted := countsKnown counts known
    have shared := cameAgain known more
    have listed : ((⟨k, keys.count k⟩, n) : Numbered) ∈ again pool.strings.toList :=
      List.mem_filter.mpr ⟨(memNumbered few).mpr counted, decide_eq_true shared⟩
    obtain ⟨place, found⟩ := List.mem_iff_getElem?.mp listed
    rw [← wordOfPlace (Nat.le_trans (againFewer _) few) found] at found
    refine ⟨?_, _, (ofWalkPlaces few order).mpr ⟨_, found⟩, ?_⟩
    · refine Option.eq_none_iff_forall_ne_some.mpr fun s text => ?_
      obtain ⟨e, same, single, _⟩ := (ofWalkTexts few order).mp text
      cases Option.some.inj (counted.symm.trans same)
      exact single shared
    · rw [ofWalkTable few order, List.getElem?_map, found]
      rfl

theorem ofPoolUnknown (counts : pool.Counts keys) (few : pool.strings.toList.length ≤ UInt32.size)
    (order : walk.Perm (numbered pool.strings.toList))
    (unknown : (distinct keys)[n.toNat]? = none) : (ofWalk walk).Unknown n := by
  have none := countsUnknown counts unknown
  constructor
  · refine Option.eq_none_iff_forall_ne_some.mpr fun s text => ?_
    obtain ⟨e, known, _⟩ := (ofWalkTexts few order).mp text
    rw [none] at known
    cases known
  · refine Option.eq_none_iff_forall_ne_some.mpr fun place found => ?_
    obtain ⟨e, known⟩ := (ofWalkPlaces few order).mp found
    have listed := (List.mem_filter.mp (List.mem_of_getElem? known)).1
    rw [memNumbered few, none] at listed
    cases listed

theorem resolveLooksUp (counts : pool.Counts keys) (few : pool.strings.toList.length ≤ UInt32.size)
    (order : walk.Perm (numbered pool.strings.toList)) (n : UInt32) :
    ((ofWalk walk).resolve n).1 = pool.resolutions[n.toNat]? := by
  cases known : (distinct keys)[n.toNat]? with
  | none =>
    rw [resolveUnknown (ofPoolUnknown counts few order known), countsUnresolved counts known]
  | some k =>
    have due := ofPoolDue counts few order
    rw [countsResolved counts known]
    by_cases single : keys.count k = 1
    · have text := due.once known single (cameOf known)
      simp only [resolve, text]
      rw [if_neg (by omega)]
    · obtain ⟨none, place, found, entry⟩ := due.again known single
      rw [ofPoolTable few order, countsTable counts] at entry
      obtain ⟨inside, entry⟩ := List.getElem?_eq_some_iff.mp entry
      simp only [resolve, none, found, Option.map_some]
      rw [if_pos (cameAgain known single), ← entry, (sharedOnce keys).idxOf_getElem]

end Pool

/- Strings that were put into a pool, whose map is then gone through in any order, are told from the
numbers that they were given, as these come: a string that came once is given back as it is, and any
other is an entry of the table, which lists those in the order in which they first came. No other
number ever stands for anything, and all are less than the number of strings, so that they take no
more room than that. What the writer takes for the table and looks numbers up in is this. -/
theorem numbersResolve {keys : List String} (few : (distinct keys).length ≤ UInt32.size)
    {order : List (String × Nat)} (walk : order.Perm (internAll {} keys).2.numbers.toList) :
    let numbers := inWords (internAll {} keys).1
    let pool := (internAll {} keys).2
    let start := ofWalk (pool.walked order)
    let ended := start.resolveAll numbers
    List.Forall₂ (fun k answer => if keys.count k = 1 then answer = some (.inline k)
        else ∃ place, answer = some (.entry place) ∧ ended.2.table[place]? = some k) keys ended.1 ∧
      (∀ k, k ∈ ended.2.table ↔ 1 < keys.count k) ∧
      (ended.2.table.Pairwise fun k later => keys.idxOf k < keys.idxOf later) ∧
      (∀ n, n ∉ numbers → ∀ asked, ((start.resolveAll asked).2.resolve n).1 = none) ∧
      (∀ n ∈ numbers, n.toNat < keys.length) ∧
      numbers.map UInt32.toNat = (internAll {} keys).1 ∧ ended.2.table = pool.table ∧
      ∀ n, (start.resolve n).1 = pool.resolutions[n.toNat]? := by
  intro numbers pool start ended
  have counts : pool.Counts keys := collected keys
  have named := collectedWords few
  have strings := countsFew counts few
  have order := walkedPerm counts walk
  have same : ended.2.table = pool.table :=
    (resolveAllTable _ _).trans (ofPoolTable strings order)
  have listed : ended.2.table = shared keys := same.trans (countsTable counts)
  refine ⟨?_, fun k => ?_, ?_, fun n unused asked => ?_, fun n => numbersBelow named,
    wordsBack few (collectedNames keys), same, resolveLooksUp counts strings order⟩
  · have tells := resolveAllDue named (ofPoolDue counts strings order) (List.Sublist.refl keys)
    rw [resolveAllTable]
    exact tells
  · rw [listed, memShared]
  · rw [listed]
    exact (distinctOrdered keys).filter _
  · refine resolveUnknown (unknownAlways (ofPoolUnknown counts strings order ?_) asked)
    exact Option.eq_none_iff_forall_ne_some.mpr fun k known =>
      unused (numberUsed named known (cameOf known))

theorem overloadsResolve :
    let keys := ["f() -> void", "count -> int", "f(int) -> void", "f() -> void", "f(int) -> void"]
    let pool := (internAll {} keys).2
    let order := pool.numbers.toList.reverse
    (distinct keys).length ≤ UInt32.size ∧ order.Perm pool.numbers.toList ∧
      ((ofWalk (pool.walked order)).resolveAll (inWords (internAll {} keys).1)).2.table =
        ["f() -> void", "f(int) -> void"] ∧
      ((ofWalk (pool.walked order)).resolve 1).1 = some (.inline "count -> int") ∧
      ((ofWalk (pool.walked order)).resolve 2).1 = some (.entry 1) := by
  intro keys
  have few : (distinct keys).length ≤ UInt32.size := by decide
  have listed : shared keys = ["f() -> void", "f(int) -> void"] := by decide
  have single : (distinct keys)[1]? = some "count -> int" ∧ keys.count "count -> int" = 1 := by
    decide
  have again : (distinct keys)[2]? = some "f(int) -> void" ∧ keys.count "f(int) -> void" = 2 := by
    decide
  clear_value keys
  intro pool order
  have walk : order.Perm pool.numbers.toList := List.reverse_perm _
  have counts : pool.Counts keys := collected keys
  obtain ⟨_, _, _, _, _, _, table, lookedUp⟩ := numbersResolve few walk
  refine ⟨few, walk, table.trans ((countsTable counts).trans listed), ?_, ?_⟩
  · rw [lookedUp]
    exact (countsResolved counts single.1).trans (by rw [single.2]; rfl)
  · rw [lookedUp]
    exact (countsResolved counts again.1).trans (by rw [again.2, listed]; rfl)

/-! ### One string too many -/

section TooMany
variable {pool : StringPool} {keys : List String} {walk : List Numbered} {r : Resolver} {n : UInt32}

theorem distinctAll (once : keys.Nodup) : distinct keys = keys := by
  induction keys using List.reverseRecOn with
  | nil => rfl
  | append_singleton keys last ih =>
    obtain ⟨first, _, apart⟩ := List.nodup_append.mp once
    have new : last ∉ distinct keys := fun old =>
      apart last (memDistinct.mp old) last (List.mem_singleton_self last) rfl
    rw [distinctNext, if_neg new, ih first]

theorem numbersInTurn (once : keys.Nodup) : (internAll {} keys).1 = List.range keys.length := by
  have names := collectedNames keys
  rw [distinctAll once] at names
  refine List.ext_getElem (names.length_eq.symm.trans List.length_range.symm) fun i inside _ => ?_
  have came : i < keys.length := names.length_eq ▸ inside
  have named := names.get came inside
  rw [List.getElem_range]
  exact (List.getElem?_inj came once).mp ((List.getElem?_eq_getElem came).trans named.symm) |>.symm

theorem walkedSingles (counts : pool.Counts keys) (once : keys.Nodup)
    (order : List (String × Nat)) : ∀ e ∈ pool.walked order, ¬1 < e.1.count := by
  intro e listed
  obtain ⟨⟨s, n⟩, _, rfl⟩ := List.mem_map.mp listed
  change ¬1 < (pool.strings[n]?.getD default).count
  cases known : (distinct keys)[n]? with
  | none =>
    have nothing := countsUnknown counts known
    rw [Array.getElem?_toList] at nothing
    rw [nothing]
    decide
  | some k =>
    have counted := countsKnown counts known
    rw [Array.getElem?_toList] at counted
    rw [counted]
    exact Nat.not_lt.mpr (List.nodup_iff_count_le_one.mp once k)

theorem ofWalkSingles (singles : ∀ e ∈ walk, ¬1 < e.1.count) (n : UInt32) :
    (ofWalk walk).places[n]? = none := by
  have nothing : walk.filter (fun e => decide (1 < e.1.count)) = [] :=
    List.filter_eq_nil_iff.mpr fun e mem shared => singles e mem (of_decide_eq_true shared)
  rw [ofWalk, List.partition_eq_filter_filter, nothing]
  simp

theorem givenAway (nowhere : r.places[n]? = none) : (r.resolve n).2.Unknown n := by
  cases text : r.texts[n]? with
  | none =>
    simp only [resolve, text]
    exact ⟨text, nowhere⟩
  | some s =>
    simp only [resolve, text]
    exact ⟨by simp, nowhere⟩

theorem resolveAllConcat (r : Resolver) (ns : List UInt32) (n : UInt32) :
    (r.resolveAll (ns ++ [n])).1 =
      (r.resolveAll ns).1 ++ [((r.resolveAll ns).2.resolve n).1] := by
  induction ns generalizing r with
  | nil => rfl
  | cons m ns ih => exact congrArg ((r.resolve m).1 :: ·) (ih (r.resolve m).2)

theorem lastLost (once : keys.Nodup) {count : Nat} (length : keys.length = count + 1 + 1)
    (round : UInt32.ofNat (count + 1) = 0) (order : List (String × Nat)) :
    ((ofWalk ((internAll {} keys).2.walked order)).resolveAll
      (inWords (internAll {} keys).1)).1.getLast? = some none := by
  have nowhere := ofWalkSingles (walkedSingles (collected keys) once order) 0
  have numbers : inWords (internAll {} keys).1 =
      0 :: inWords ((List.range count).map Nat.succ) ++ [0] := by
    rw [numbersInTurn once, length, List.range_succ, List.range_succ_eq_map, inWords,
      List.map_append, List.map_singleton, round]
    rfl
  rw [numbers, resolveAllConcat, List.getLast?_concat]
  exact congrArg some (resolveUnknown (unknownAlways (givenAway nowhere) _))

/- As many strings as words, and one more. Each of them comes once, and the last is not given back,
whichever way the map is gone through. -/
theorem numbersStartOver :
    let keys := (List.range (UInt32.size + 1)).map Nat.repr
    let pool := (internAll {} keys).2
    keys.Nodup ∧ keys.getLast? = some (Nat.repr UInt32.size) ∧
      ∀ order, order.Perm pool.numbers.toList →
        ((ofWalk (pool.walked order)).resolveAll (inWords (internAll {} keys).1)).1.getLast? =
          some none := by
  intro keys
  have once : keys.Nodup := List.nodup_range.map fun _ _ => Nat.repr_injective
  have full : keys.length = UInt32.size + 1 := by rw [List.length_map, List.length_range]
  have last : keys.getLast? = some (Nat.repr UInt32.size) := by
    rw [List.getLast?_map, List.range_succ, List.getLast?_concat]
    rfl
  clear_value keys
  exact ⟨once, last, fun order _ => lastLost once full rfl order⟩

end TooMany

end Resolver
end CxxSymbols.Store
