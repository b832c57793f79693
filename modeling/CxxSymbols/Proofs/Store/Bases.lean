import CxxSymbols.Proofs.Store.Contents
/-! Which classes are derived from which. The edges from a base to the classes that list it are
gathered from all records of a file, while of the records of one class the last one is kept. So the
edges are the reverse of the bases where the records of a class agree, and where they do not, an edge
of an earlier record stays when the record is replaced. -/
namespace CxxSymbols.Store
open Rtti (Base TypeInfo)

def SameBases (infos : List TypeInfo) (address : Address) : Prop :=
  ∀ info ∈ infos, ∀ other ∈ infos, info.address = address → other.address = address →
    ∀ b, info.Lists b → other.Lists b

namespace Database
variable {db : Database}

theorem memDerivedFrom {a b : Address} :
    a ∈ db.derivedFrom b ↔ a ∈ db.contents.derived.getD b ∅ := Std.ExtTreeSet.mem_toList

theorem derivedAscends (db : Database) (b : Address) : (db.derivedFrom b).Pairwise (· < ·) := by
  have ordered := Std.ExtTreeSet.ordered_toList (t := db.contents.derived.getD b ∅)
  refine ordered.imp fun less => ?_
  exact compareOfLessAndEq_eq_lt.mp less

end Database

theorem typeInfoAmong {records : List Record} {a : Address} {info : TypeInfo}
    (found : (Contents.ofKinds records).typeInfos[a]? = some info) :
    info ∈ Record.typeInfos records ∧ info.address = a := by
  rw [Contents.typeInfoFound] at found
  obtain ⟨inside, here⟩ := List.mem_filter.mp (List.mem_of_getLast? found)
  exact ⟨inside, of_decide_eq_true here⟩

theorem typeInfoKept {records : List Record} {info : TypeInfo}
    (inside : info ∈ Record.typeInfos records) :
    ∃ last, (Contents.ofKinds records).typeInfos[info.address]? = some last := by
  have own : info ∈ (Record.typeInfos records).filter fun other => other.address = info.address :=
    List.mem_filter.mpr ⟨inside, decide_eq_true rfl⟩
  exact ⟨_, (Contents.typeInfoFound records info.address).trans
    (List.getLast?_eq_some_getLast (List.ne_nil_of_mem own))⟩

/- In a file that loads, the classes that are derived from a base are those of which some record lists
it, in ascending order. All bases that are listed in the end count; and where the records of a class
list the same bases, no others do. -/
theorem derivedReversesBases {file : ByteArray} {db : Database}
    (ran : Database.ofFile file = .ok db) :
    ∃ reader records, Reader.ofFile file = .ok reader ∧ reader.records = (records, none) ∧
      (∀ a b, a ∈ db.derivedFrom b ↔
        ∃ info ∈ Record.typeInfos records, info.address = a ∧ info.Lists b) ∧
      (∀ a b info, db.typeInfo? a = some info → info.Lists b → a ∈ db.derivedFrom b) ∧
      (∀ a, SameBases (Record.typeInfos records) a → ∀ b,
        a ∈ db.derivedFrom b ↔ ∃ info, db.typeInfo? a = some info ∧ info.Lists b) ∧
      ∀ b, (db.derivedFrom b).Pairwise (· < ·) := by
  obtain ⟨reader, records, opened, all, loaded⟩ := Database.fileRecords ran
  obtain ⟨_, index, _, shape⟩ := Database.recordsLoaded.mp loaded
  have contents : db.contents = Contents.ofKinds records := by rw [shape]
  have derived (a b : Address) : a ∈ db.derivedFrom b ↔
      ∃ info ∈ Record.typeInfos records, info.address = a ∧ info.Lists b := by
    rw [Database.memDerivedFrom, contents]
    exact Contents.derivedFound records a b
  have among {a : Address} {info : TypeInfo} (found : db.typeInfo? a = some info) :
      info ∈ Record.typeInfos records ∧ info.address = a := by
    rw [Database.typeInfo?, contents] at found
    exact typeInfoAmong found
  have counts (a b : Address) (info : TypeInfo) (found : db.typeInfo? a = some info)
      (lists : info.Lists b) : a ∈ db.derivedFrom b :=
    (derived a b).mpr ⟨info, (among found).1, (among found).2, lists⟩
  refine ⟨reader, records, opened, all, derived, counts, fun a same b => ⟨fun mem => ?_, ?_⟩,
    db.derivedAscends⟩
  · obtain ⟨info, inside, rfl, lists⟩ := (derived a b).mp mem
    obtain ⟨last, kept⟩ := typeInfoKept inside
    have found : db.typeInfo? info.address = some last := by
      rw [Database.typeInfo?, contents]
      exact kept
    exact ⟨last, found, same info inside last (among found).1 rfl (among found).2 b lists⟩
  · rintro ⟨info, found, lists⟩
    exact counts a b info found lists

def diamond : List Record :=
  [.typeInfo ⟨0x1020, .singleInherit, 0, [⟨0x1000, 0, 2⟩]⟩,
    .typeInfo ⟨0x1010, .virtualMultiInherit, 2, [⟨0x1000, -24, 3⟩, ⟨0x1020, 0, 2⟩]⟩,
    .typeInfo ⟨0x1000, .noInherit, 0, []⟩,
    .typeInfo ⟨0x1020, .singleInherit, 0, [⟨0x1000, 8, 0⟩]⟩]

theorem diamondLight : ∀ r ∈ diamond, r.Light := by
  intro r mem
  simp only [diamond, List.mem_cons, List.not_mem_nil, or_false] at mem
  rcases mem with rfl | rfl | rfl | rfl
  all_goals exact typeInfoLight (by decide +kernel)

theorem diamondReverses : ∃ file db, Database.ofFile file = .ok db ∧
    SameBases (Record.typeInfos diamond) 0x1020 ∧
    (∀ b, (0x1020 : Address) ∈ db.derivedFrom b ↔
      ∃ info, db.typeInfo? 0x1020 = some info ∧ info.Lists b) ∧
    (0x1010 : Address) ∈ db.derivedFrom 0x1020 ∧ (db.derivedFrom 0x1000).Pairwise (· < ·) := by
  obtain ⟨file, written⟩ := lightWritten diamondLight
  obtain ⟨own, openedOwn, allOwn⟩ := Database.writtenReads written
  have loaded := Database.recordsLoaded.mpr
    ⟨show Contents.NotBelow (Record.rows diamond) from .nil, _, rfl, rfl⟩
  have ran := (Database.writtenLoads written).trans loaded
  obtain ⟨reader, records, opened, all, derived, _, reverses, ascends⟩ := derivedReversesBases ran
  cases openedOwn.symm.trans opened
  cases allOwn.symm.trans all
  have one : ∀ info ∈ Record.typeInfos diamond, info.address = 0x1020 →
      info.bases.map Base.address = [0x1000] := by decide
  have same : SameBases (Record.typeInfos diamond) 0x1020 := by
    intro info inside other within here there b lists
    have mem := List.mem_map.mpr lists
    rw [one info inside here, ← one other within there] at mem
    exact List.mem_map.mp mem
  refine ⟨file, _, ran, same, reverses _ same, (derived _ _).mpr ?_, ascends _⟩
  exact ⟨_, List.mem_cons_of_mem _ List.mem_cons_self, rfl, _,
    List.mem_cons_of_mem _ List.mem_cons_self, rfl⟩

def replacedClass : List Record :=
  [.typeInfo ⟨0x1000, .singleInherit, 0, [⟨0x2000, 0, 2⟩]⟩, .typeInfo ⟨0x1000, .noInherit, 0, []⟩]

theorem replacedClassLight : ∀ r ∈ replacedClass, r.Light := by
  intro r mem
  simp only [replacedClass, List.mem_cons, List.not_mem_nil, or_false] at mem
  rcases mem with rfl | rfl
  all_goals exact typeInfoLight (by decide +kernel)

/- The edge of the first record stays, though the record that is found lists no base. -/
theorem replacedClassDerives : ∃ file db, fileOf replacedClass = .ok file ∧
    Database.ofFile file = .ok db ∧ (0x1000 : Address) ∈ db.derivedFrom 0x2000 ∧
    db.typeInfo? 0x1000 = some ⟨0x1000, .noInherit, 0, []⟩ ∧
    ¬∃ info, db.typeInfo? 0x1000 = some info ∧ info.Lists 0x2000 := by
  obtain ⟨file, written⟩ := lightWritten replacedClassLight
  have loaded := Database.recordsLoaded.mpr
    ⟨show Contents.NotBelow (Record.rows replacedClass) from .nil, _, rfl, rfl⟩
  have found : (Contents.ofKinds replacedClass).typeInfos[(0x1000 : Address)]? =
      some ⟨0x1000, .noInherit, 0, []⟩ := Contents.typeInfoFound replacedClass 0x1000
  refine ⟨file, _, written, (Database.writtenLoads written).trans loaded, ?_, found, ?_⟩
  · refine Database.memDerivedFrom.mpr ((Contents.derivedFound replacedClass _ _).mpr ?_)
    exact ⟨_, List.mem_cons_self, rfl, _, List.mem_cons_self, rfl⟩
  · rintro ⟨info, same, base, mem, _⟩
    cases found.symm.trans same
    cases mem

end CxxSymbols.Store
