import CxxSymbols.Store.Database
import Mathlib.Data.List.Sort
/-! Symbols by their families. Each family that a symbol is of is listed once, in the order in which
they are first met, with all of its symbols in the order in which they came: so nothing is lost and
nothing is made up, and the listing is the only one of this kind. -/
namespace CxxSymbols.Search

section Listing
variable {α : Type} {keyOf : α → String} {items : List α} {x : α} {name : String}

def firstMet (keyOf : α → String) (items : List α) (name : String) : Nat :=
  items.findIdx fun x => family (keyOf x) = name

def itemsOf (keyOf : α → String) (items : List α) (name : String) : List α :=
  items.filter fun x => family (keyOf x) = name

def Met (keyOf : α → String) (items : List α) (name : String) : Prop :=
  ∃ x ∈ items, family (keyOf x) = name

structure Groups (keyOf : α → String) (items : List α) (families : List (Family α)) : Prop where
  named : ∀ name, name ∈ families.map Family.name ↔ Met keyOf items name
  ordered : (families.map Family.name).Pairwise fun name later =>
    firstMet keyOf items name < firstMet keyOf items later
  members : ∀ f ∈ families, f.members.toList = itemsOf keyOf items f.name

/-! ### One more item -/

theorem metNext : Met keyOf (items ++ [x]) name ↔
    Met keyOf items name ∨ family (keyOf x) = name := by
  simp [Met, or_and_right, exists_or]

theorem itemsOfSame (items : List α) (ofX : family (keyOf x) = name) :
    itemsOf keyOf (items ++ [x]) name = itemsOf keyOf items name ++ [x] := by
  simp [itemsOf, ofX]

theorem itemsOfOther (items : List α) (other : family (keyOf x) ≠ name) :
    itemsOf keyOf (items ++ [x]) name = itemsOf keyOf items name := by
  simp [itemsOf, other]

theorem itemsOfUnmet (unmet : ¬Met keyOf items name) : itemsOf keyOf items name = [] := by
  refine List.filter_eq_nil_iff.mpr fun y mem => ?_
  simpa using fun ofY => unmet ⟨y, mem, ofY⟩

theorem firstMetBelow (met : Met keyOf items name) :
    firstMet keyOf items name < items.length := by
  obtain ⟨y, mem, rfl⟩ := met
  exact List.findIdx_lt_length_of_exists ⟨y, mem, by simp⟩

theorem firstMetKnown (met : Met keyOf items name) (x : α) :
    firstMet keyOf (items ++ [x]) name = firstMet keyOf items name := by
  have below := firstMetBelow met
  simp only [firstMet] at below ⊢
  rw [List.findIdx_append, if_pos below]

theorem firstMetNew (new : ¬Met keyOf items name) (x : α) :
    items.length ≤ firstMet keyOf (items ++ [x]) name := by
  have nowhere : items.findIdx (fun x => family (keyOf x) = name) = items.length :=
    List.findIdx_eq_length.mpr fun y mem => by
      simpa using fun same => new ⟨y, mem, same⟩
  rw [firstMet, List.findIdx_append, nowhere, if_neg (Nat.lt_irrefl _)]
  exact Nat.le_add_left ..

theorem orderedNext {names : List String} (met : ∀ name ∈ names, Met keyOf items name)
    (ordered : names.Pairwise fun name later =>
      firstMet keyOf items name < firstMet keyOf items later) (x : α) :
    names.Pairwise fun name later =>
      firstMet keyOf (items ++ [x]) name < firstMet keyOf (items ++ [x]) later := by
  refine ordered.imp_of_mem fun first second below => ?_
  rwa [firstMetKnown (met _ first), firstMetKnown (met _ second)]

end Listing

namespace Grouping
variable {α : Type} {keyOf : α → String} {items : List α} {g : Grouping α} {x : α} {name : String}
  {place : Nat} {f : Family α}

theorem addKnown (known : g.places[name]? = some place) : g.add name x = { g with
    families := g.families.modify place fun f => { f with members := f.members.push x } } := by
  simp only [add, known]

theorem addNew (unknown : g.places[name]? = none) : g.add name x =
    ⟨g.families.push ⟨name, #[x]⟩, g.places.insert name g.families.size⟩ := by
  simp only [add, unknown]

theorem nameKnown (known : g.places[name]? = some place) (i : Nat) :
    ((g.add name x).families[i]?).map Family.name = (g.families[i]?).map Family.name := by
  rw [addKnown known, Array.getElem?_modify]
  split
  · rw [Option.map_map]
    rfl
  · rfl

theorem namesKnown (known : g.places[name]? = some place) :
    (g.add name x).families.toList.map Family.name = g.families.toList.map Family.name := by
  refine List.ext_getElem? fun i => ?_
  simpa using nameKnown (x := x) known i

structure Tracks (g : Grouping α) (keyOf : α → String) (items : List α) : Prop where
  groups : Groups keyOf items g.families.toList
  places : ∀ name place, g.places[name]? = some place ↔
    (g.families[place]?).map Family.name = some name

theorem emptyTracks (keyOf : α → String) : ({} : Grouping α).Tracks keyOf [] where
  groups := by constructor <;> simp [Met]
  places := by simp

section Step
variable (tracks : g.Tracks keyOf items)
include tracks

theorem placeOf (held : g.families[place]? = some f) : g.places[f.name]? = some place :=
  (tracks.places f.name place).mpr (by rw [held]; rfl)

theorem familyAt (known : g.places[name]? = some place) :
    ∃ f, g.families[place]? = some f ∧ f.name = name :=
  Option.map_eq_some_iff.mp ((tracks.places name place).mp known)

theorem membersAt (held : g.families[place]? = some f) :
    f.members.toList = itemsOf keyOf items f.name :=
  tracks.groups.members f (Array.mem_toList_iff.mpr (Array.mem_of_getElem? held))

theorem metKnown (known : g.places[name]? = some place) : Met keyOf items name := by
  obtain ⟨f, held, rfl⟩ := familyAt tracks known
  refine (tracks.groups.named f.name).mp (List.mem_map_of_mem ?_)
  exact Array.mem_toList_iff.mpr (Array.mem_of_getElem? held)

theorem unmetUnknown (unknown : g.places[name]? = none) : ¬Met keyOf items name := by
  intro met
  obtain ⟨f, mem, rfl⟩ := List.mem_map.mp ((tracks.groups.named name).mpr met)
  obtain ⟨place, held⟩ := Array.mem_iff_getElem?.mp (Array.mem_toList_iff.mp mem)
  rw [placeOf tracks held] at unknown
  cases unknown

/-! ### A family that was met -/

theorem membersKnown (known : g.places[family (keyOf x)]? = some place) :
    ∀ f ∈ (g.add (family (keyOf x)) x).families.toList,
      f.members.toList = itemsOf keyOf (items ++ [x]) f.name := by
  intro f mem
  obtain ⟨i, here⟩ := Array.mem_iff_getElem?.mp (Array.mem_toList_iff.mp mem)
  rw [addKnown known, Array.getElem?_modify] at here
  by_cases same : place = i
  · subst same
    obtain ⟨joined, held, ofX⟩ := familyAt tracks known
    rw [if_pos rfl, held] at here
    cases here
    rw [itemsOfSame items ofX.symm, Array.toList_push, membersAt tracks held]
  · rw [if_neg same] at here
    have other : family (keyOf x) ≠ f.name := by
      intro ofX
      rw [ofX, placeOf tracks here] at known
      exact same (Option.some.inj known).symm
    rw [itemsOfOther items other, membersAt tracks here]

theorem addKnownTracks (known : g.places[family (keyOf x)]? = some place) :
    (g.add (family (keyOf x)) x).Tracks keyOf (items ++ [x]) := by
  have met (name : String) : Met keyOf (items ++ [x]) name ↔ Met keyOf items name := by
    refine metNext.trans (or_iff_left_of_imp ?_)
    rintro rfl
    exact metKnown tracks known
  refine ⟨⟨fun name => ?_, ?_, membersKnown tracks known⟩, fun name i => ?_⟩
  · rw [namesKnown known, met]
    exact tracks.groups.named name
  · rw [namesKnown known]
    exact orderedNext (fun name => (tracks.groups.named name).mp) tracks.groups.ordered x
  · rw [nameKnown known, addKnown known]
    exact tracks.places name i

/-! ### A family that is new -/

theorem membersNew (unknown : g.places[family (keyOf x)]? = none) :
    ∀ f ∈ (g.add (family (keyOf x)) x).families.toList,
      f.members.toList = itemsOf keyOf (items ++ [x]) f.name := by
  have unmet := unmetUnknown tracks unknown
  intro f mem
  rw [addNew unknown, Array.toList_push] at mem
  rcases List.mem_append.mp mem with before | last
  · have other : family (keyOf x) ≠ f.name := by
      intro ofX
      exact unmet (ofX ▸ (tracks.groups.named f.name).mp (List.mem_map_of_mem before))
    rw [itemsOfOther items other, tracks.groups.members f before]
  · cases List.mem_singleton.mp last
    rw [itemsOfSame items rfl, itemsOfUnmet unmet]
    rfl

theorem placesNew (unknown : g.places[family (keyOf x)]? = none) (name : String) (i : Nat) :
    (g.add (family (keyOf x)) x).places[name]? = some i ↔
      ((g.add (family (keyOf x)) x).families[i]?).map Family.name = some name := by
  rw [addNew unknown, Std.HashMap.getElem?_insert, Array.getElem?_push]
  by_cases last : i = g.families.size
  · have beyond := tracks.places name g.families.size
    by_cases same : family (keyOf x) = name <;> simp [last, same, beyond]
  · have before := tracks.places name i
    by_cases same : family (keyOf x) = name
    · subst same
      rw [unknown] at before
      have nowhere : ¬(g.families[i]?).map Family.name = some (family (keyOf x)) :=
        fun found => nomatch before.mpr found
      simp [last, Ne.symm last, nowhere, -Option.map_eq_some_iff]
    · simp [last, same, before]

theorem addNewTracks (unknown : g.places[family (keyOf x)]? = none) :
    (g.add (family (keyOf x)) x).Tracks keyOf (items ++ [x]) := by
  have unmet := unmetUnknown tracks unknown
  have met : ∀ name ∈ g.families.toList.map Family.name, Met keyOf items name :=
    fun name => (tracks.groups.named name).mp
  have names : (g.add (family (keyOf x)) x).families.toList.map Family.name =
      g.families.toList.map Family.name ++ [family (keyOf x)] := by
    simp [addNew unknown]
  refine ⟨⟨fun name => ?_, ?_, membersNew tracks unknown⟩, placesNew tracks unknown⟩
  · rw [names, metNext, List.mem_append, tracks.groups.named, List.mem_singleton, eq_comm]
  · rw [names]
    refine List.pairwise_append.mpr ⟨orderedNext met tracks.groups.ordered x,
      List.pairwise_singleton _ _, fun name before last mem => ?_⟩
    cases List.mem_singleton.mp mem
    rw [firstMetKnown (met name before)]
    exact Nat.lt_of_lt_of_le (firstMetBelow (met name before)) (firstMetNew unmet x)

theorem addTracks (x : α) : (g.add (family (keyOf x)) x).Tracks keyOf (items ++ [x]) := by
  cases known : g.places[family (keyOf x)]? with
  | none => exact addNewTracks tracks known
  | some place => exact addKnownTracks tracks known

end Step

theorem foldTracks (tracks : g.Tracks keyOf items) (more : List α) :
    (more.foldl (fun g x => g.add (family (keyOf x)) x) g).Tracks keyOf (items ++ more) := by
  induction more generalizing g items with
  | nil => simpa using tracks
  | cons x more ih => simpa using ih (addTracks tracks x)

end Grouping

section Listing
variable {α : Type} {keyOf : α → String} {items : List α}

theorem groupsOfItems (keyOf : α → String) (items : List α) :
    Groups keyOf items (groupByFamily keyOf items) :=
  (Grouping.foldTracks (Grouping.emptyTracks keyOf) items).groups

theorem groupsOccupied {families : List (Family α)} (groups : Groups keyOf items families) :
    ∀ f ∈ families, f.members ≠ #[] := by
  intro f mem none
  obtain ⟨x, inside, ofX⟩ := (groups.named f.name).mp (List.mem_map_of_mem mem)
  have held : x ∈ f.members.toList := by
    rw [groups.members f mem]
    exact List.mem_filter.mpr ⟨inside, by simpa using ofX⟩
  rw [none] at held
  cases held

theorem groupsUnique {families others : List (Family α)} (groups : Groups keyOf items families)
    (same : Groups keyOf items others) : families = others := by
  have names : families.map Family.name = others.map Family.name := by
    have antisymm : Std.Antisymm fun name later : String =>
        firstMet keyOf items name < firstMet keyOf items later :=
      ⟨fun _ _ below above => absurd below (Nat.lt_asymm above)⟩
    have irrefl : Std.Irrefl fun name later : String =>
        firstMet keyOf items name < firstMet keyOf items later :=
      ⟨fun _ => Nat.lt_irrefl _⟩
    exact groups.ordered.eq_of_mem_iff same.ordered fun name =>
      (groups.named name).trans (same.named name).symm
  have told {families : List (Family α)} (groups : Groups keyOf items families) : families =
      (families.map Family.name).map fun name => ⟨name, (itemsOf keyOf items name).toArray⟩ := by
    rw [List.map_map]
    refine (List.map_id' families).symm.trans (List.map_congr_left fun f mem => ?_)
    rw [Function.comp_apply, ← groups.members f mem]
  rw [told groups, told same, names]

theorem itemsOfNames {names : List String} (once : names.Nodup)
    (all : ∀ x ∈ items, family (keyOf x) ∈ names) :
    (names.flatMap (itemsOf keyOf items)).Perm items := by
  induction names generalizing items with
  | nil =>
    have none : items = [] := List.eq_nil_iff_forall_not_mem.mpr fun x mem => by
      cases all x mem
    rw [none]
    exact .refl _
  | cons name names ih =>
    obtain ⟨new, once⟩ := List.nodup_cons.mp once
    let others := items.filter fun x => !decide (family (keyOf x) = name)
    have apart : ∀ later ∈ names, itemsOf keyOf items later = itemsOf keyOf others later := by
      intro later mem
      rw [itemsOf, itemsOf, List.filter_filter]
      refine List.filter_congr fun x _ => ?_
      by_cases ofLater : family (keyOf x) = later
      · have other : later ≠ name := fun same => new (same ▸ mem)
        simp [ofLater, other]
      · simp [ofLater]
    have rest : (names.flatMap (itemsOf keyOf others)).Perm others := by
      refine ih once fun x mem => ?_
      obtain ⟨inside, other⟩ := List.mem_filter.mp mem
      exact (List.mem_cons.mp (all x inside)).resolve_left (by simpa using other)
    rw [List.flatMap_cons, List.flatMap_congr apart]
    exact (rest.append_left _).trans (List.filter_append_perm _ items)

theorem membersPerm {families : List (Family α)} (groups : Groups keyOf items families) :
    (families.flatMap fun f => f.members.toList).Perm items := by
  have once : (families.map Family.name).Nodup := by
    refine List.Pairwise.imp ?_ groups.ordered
    rintro name _ below rfl
    exact Nat.lt_irrefl _ below
  have listed : (families.flatMap fun f => f.members.toList) =
      (families.map Family.name).flatMap (itemsOf keyOf items) := by
    rw [List.flatMap_map]
    exact List.flatMap_congr groups.members
  rw [listed]
  exact itemsOfNames once fun x mem => (groups.named _).mpr ⟨x, mem, rfl⟩

end Listing

/- Grouping is the listing by families, without empty ones, and what a search finds is what it finds
in groups. -/
theorem groupingExact :
    (∀ {α : Type} (keyOf : α → String) (items : List α),
      (∀ families, groupByFamily keyOf items = families ↔ Groups keyOf items families) ∧
        ∀ f ∈ groupByFamily keyOf items, f.members ≠ #[]) ∧
    ∀ (db : Store.Database) (text : String),
      ((db.searchGrouped text).flatMap fun f => f.members.toList).Perm (db.search text) := by
  refine ⟨fun keyOf items => ?_, fun db text => ?_⟩
  · have groups := groupsOfItems keyOf items
    refine ⟨fun families => ⟨?_, groupsUnique groups⟩, groupsOccupied groups⟩
    rintro rfl
    exact groups
  · exact membersPerm (groupsOfItems Store.SymbolRow.key (db.search text))

theorem overloadsApartGrouped :
    groupByFamily id ["A::f(int)", "g()", "A::f()"] =
      [⟨"A::f", #["A::f(int)", "A::f()"]⟩, ⟨"g", #["g()"]⟩] := by
  have first : family "A::f(int)" = "A::f" := by decide +kernel
  have second : family "g()" = "g" := by decide +kernel
  have third : family "A::f()" = "A::f" := by decide +kernel
  refine ((groupingExact.1 id _).1 _).mpr ⟨fun name => ?_, ?_, ?_⟩
  · simp [Met, first, second, third, eq_comm, or_comm]
  · simp [firstMet, List.findIdx_cons, first, second]
  · simp [itemsOf, first, second, third]

end CxxSymbols.Search
