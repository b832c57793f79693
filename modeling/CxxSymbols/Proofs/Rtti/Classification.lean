import CxxSymbols.Rtti.Classification
/-! What relocations say. They are refused where the language runtime is not imported as a whole, or
one of them has no symbol of the table. Otherwise the kind of a record is told by the last of them at
its address that patches in a table of the runtime, and a slot is one for the loader to fill if any of
them patches in the handler for pure virtual calls. -/
namespace CxxSymbols.Rtti
open Image (DynamicSymbol Relocation isAbsolute)

section Places
variable {α : Type} {P : α → Prop} {x y : α} {xs : List α}

inductive IsFirst (P : α → Prop) : List α → α → Prop where
  | here {x : α} {xs : List α} (holds : P x) : IsFirst P (x :: xs) x
  | later {x y : α} {xs : List α} (other : ¬P x) (first : IsFirst P xs y) : IsFirst P (x :: xs) y

inductive IsLast (P : α → Prop) : List α → α → Prop where
  | here {x : α} {xs : List α} (holds : P x) (none : ∀ y ∈ xs, ¬P y) : IsLast P (x :: xs) x
  | later {x y : α} {xs : List α} (last : IsLast P xs y) : IsLast P (x :: xs) y

theorem firstHolds (first : IsFirst P xs x) : x ∈ xs ∧ P x := by
  induction first with
  | here holds => exact ⟨List.mem_cons_self, holds⟩
  | later _ _ ih => exact ⟨List.mem_cons_of_mem _ ih.1, ih.2⟩

theorem firstUnique (first : IsFirst P xs x) (same : IsFirst P xs y) : x = y := by
  induction first with
  | here holds =>
    cases same with
    | here => rfl
    | later other => exact absurd holds other
  | later other _ ih =>
    cases same with
    | here holds => exact absurd holds other
    | later _ first => exact ih first

theorem lastNext : IsLast P (x :: xs) y ↔ IsLast P xs y ∨ x = y ∧ P x ∧ ∀ z ∈ xs, ¬P z := by
  constructor
  · rintro (⟨holds, none⟩ | last)
    · exact .inr ⟨rfl, holds, none⟩
    · exact .inl last
  · rintro (last | ⟨rfl, holds, none⟩)
    · exact .later last
    · exact .here holds none

end Places

/-! ### The symbols of the runtime -/

namespace Runtime

def names : List String := [classTypeInfo, singleTypeInfo, multipleTypeInfo, pureVirtual]

def table : TypeInfoKind → String
  | .noInherit => classTypeInfo
  | .singleInherit => singleTypeInfo
  | .virtualMultiInherit => multipleTypeInfo

theorem tableNamed (kind : TypeInfoKind) : table kind ∈ names := by
  cases kind <;> decide

theorem tableInjective {kind other : TypeInfoKind} (same : table kind = table other) :
    kind = other := by
  revert same
  cases kind <;> cases other <;> decide

theorem tableNotHandler (kind : TypeInfoKind) : table kind ≠ pureVirtual := by
  cases kind <;> decide

end Runtime

def Imports (symbol : DynamicSymbol) (name : String) : Prop :=
  symbol.address = 0 ∧ symbol.name = name.toUTF8

def Unimported (symbols : List DynamicSymbol) (name : String) : Prop :=
  ∀ s ∈ symbols, ¬Imports s name

instance {symbol : DynamicSymbol} {name : String} : Decidable (Imports symbol name) :=
  inferInstanceAs (Decidable (symbol.address = 0 ∧ symbol.name = name.toUTF8))

instance {symbols : List DynamicSymbol} {name : String} : Decidable (Unimported symbols name) :=
  inferInstanceAs (Decidable (∀ s ∈ symbols, ¬Imports s name))

def FirstImport (symbols : List DynamicSymbol) (name : String) (place : Nat) : Prop :=
  (∃ s, symbols[place]? = some s ∧ Imports s name) ∧
    ∀ earlier < place, ∀ s, symbols[earlier]? = some s → ¬Imports s name

def Numbered (symbols : List DynamicSymbol) : Prop :=
  ∀ (place : Nat) (s : DynamicSymbol), symbols[place]? = some s → s.index = place

section Imports
variable {symbols : List DynamicSymbol} {name other : String} {place earlier : Nat}

theorem importUnique (first : FirstImport symbols name place)
    (same : FirstImport symbols name earlier) : place = earlier := by
  obtain ⟨⟨s, found, imports⟩, none⟩ := first
  obtain ⟨⟨t, found', imports'⟩, none'⟩ := same
  rcases Nat.lt_trichotomy place earlier with before | equal | behind
  · exact absurd imports (none' place before s found)
  · exact equal
  · exact absurd imports' (none earlier behind t found')

theorem importName (first : FirstImport symbols name place)
    (same : FirstImport symbols other place) : name = other := by
  obtain ⟨⟨s, found, _, spelled⟩, _⟩ := first
  obtain ⟨⟨t, found', _, spelled'⟩, _⟩ := same
  cases Option.some.inj (found.symm.trans found')
  exact String.toByteArray_inj.mp (spelled.symm.trans spelled')

theorem importApart (first : FirstImport symbols name place)
    (second : FirstImport symbols other earlier) (apart : name ≠ other) : place ≠ earlier := by
  rintro rfl
  exact apart (importName first second)

theorem importWithin (first : FirstImport symbols name place) : place < symbols.length := by
  obtain ⟨⟨s, found, _⟩, _⟩ := first
  exact (List.getElem?_eq_some_iff.mp found).1

theorem firstImported (first : FirstImport symbols name place) : ¬Unimported symbols name := by
  obtain ⟨⟨s, found, imports⟩, _⟩ := first
  exact fun missing => missing s (List.mem_of_getElem? found) imports

theorem importTest (s : DynamicSymbol) (name : String) :
    (decide (s.address = 0) && s.name == name.toUTF8) = true ↔ Imports s name := by
  have bytes : (s.name == name.toUTF8) = true ↔ s.name = name.toUTF8 := by
    change (s.name.data == name.toUTF8.data) = true ↔ _
    rw [beq_iff_eq, ByteArray.ext_iff]
  rw [Bool.and_eq_true, decide_eq_true_eq, bytes, Imports]

namespace RuntimeSymbols

theorem importAnswers (numbered : Numbered symbols) (name : String) :
    (Unimported symbols name ∧ importOf symbols name = .error (.missingRuntimeSymbol name)) ∨
      ∃ place, FirstImport symbols name place ∧ importOf symbols name = .ok place := by
  rw [importOf]
  cases found : symbols.find? fun s => s.address = 0 && s.name == name.toUTF8 with
  | none =>
    refine .inl ⟨fun s mem imports => ?_, rfl⟩
    exact List.find?_eq_none.mp found s mem ((importTest s name).mpr imports)
  | some s =>
    obtain ⟨test, place, within, here, none⟩ := List.find?_eq_some_iff_getElem.mp found
    have held : symbols[place]? = some s := List.getElem?_eq_some_iff.mpr ⟨within, here⟩
    refine .inr ⟨place, ⟨⟨s, held, (importTest s name).mp test⟩, fun earlier before t there => ?_⟩,
      congrArg Except.ok (numbered place s held)⟩
    obtain ⟨_, rfl⟩ := List.getElem?_eq_some_iff.mp there
    intro imports
    have refused := none earlier before
    rw [(importTest _ name).mpr imports] at refused
    cases refused

structure Known (symbols : List DynamicSymbol) (r : RuntimeSymbols) : Prop where
  classTypeInfo : FirstImport symbols Runtime.classTypeInfo r.classTypeInfo
  singleTypeInfo : FirstImport symbols Runtime.singleTypeInfo r.singleTypeInfo
  multipleTypeInfo : FirstImport symbols Runtime.multipleTypeInfo r.multipleTypeInfo
  pureVirtual : FirstImport symbols Runtime.pureVirtual r.pureVirtual

def Finds {α : Type} (symbols : List DynamicSymbol) (names : List String) (Q : α → Prop)
    (answer : Except RttiError α) : Prop :=
  (∃ name, IsFirst (Unimported symbols) names name ∧
    answer = .error (.missingRuntimeSymbol name)) ∨ ∃ x, Q x ∧ answer = .ok x

theorem importNext (numbered : Numbered symbols) {α : Type} {names : List String} {Q : α → Prop}
    {f : Nat → Except RttiError α}
    (each : ∀ place, FirstImport symbols name place → Finds symbols names Q (f place)) :
    Finds symbols (name :: names) Q (importOf symbols name >>= f) := by
  rcases importAnswers numbered name with ⟨missing, ran⟩ | ⟨place, first, ran⟩
  · rw [ran]
    exact .inl ⟨name, .here missing, rfl⟩
  · rw [ran]
    exact (each place first).imp_left fun ⟨later, missing, ran⟩ =>
      ⟨later, .later (firstImported first) missing, ran⟩

theorem knownImported {r : RuntimeSymbols} (known : Known symbols r) (named : name ∈ Runtime.names) :
    ¬Unimported symbols name := by
  simp only [Runtime.names, List.mem_cons, List.not_mem_nil, or_false] at named
  rcases named with rfl | rfl | rfl | rfl
  · exact firstImported known.classTypeInfo
  · exact firstImported known.singleTypeInfo
  · exact firstImported known.multipleTypeInfo
  · exact firstImported known.pureVirtual

theorem findAnswers (numbered : Numbered symbols) :
    Finds symbols Runtime.names (Known symbols) (find symbols) := by
  refine importNext numbered fun _ first => ?_
  refine importNext numbered fun _ second => ?_
  refine importNext numbered fun _ third => ?_
  exact importNext numbered fun _ fourth => .inr ⟨_, ⟨first, second, third, fourth⟩, rfl⟩

theorem kindTold {r : RuntimeSymbols} (known : Known symbols r) {kind : TypeInfoKind} :
    r.kind? place = some kind ↔ FirstImport symbols (Runtime.table kind) place := by
  constructor
  · intro told
    unfold kind? at told
    split at told
    · cases told
      exact ‹place = r.classTypeInfo› ▸ known.classTypeInfo
    split at told
    · cases told
      exact ‹place = r.singleTypeInfo› ▸ known.singleTypeInfo
    split at told
    · cases told
      exact ‹place = r.multipleTypeInfo› ▸ known.multipleTypeInfo
    · cases told
  · intro first
    cases kind with
    | noInherit => rw [kind?, if_pos (importUnique first known.classTypeInfo)]
    | singleInherit =>
      have other := importApart first known.classTypeInfo (by decide)
      rw [kind?, if_neg other, if_pos (importUnique first known.singleTypeInfo)]
    | virtualMultiInherit =>
      have other := importApart first known.classTypeInfo (by decide)
      have another := importApart first known.singleTypeInfo (by decide)
      rw [kind?, if_neg other, if_neg another,
        if_pos (importUnique first known.multipleTypeInfo)]

end RuntimeSymbols
end Imports

/-! ### One relocation -/

def Refers (symbols : List DynamicSymbol) (reloc : Relocation) (name : String) : Prop :=
  isAbsolute reloc.type = true ∧ ∃ place, reloc.symbol = some place ∧ FirstImport symbols name place

def Tells (symbols : List DynamicSymbol) (address : Address) (reloc : Relocation) : Prop :=
  reloc.offset = address ∧ ∃ kind, Refers symbols reloc (Runtime.table kind)

def Dangling (symbols : List DynamicSymbol) (reloc : Relocation) : Prop :=
  isAbsolute reloc.type = true ∧ ∃ place, reloc.symbol = some place ∧ symbols.length ≤ place

instance {symbols : List DynamicSymbol} {reloc : Relocation} : Decidable (Dangling symbols reloc) :=
  inferInstanceAs (Decidable (isAbsolute reloc.type = true ∧
    ∃ place ∈ reloc.symbol, symbols.length ≤ place))

/- A relocation of another type, without a symbol or with one that is no import that counts. -/
def Idle (symbols : List DynamicSymbol) (reloc : Relocation) : Prop :=
  isAbsolute reloc.type = false ∨ reloc.symbol = none ∨ ∃ place, reloc.symbol = some place ∧
    place < symbols.length ∧ ∀ name ∈ Runtime.names, ¬FirstImport symbols name place

section Step
variable {symbols : List DynamicSymbol} {reloc : Relocation} {name other : String}

theorem refersName (refers : Refers symbols reloc name) (same : Refers symbols reloc other) :
    name = other := by
  obtain ⟨_, place, named, first⟩ := refers
  obtain ⟨_, place', named', first'⟩ := same
  cases Option.some.inj (named.symm.trans named')
  exact importName first first'

theorem refersNotDangling (refers : Refers symbols reloc name) : ¬Dangling symbols reloc := by
  rintro ⟨_, place', named', beyond⟩
  obtain ⟨_, place, named, first⟩ := refers
  cases Option.some.inj (named.symm.trans named')
  exact Nat.not_lt.mpr beyond (importWithin first)

theorem idleNotDangling (idle : Idle symbols reloc) : ¬Dangling symbols reloc := by
  rintro ⟨absolute, place, named, beyond⟩
  rcases idle with relative | none | ⟨place', named', within, _⟩
  · rw [absolute] at relative
    cases relative
  · rw [none] at named
    cases named
  · cases Option.some.inj (named.symm.trans named')
    exact Nat.not_lt.mpr beyond within

theorem idleRefersNowhere (idle : Idle symbols reloc) (mem : name ∈ Runtime.names) :
    ¬Refers symbols reloc name := by
  rintro ⟨absolute, place, named, first⟩
  rcases idle with relative | none | ⟨place', named', _, other⟩
  · rw [absolute] at relative
    cases relative
  · rw [none] at named
    cases named
  · cases Option.some.inj (named.symm.trans named')
    exact other name mem first

namespace Classification

inductive Noted (symbols : List DynamicSymbol) (c : Classification) (reloc : Relocation) :
    Except RttiError Classification → Prop where
  | idle (idle : Idle symbols reloc) : Noted symbols c reloc (.ok c)
  | kind {kind : TypeInfoKind} (refers : Refers symbols reloc (Runtime.table kind)) :
      Noted symbols c reloc (.ok { c with kinds := c.kinds.insert reloc.offset kind })
  | pending (refers : Refers symbols reloc Runtime.pureVirtual) :
      Noted symbols c reloc (.ok { c with pending := c.pending.insert reloc.offset })
  | dangling {place : Nat} (named : reloc.symbol = some place) (dangling : Dangling symbols reloc) :
      Noted symbols c reloc (.error (.badSymbolIndex reloc.offset place))

theorem noteNoted {r : RuntimeSymbols} (known : r.Known symbols) (c : Classification)
    (reloc : Relocation) : Noted symbols c reloc (note r symbols.length c reloc) := by
  unfold note
  by_cases absolute : isAbsolute reloc.type = true
  · rw [if_pos absolute]
    cases named : reloc.symbol with
    | none => exact .idle (.inr (.inl named))
    | some place =>
      by_cases within : place < symbols.length
      · simp only [if_pos within]
        cases told : r.kind? place with
        | some kind =>
          exact .kind ⟨absolute, place, named, (RuntimeSymbols.kindTold known).mp told⟩
        | none =>
          by_cases handler : place = r.pureVirtual
          · simp only [if_pos handler]
            exact .pending ⟨absolute, place, named, handler ▸ known.pureVirtual⟩
          · simp only [if_neg handler]
            refine .idle (.inr (.inr ⟨place, named, within, fun name mem first => ?_⟩))
            have untold (kind : TypeInfoKind) : name ≠ Runtime.table kind := by
              rintro rfl
              rw [(RuntimeSymbols.kindTold known).mpr first] at told
              cases told
            simp only [Runtime.names, List.mem_cons, List.not_mem_nil, or_false] at mem
            rcases mem with table | table | table | rfl
            · exact untold .noInherit table
            · exact untold .singleInherit table
            · exact untold .virtualMultiInherit table
            · exact handler (importUnique first known.pureVirtual)
      · simp only [if_neg within]
        exact .dangling named ⟨absolute, place, named, Nat.le_of_not_lt within⟩
  · rw [if_neg absolute]
    exact .idle (.inl (Bool.eq_false_iff.mpr absolute))

theorem notedKinds {c c' : Classification} (noted : Noted symbols c reloc (.ok c'))
    (a : Address) (kind : TypeInfoKind) : c'.kinds[a]? = some kind ↔
      reloc.offset = a ∧ Refers symbols reloc (Runtime.table kind) ∨
        ¬Tells symbols a reloc ∧ c.kinds[a]? = some kind := by
  have untold (silent : ∀ kind, ¬Refers symbols reloc (Runtime.table kind)) :
      c.kinds[a]? = some kind ↔ reloc.offset = a ∧ Refers symbols reloc (Runtime.table kind) ∨
        ¬Tells symbols a reloc ∧ c.kinds[a]? = some kind := by
    have none : ¬Tells symbols a reloc := fun ⟨_, other, refers⟩ => silent other refers
    simp [silent kind, none]
  cases noted with
  | idle idle => exact untold fun other => idleRefersNowhere idle (Runtime.tableNamed other)
  | pending refers =>
    exact untold fun other table => Runtime.tableNotHandler other (refersName table refers)
  | @kind told refers =>
    rw [Std.ExtTreeMap.getElem?_insert]
    by_cases here : reloc.offset = a
    · have tells : Tells symbols a reloc := ⟨here, told, refers⟩
      have same : told = kind ↔ Refers symbols reloc (Runtime.table kind) :=
        ⟨fun same => same ▸ refers, fun table => Runtime.tableInjective (refersName refers table)⟩
      simp [here, tells, same, Std.compare_self]
    · have elsewhere : ¬compare reloc.offset a = .eq := fun equal =>
        here (Std.compare_eq_iff_eq.mp equal)
      simp [here, elsewhere, Tells]

theorem notedPending {c c' : Classification} (noted : Noted symbols c reloc (.ok c'))
    (a : Address) : a ∈ c'.pending ↔
      reloc.offset = a ∧ Refers symbols reloc Runtime.pureVirtual ∨ a ∈ c.pending := by
  cases noted with
  | idle idle =>
    have none : ¬Refers symbols reloc Runtime.pureVirtual :=
      idleRefersNowhere idle (by decide)
    simp [none]
  | kind refers =>
    have none : ¬Refers symbols reloc Runtime.pureVirtual := fun handler =>
      Runtime.tableNotHandler _ (refersName refers handler)
    simp [none]
  | pending refers =>
    rw [Std.ExtTreeSet.mem_insert, Std.compare_eq_iff_eq]
    simp [refers]

end Classification
end Step

/-! ### All relocations -/

namespace Classification
variable {symbols : List DynamicSymbol} {relocs : List Relocation} {reloc : Relocation}
  {c c' : Classification} {answer : Except RttiError Classification} {address : Address}
  {kind : TypeInfoKind}

inductive Ran (symbols : List DynamicSymbol) : List Relocation → Classification →
    Except RttiError Classification → Prop where
  | done {c : Classification} : Ran symbols [] c (.ok c)
  | next {c c' : Classification} {reloc : Relocation} {relocs : List Relocation}
      {answer : Except RttiError Classification} (noted : Noted symbols c reloc (.ok c'))
      (rest : Ran symbols relocs c' answer) : Ran symbols (reloc :: relocs) c answer
  | refused {c : Classification} {reloc : Relocation} {relocs : List Relocation} {e : RttiError}
      (noted : Noted symbols c reloc (.error e)) : Ran symbols (reloc :: relocs) c (.error e)

theorem foldRan {r : RuntimeSymbols} (known : r.Known symbols) (relocs : List Relocation)
    (c : Classification) : Ran symbols relocs c (relocs.foldlM (note r symbols.length) c) := by
  induction relocs generalizing c with
  | nil => exact .done
  | cons reloc relocs ih =>
    have noted := noteNoted known c reloc
    rw [List.foldlM_cons]
    cases ran : note r symbols.length c reloc with
    | error e => exact .refused (ran ▸ noted)
    | ok c' => exact .next (ran ▸ noted) (ih c')

def LastTold (symbols : List DynamicSymbol) (relocs : List Relocation) (address : Address)
    (kind : TypeInfoKind) : Prop :=
  ∃ reloc, IsLast (Tells symbols address) relocs reloc ∧
    Refers symbols reloc (Runtime.table kind)

theorem lastToldNext : LastTold symbols (reloc :: relocs) address kind ↔
    LastTold symbols relocs address kind ∨
      (reloc.offset = address ∧ Refers symbols reloc (Runtime.table kind)) ∧
        ∀ later ∈ relocs, ¬Tells symbols address later := by
  simp only [LastTold, lastNext, or_and_right, exists_or]
  refine or_congr_right ⟨?_, fun ⟨⟨here, refers⟩, silent⟩ => ?_⟩
  · rintro ⟨_, ⟨rfl, ⟨here, _⟩, silent⟩, refers⟩
    exact ⟨⟨here, refers⟩, silent⟩
  · exact ⟨reloc, ⟨rfl, ⟨here, kind, refers⟩, silent⟩, refers⟩

theorem ranKinds (ran : Ran symbols relocs c answer) (classified : answer = .ok c')
    (address : Address) (kind : TypeInfoKind) : c'.kinds[address]? = some kind ↔
      LastTold symbols relocs address kind ∨
        (∀ reloc ∈ relocs, ¬Tells symbols address reloc) ∧ c.kinds[address]? = some kind := by
  induction ran with
  | done =>
    cases classified
    have nothing : ¬LastTold symbols [] address kind := fun ⟨_, last, _⟩ => nomatch last
    simp [nothing]
  | next noted _ ih =>
    rw [ih classified, lastToldNext, notedKinds noted, List.forall_mem_cons]
    grind
  | refused => cases classified

theorem ranPending (ran : Ran symbols relocs c answer) (classified : answer = .ok c')
    (address : Address) : address ∈ c'.pending ↔
      (∃ reloc ∈ relocs, reloc.offset = address ∧ Refers symbols reloc Runtime.pureVirtual) ∨
        address ∈ c.pending := by
  induction ran with
  | done =>
    cases classified
    simp
  | next noted _ ih =>
    simp only [ih classified, notedPending noted, List.mem_cons, or_and_right, exists_or,
      exists_eq_left, or_assoc, or_left_comm]
  | refused => cases classified

theorem notedSound (noted : Noted symbols c reloc (.ok c')) : ¬Dangling symbols reloc := by
  cases noted with
  | idle idle => exact idleNotDangling idle
  | kind refers => exact refersNotDangling refers
  | pending refers => exact refersNotDangling refers

theorem notedRefused {e : RttiError} (noted : Noted symbols c reloc (.error e)) :
    ∃ place, e = .badSymbolIndex reloc.offset place ∧ reloc.symbol = some place ∧
      Dangling symbols reloc := by
  cases noted with
  | dangling named dangling => exact ⟨_, rfl, named, dangling⟩

theorem ranFails (ran : Ran symbols relocs c answer) (place : Nat) :
    answer = .error (.badSymbolIndex address place) ↔
      ∃ reloc, IsFirst (Dangling symbols) relocs reloc ∧ reloc.offset = address ∧
        reloc.symbol = some place := by
  induction ran with
  | done => exact ⟨nofun, fun ⟨_, first, _⟩ => nomatch first⟩
  | next noted _ ih =>
    refine ih.trans ⟨fun ⟨reloc, first, told⟩ => ⟨reloc, .later (notedSound noted) first, told⟩, ?_⟩
    rintro ⟨reloc, first, told⟩
    cases first with
    | here dangling => exact absurd dangling (notedSound noted)
    | later _ first => exact ⟨reloc, first, told⟩
  | @refused _ reloc _ _ noted =>
    obtain ⟨found, rfl, named, dangling⟩ := notedRefused noted
    constructor
    · rintro ⟨⟩
      exact ⟨reloc, .here dangling, rfl, named⟩
    · rintro ⟨other, first, rfl, named'⟩
      cases firstUnique first (.here dangling)
      rw [Option.some.inj (named.symm.trans named')]

theorem ranRefused (ran : Ran symbols relocs c answer) {e : RttiError} (failed : answer = .error e) :
    ∃ address place, e = .badSymbolIndex address place := by
  induction ran with
  | done => cases failed
  | next _ _ ih => exact ih failed
  | refused noted =>
    cases failed
    obtain ⟨place, rfl, _⟩ := notedRefused noted
    exact ⟨_, place, rfl⟩

theorem ranSound (ran : Ran symbols relocs c answer)
    (sound : ∀ reloc ∈ relocs, ¬Dangling symbols reloc) : ∃ c', answer = .ok c' := by
  induction ran with
  | done => exact ⟨_, rfl⟩
  | next _ _ ih => exact ih (List.forall_mem_cons.mp sound).2
  | refused noted =>
    obtain ⟨_, _, _, dangling⟩ := notedRefused noted
    exact absurd dangling (List.forall_mem_cons.mp sound).1

theorem idleLeftOut {r : RuntimeSymbols} (known : r.Known symbols) (idle : Idle symbols reloc)
    (front behind : List Relocation) (c : Classification) :
    (front ++ reloc :: behind).foldlM (note r symbols.length) c =
      (front ++ behind).foldlM (note r symbols.length) c := by
  have nothing (c : Classification) : note r symbols.length c reloc = .ok c := by
    have noted := noteNoted known c reloc
    generalize note r symbols.length c reloc = answer at noted
    cases noted with
    | idle => rfl
    | kind refers => exact absurd refers (idleRefersNowhere idle (Runtime.tableNamed _))
    | pending refers => exact absurd refers (idleRefersNowhere idle (by decide))
    | dangling _ dangling => exact absurd dangling (idleNotDangling idle)
  rw [List.foldlM_append, List.foldlM_append]
  refine bind_congr fun c => ?_
  rw [List.foldlM_cons, nothing]
  rfl

structure Says (symbols : List DynamicSymbol) (relocs : List Relocation) (c : Classification) :
    Prop where
  kinds : ∀ address kind, c.kinds[address]? = some kind ↔ LastTold symbols relocs address kind
  pending : ∀ address, address ∈ c.pending ↔
    ∃ reloc ∈ relocs, reloc.offset = address ∧ Refers symbols reloc Runtime.pureVirtual

theorem ranSays (ran : Ran symbols relocs {} answer) (classified : answer = .ok c) :
    Says symbols relocs c := by
  refine ⟨fun address kind => ?_, fun address => ?_⟩
  · simp [ranKinds ran classified]
  · simp [ranPending ran classified]

/-! ### The runtime and the relocations -/

theorem runOrMissing (numbered : Numbered symbols) :
    (∃ name, IsFirst (Unimported symbols) Runtime.names name ∧
      ∀ relocs, ofRelocations symbols relocs = .error (.missingRuntimeSymbol name)) ∨
    ∃ r : RuntimeSymbols, r.Known symbols ∧
      ∀ relocs, ofRelocations symbols relocs = relocs.foldlM (note r symbols.length) {} := by
  rcases RuntimeSymbols.findAnswers numbered with ⟨name, first, found⟩ | ⟨r, known, found⟩
  · refine .inl ⟨name, first, fun relocs => ?_⟩
    rw [ofRelocations, found]
    rfl
  · refine .inr ⟨r, known, fun relocs => ?_⟩
    rw [ofRelocations, found]
    rfl

theorem ranImported (numbered : Numbered symbols)
    (imported : ∀ name ∈ Runtime.names, ¬Unimported symbols name) (relocs : List Relocation) :
    Ran symbols relocs {} (ofRelocations symbols relocs) := by
  rcases runOrMissing numbered with ⟨name, first, _⟩ | ⟨r, known, runs⟩
  · exact absurd (firstHolds first).2 (imported name (firstHolds first).1)
  · rw [runs]
    exact foldRan known relocs {}

theorem missingRefused (numbered : Numbered symbols) {name : String} (named : name ∈ Runtime.names)
    (unimported : Unimported symbols name) (relocs : List Relocation) :
    ∃ first, ofRelocations symbols relocs = .error (.missingRuntimeSymbol first) := by
  rcases runOrMissing numbered with ⟨first, _, refused⟩ | ⟨r, known, _⟩
  · exact ⟨first, refused relocs⟩
  · exact absurd unimported (RuntimeSymbols.knownImported known named)

theorem missingFirst (numbered : Numbered symbols) {name : String}
    (failed : ofRelocations symbols relocs = .error (.missingRuntimeSymbol name)) :
    IsFirst (Unimported symbols) Runtime.names name := by
  rcases runOrMissing numbered with ⟨_, first, refused⟩ | ⟨r, known, runs⟩
  · cases (refused relocs).symm.trans failed
    exact first
  · obtain ⟨_, _, other⟩ := ranRefused (foldRan known relocs {}) ((runs relocs).symm.trans failed)
    cases other

theorem idleInvisible (numbered : Numbered symbols) (idle : Idle symbols reloc)
    (front behind : List Relocation) : ofRelocations symbols (front ++ reloc :: behind) =
      ofRelocations symbols (front ++ behind) := by
  rcases runOrMissing numbered with ⟨_, _, refused⟩ | ⟨r, known, runs⟩
  · rw [refused, refused]
  · rw [runs, runs]
    exact idleLeftOut known idle front behind {}

end Classification

/- What relocations come to, if each symbol says which place it has: the first name of the runtime
that is not imported is reported, then the first relocation without a proper symbol, and otherwise
they are taken at their word. One that is idle might as well be left out. -/
theorem relocationsSay (symbols : List DynamicSymbol) (numbered : Numbered symbols)
    (relocs : List Relocation) :
    let answer := Classification.ofRelocations symbols relocs
    ((∃ name, answer = .error (.missingRuntimeSymbol name)) ↔
      ∃ name ∈ Runtime.names, Unimported symbols name) ∧
    (∀ name, answer = .error (.missingRuntimeSymbol name) →
      IsFirst (Unimported symbols) Runtime.names name) ∧
    ((∀ name ∈ Runtime.names, ¬Unimported symbols name) →
      (∀ address place, answer = .error (.badSymbolIndex address place) ↔
        ∃ reloc, IsFirst (Dangling symbols) relocs reloc ∧ reloc.offset = address ∧
          reloc.symbol = some place) ∧
      ((∀ reloc ∈ relocs, ¬Dangling symbols reloc) →
        ∃ c, answer = .ok c ∧ Classification.Says symbols relocs c)) ∧
    ∀ front reloc behind, relocs = front ++ reloc :: behind → Idle symbols reloc →
      answer = Classification.ofRelocations symbols (front ++ behind) := by
  intro answer
  refine ⟨⟨fun ⟨name, failed⟩ => ?_, fun ⟨name, named, unimported⟩ => ?_⟩,
    fun name failed => Classification.missingFirst numbered failed, fun imported => ?_, ?_⟩
  · exact ⟨name, firstHolds (Classification.missingFirst numbered failed)⟩
  · exact Classification.missingRefused numbered named unimported relocs
  · have ran := Classification.ranImported numbered imported relocs
    refine ⟨fun address place => Classification.ranFails ran place, fun sound => ?_⟩
    obtain ⟨c, classified⟩ := Classification.ranSound ran sound
    exact ⟨c, classified, Classification.ranSays ran classified⟩
  · rintro front reloc behind rfl idle
    exact Classification.idleInvisible numbered idle front behind

theorem secondTableStays :
    let symbols : List DynamicSymbol := [("", 0), (Runtime.classTypeInfo, 0x4000),
      (Runtime.classTypeInfo, 0), (Runtime.singleTypeInfo, 0), (Runtime.multipleTypeInfo, 0),
      (Runtime.pureVirtual, 0), (Runtime.classTypeInfo, 0)].zipIdx.map
        fun e => ⟨e.2, e.1.1.toUTF8, e.1.2⟩
    let relocs : List Relocation := [⟨0x100, 1, some 2⟩, ⟨0x100, 257, some 3⟩,
      ⟨0x100, 1, some 5⟩, ⟨0x100, 1, some 6⟩, ⟨0x100, 8, some 99⟩]
    Numbered symbols ∧ ∃ c, Classification.ofRelocations symbols relocs = .ok c ∧
      Classification.Says symbols relocs c ∧ c.kinds[(0x100 : Address)]? = some .singleInherit ∧
      (0x100 : Address) ∈ c.pending := by
  intro symbols relocs
  have numbered : Numbered symbols := by
    intro place s found
    obtain ⟨e, placed, rfl⟩ :=
      Option.map_eq_some_iff.mp (List.getElem?_map.symm.trans found)
    rw [List.getElem?_zipIdx] at placed
    obtain ⟨_, _, rfl⟩ := Option.map_eq_some_iff.mp placed
    exact Nat.zero_add place
  obtain ⟨_, _, complete, _⟩ := relocationsSay symbols numbered relocs
  obtain ⟨c, ran, told⟩ := (complete (by decide +kernel)).2 (by decide +kernel)
  have kind : ((Classification.ofRelocations symbols relocs).toOption.bind
      fun c => c.kinds[(0x100 : Address)]?) = some .singleInherit := by decide +kernel
  have filled : ((Classification.ofRelocations symbols relocs).toOption.any
      fun c => c.pending.contains 0x100) = true := by decide +kernel
  rw [ran] at kind filled
  exact ⟨numbered, c, ran, told, kind, filled⟩

end CxxSymbols.Rtti
