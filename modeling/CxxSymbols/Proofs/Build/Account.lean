import CxxSymbols.Proofs.Build.Inputs
/-! Every symbol that a build meets is accounted for once. It is in as a row, or it was left out for
the first reason that applies; either list is in the order in which the symbols were met, and the
counters of the report are the lengths of the lists. -/
namespace CxxSymbols.Build
open Canonical (Kind)
open Image (DynamicSymbol Elf PublicSymbol)
open Rtti (Classification View)
open Store (Origin SymbolRow)

inductive Dealt {α : Type} : List α → List α → List α → Prop where
  | nil : Dealt [] [] []
  | left {a : α} {all ls rs : List α} (rest : Dealt all ls rs) : Dealt (a :: all) (a :: ls) rs
  | right {a : α} {all ls rs : List α} (rest : Dealt all ls rs) : Dealt (a :: all) ls (a :: rs)

section Dealt
variable {α : Type} {all ls rs all' ls' rs' : List α}

theorem dealtAppend (first : Dealt all ls rs) (second : Dealt all' ls' rs') :
    Dealt (all ++ all') (ls ++ ls') (rs ++ rs') := by
  induction first with
  | nil => exact second
  | left _ ih => exact .left ih
  | right _ ih => exact .right ih

theorem dealtSublists (dealt : Dealt all ls rs) : ls.Sublist all ∧ rs.Sublist all := by
  induction dealt with
  | nil => simp
  | left _ ih => exact ⟨ih.1.cons_cons _, ih.2.cons _⟩
  | right _ ih => exact ⟨ih.1.cons _, ih.2.cons_cons _⟩

theorem dealtPerm (dealt : Dealt all ls rs) : (ls ++ rs).Perm all := by
  induction dealt with
  | nil => simp
  | left _ ih => exact ih.cons _
  | right _ ih => exact List.perm_middle.trans (ih.cons _)

end Dealt

structure Met where
  raw : String
  origin : Origin
  address : Address
  deriving DecidableEq, Repr

namespace Met

def ofRow (row : SymbolRow) : Met := ⟨row.raw, row.origin, row.address⟩

def ofSkipped (s : Skipped) : Met := ⟨s.raw, s.origin, s.address⟩

def ofDynamic (symbol : DynamicSymbol) : Met :=
  ⟨Text.decodeLossy symbol.name.data.toList, .elf, symbol.address⟩

def ofPublic (symbol : PublicSymbol) : Met := ⟨symbol.name, .pdb, symbol.address⟩

end Met

/-! ### What becomes of one symbol -/

namespace Selection
variable {s : Selection} {raw : String} {address : Address}

def Placed (s : Selection) (address : Address) : Prop := s.dropsZeroAddress = true → address ≠ 0

structure Takes (s : Selection) (raw key : String) (kind : Kind) (address : Address) : Prop where
  placed : s.Placed address
  decoded : Mangled.decodeKey raw = .ok (key, kind)
  known : kind ≠ .unknown
  wanted : ∀ beginning ∈ s.exclusions, ¬beginning.toList <+: key.toList

/- What is true of a symbol that is left out: the reason applies, and none before it does. -/
inductive Leaves (s : Selection) (raw : String) (address : Address) : SkipReason → Prop where
  | zeroAddress (drops : s.dropsZeroAddress = true) (zero : address = 0) :
      Leaves s raw address .zeroAddress
  | notMangled (placed : s.Placed address) (refused : Mangled.decodeKey raw = .error .notMangled) :
      Leaves s raw address .notMangled
  | malformed (placed : s.Placed address) {scheme : Scheme}
      (refused : Mangled.decodeKey raw = .error (.malformed scheme)) :
      Leaves s raw address .malformed
  | unknown (placed : s.Placed address) {key : String}
      (decoded : Mangled.decodeKey raw = .ok (key, .unknown)) : Leaves s raw address .unknown
  | excluded (placed : s.Placed address) {key : String} {kind : Kind}
      (decoded : Mangled.decodeKey raw = .ok (key, kind)) (known : kind ≠ .unknown)
      {before after : List String} {beginning : String}
      (configured : s.exclusions = before ++ beginning :: after)
      (begins : beginning.toList <+: key.toList)
      (first : ∀ other ∈ before, ¬other.toList <+: key.toList) :
      Leaves s raw address (.excluded beginning)

theorem exclusionNone {key : String} (none : s.exclusion? key = none) :
    ∀ beginning ∈ s.exclusions, ¬beginning.toList <+: key.toList := by
  intro beginning mem begins
  have other := List.find?_eq_none.mp none beginning mem
  exact other (List.isPrefixOf_iff_prefix.mpr begins)

theorem exclusionFirst {key beginning : String} (found : s.exclusion? key = some beginning) :
    beginning.toList <+: key.toList ∧ ∃ before after, s.exclusions = before ++ beginning :: after ∧
      ∀ other ∈ before, ¬other.toList <+: key.toList := by
  obtain ⟨begins, before, after, configured, first⟩ := List.find?_eq_some_iff_append.mp found
  refine ⟨List.isPrefixOf_iff_prefix.mp begins, before, after, configured, fun other mem => ?_⟩
  simpa [← List.isPrefixOf_iff_prefix] using first other mem

theorem selected (s : Selection) (raw : String) (address : Address) :
    match s.select raw address with
    | .ok (root, key) => s.Takes raw key root.kind address
    | .error reason => s.Leaves raw address reason := by
  unfold select
  by_cases zero : address = 0 ∧ s.dropsZeroAddress = true
  · rw [if_pos zero]
    exact .zeroAddress zero.2 zero.1
  rw [if_neg zero]
  have placed : s.Placed address := fun drops isZero => zero ⟨isZero, drops⟩
  cases decoded : Mangled.decode raw with
  | error e =>
    have refused : Mangled.decodeKey raw = .error e := by
      rw [Mangled.decodeKey, decoded]
      rfl
    cases e with
    | notMangled => exact .notMangled placed refused
    | malformed scheme => exact .malformed placed refused
  | ok root =>
    have read : Mangled.decodeKey raw = .ok (root.key, root.kind) := by
      rw [Mangled.decodeKey, decoded]
      rfl
    by_cases unknown : root.kind = .unknown
    · simp only [if_pos unknown]
      rw [unknown] at read
      exact .unknown placed read
    simp only [if_neg unknown]
    cases found : s.exclusion? root.key with
    | none => exact ⟨placed, read, unknown, exclusionNone found⟩
    | some beginning =>
      obtain ⟨begins, before, after, configured, first⟩ := exclusionFirst found
      exact .excluded placed read unknown configured begins first

end Selection

namespace Draft

/-! ### What a step keeps of the account -/

structure Accounts (s : Selection) (met : List Met) (d : Draft) : Prop where
  selection : d.selection = s
  dealt : Dealt met (d.rows.toList.map Met.ofRow) (d.skipped.toList.map Met.ofSkipped)
  processed : d.processed = met.length
  counted : d.skippedCount = d.skipped.size
  rows : ∀ row ∈ d.rows.toList, s.Takes row.raw row.key row.kind row.address
  skipped : ∀ left ∈ d.skipped.toList, s.Leaves left.raw left.address left.reason

section Steps
variable {s : Selection} {met : List Met} {d : Draft}

theorem notingAccounts (accounts : d.Accounts s met) (n : Note) : (d.noting n).Accounts s met :=
  ⟨accounts.selection, accounts.dealt, accounts.processed, accounts.counted, accounts.rows,
    accounts.skipped⟩

theorem addVTableAccounts (accounts : d.Accounts s met) (v : View) (classes : Classification)
    (raw : String) (address : Address) : (d.addVTable v classes raw address).Accounts s met := by
  unfold addVTable
  split
  · split
    · exact ⟨accounts.selection, accounts.dealt, accounts.processed, accounts.counted,
        accounts.rows, accounts.skipped⟩
    · exact ⟨accounts.selection, accounts.dealt, accounts.processed, accounts.counted,
        accounts.rows, accounts.skipped⟩
  · exact notingAccounts accounts _

theorem addTypeInfoAccounts (accounts : d.Accounts s met) (v : View) (classes : Classification)
    (raw : String) (address : Address) : (d.addTypeInfo v classes raw address).Accounts s met := by
  unfold addTypeInfo
  split
  · exact accounts
  · split
    · exact ⟨accounts.selection, accounts.dealt, accounts.processed, accounts.counted,
        accounts.rows, accounts.skipped⟩
    · exact notingAccounts accounts _

theorem addSymbolAccounts (accounts : d.Accounts s met) (m : Met) :
    (d.addSymbol m.origin m.raw m.address).2.Accounts s (met ++ [m]) := by
  have processed : d.processed + 1 = (met ++ [m]).length := by
    rw [accounts.processed, List.length_append, List.length_singleton]
  obtain rfl := accounts.selection
  have choice := d.selection.selected m.raw m.address
  simp only [addSymbol]
  cases chosen : d.selection.select m.raw m.address with
  | ok entity =>
    rw [chosen] at choice
    refine ⟨rfl, ?_, processed, accounts.counted, fun row mem => ?_, accounts.skipped⟩
    · simpa [Met.ofRow] using dealtAppend accounts.dealt (.left (a := m) .nil)
    · rcases List.mem_append.mp (Array.toList_push ▸ mem) with before | last
      · exact accounts.rows row before
      · cases List.mem_singleton.mp last
        exact choice
  | error reason =>
    rw [chosen] at choice
    refine ⟨rfl, ?_, processed, ?_, accounts.rows, fun left mem => ?_⟩
    · simpa [Met.ofSkipped] using dealtAppend accounts.dealt (.right (a := m) .nil)
    · simp [accounts.counted]
    · rcases List.mem_append.mp (Array.toList_push ▸ mem) with before | last
      · exact accounts.skipped left before
      · cases List.mem_singleton.mp last
        exact choice

theorem addDynamicSymbolAccounts (v : View) (classes : Classification) (accounts : d.Accounts s met)
    (symbol : DynamicSymbol) :
    (addDynamicSymbol v classes d symbol).Accounts s (met ++ [Met.ofDynamic symbol]) := by
  have added := addSymbolAccounts accounts (Met.ofDynamic symbol)
  simp only [Met.ofDynamic] at added
  simp only [addDynamicSymbol, Met.ofDynamic]
  split
  · rename_i d' shape
    rw [shape] at added
    exact addVTableAccounts added v classes _ _
  · rename_i d' shape
    rw [shape] at added
    exact addTypeInfoAccounts added v classes _ _
  · rename_i d' _ _ shape
    rw [shape] at added
    exact added

theorem foldAccounts {α : Type} {step : Draft → α → Draft} {view : α → Met}
    (each : ∀ {d met}, d.Accounts s met → ∀ a, (step d a).Accounts s (met ++ [view a]))
    (as : List α) (accounts : d.Accounts s met) :
    (as.foldl step d).Accounts s (met ++ as.map view) := by
  induction as generalizing d met with
  | nil => simpa using accounts
  | cons a as ih => simpa using ih (each accounts a)

/-! ### What inputs bring -/

def brings (d : Draft) : Input → List Met
  | .image elf =>
    match addImage elf d, elf.dynamicSymbols with
    | .ok _ _, .ok symbols => (symbols.filter fun s => !s.name.isEmpty).map Met.ofDynamic
    | _, _ => []
  | .publicSymbols symbols => symbols.map Met.ofPublic

def bringsAll (d : Draft) : List Input → List Met
  | [] => []
  | input :: inputs => d.brings input ++ (d.adding input).bringsAll inputs

theorem addingAccounts (accounts : d.Accounts s met) (input : Input) :
    (d.adding input).Accounts s (met ++ d.brings input) := by
  cases input with
  | image elf =>
    have ends := addImageEnds (P := fun d => d.Accounts s met)
      (fun _ n accounts => notingAccounts accounts n) elf accounts
    rw [adding, brings]
    cases ran : addImage elf d with
    | error e d' =>
      rw [Ends, ran] at ends
      rw [List.append_nil]
      exact ends.2
    | ok _ d' =>
      rw [Ends, ran] at ends
      obtain ⟨data, symbols, classes, before, last, scanned, accounts, rfl⟩ := ends
      simp only [scanned.listed]
      exact notingAccounts (foldAccounts
        (fun accounts => addDynamicSymbolAccounts data.view classes accounts) _ accounts) last
  | publicSymbols symbols =>
    exact foldAccounts (fun accounts symbol => addSymbolAccounts accounts (Met.ofPublic symbol))
      symbols accounts

theorem inputsAccounts (accounts : d.Accounts s met) (inputs : List Input) :
    (inputs.foldl adding d).Accounts s (met ++ d.bringsAll inputs) := by
  induction inputs generalizing d met with
  | nil => simpa [bringsAll] using accounts
  | cons input inputs ih =>
    rw [bringsAll, ← List.append_assoc]
    exact ih (addingAccounts accounts input)

end Steps
end Draft

/- Whatever inputs a draft was made of, each symbol that they brought is either a row or on the list
of those left out, in the order in which it was met; the report counts them right; and what is said
of each symbol in either list is true. -/
theorem everySymbolAccounted (selection : Selection) (inputs : List Input) :
    let d := Draft.ofInputs selection inputs
    let met := Draft.bringsAll { selection } inputs
    let staged := d.rows.toList.map Met.ofRow
    let left := d.report.skipped.map Met.ofSkipped
    Dealt met staged left ∧ staged.Sublist met ∧ left.Sublist met ∧ (staged ++ left).Perm met ∧
      d.report.processed = met.length ∧
      d.report.processed = d.rows.size + d.report.skippedCount ∧
      d.report.skippedCount = d.report.skipped.length ∧
      (∀ row ∈ d.rows.toList, selection.Takes row.raw row.key row.kind row.address) ∧
      ∀ s ∈ d.report.skipped, selection.Leaves s.raw s.address s.reason := by
  intro d met staged left
  have start : ({ selection } : Draft).Accounts selection [] :=
    ⟨rfl, .nil, rfl, rfl, by simp, by simp⟩
  have accounts : d.Accounts selection met := Draft.inputsAccounts start inputs
  have perm := dealtPerm accounts.dealt
  have sublists := dealtSublists accounts.dealt
  have total := perm.length_eq
  simp only [List.length_append, List.length_map, Array.length_toList] at total
  refine ⟨accounts.dealt, sublists.1, sublists.2, perm, accounts.processed, ?_, accounts.counted,
    accounts.rows, accounts.skipped⟩
  show d.processed = d.rows.size + d.skippedCount
  rw [accounts.processed, accounts.counted, total]

end CxxSymbols.Build
