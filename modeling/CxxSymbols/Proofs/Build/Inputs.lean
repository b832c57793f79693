import CxxSymbols.Proofs.Build.Faults
import CxxSymbols.Proofs.Rtti.TypeInfo
import CxxSymbols.Proofs.Rtti.VTable
/-! Drafts that come about from inputs in any number and order. What each step keeps, a whole
sequence of inputs keeps, those that fail among them. -/
namespace CxxSymbols.Build
open Image (DynamicSymbol Elf PublicSymbol)
open Rtti (Classification RttiError TypeInfo TypeInfoKind VTable View)
open Store (Origin)

inductive Input where
  | image (elf : Elf)
  | publicSymbols (symbols : List PublicSymbol)

namespace Draft

def left {α : Type} : EStateM.Result BuildError Draft α → Draft
  | .ok _ d => d
  | .error _ d => d

def adding (d : Draft) : Input → Draft
  | .image elf => left (addImage elf d)
  | .publicSymbols symbols => d.addPublicSymbols symbols

def ofInputs (selection : Selection) (inputs : List Input) : Draft :=
  inputs.foldl adding { selection }

/-! ### Addresses of records -/

structure Keyed (d : Draft) : Prop where
  typeInfos : ∀ (a : Address) (info : TypeInfo), d.typeInfos[a]? = some info → info.address = a
  vtables : ∀ (a : Address) (table : VTable), d.vtables[a]? = some table → table.address = a

theorem vtableAddress {v : View} {address : Address} {pending : Std.ExtTreeSet Address}
    {table : VTable} (ok : VTable.read v address pending = .ok table) :
    table.address = address :=
  congrArg VTable.address (View.answersHold (VTable.vtableAnswers v pending address) ok)

theorem typeInfoAddress {v : View} {address : Address} {kind : TypeInfoKind} {info : TypeInfo}
    (ok : TypeInfo.read v address kind = .ok info) : info.address = address :=
  (View.answersHold (Rtti.typeInfoAnswers v address kind) ok).address

variable {d : Draft}

theorem keyedOfMaps {d' : Draft} (keyed : d.Keyed) (infos : d'.typeInfos = d.typeInfos)
    (tables : d'.vtables = d.vtables) : d'.Keyed :=
  ⟨by rw [infos]; exact keyed.typeInfos, by rw [tables]; exact keyed.vtables⟩

theorem notingKeyed (keyed : d.Keyed) (n : Note) : (d.noting n).Keyed := keyedOfMaps keyed rfl rfl

theorem addSymbolMaps (d : Draft) (origin : Origin) (raw : String) (address : Address) :
    (d.addSymbol origin raw address).2.typeInfos = d.typeInfos ∧
      (d.addSymbol origin raw address).2.vtables = d.vtables := by
  simp only [addSymbol]
  cases d.selection.select raw address with
  | ok decoded => exact ⟨rfl, rfl⟩
  | error reason => exact ⟨rfl, rfl⟩

theorem addPublicSymbolsMaps (d : Draft) (symbols : List PublicSymbol) :
    (d.addPublicSymbols symbols).typeInfos = d.typeInfos ∧
      (d.addPublicSymbols symbols).vtables = d.vtables := by
  induction symbols generalizing d with
  | nil => exact ⟨rfl, rfl⟩
  | cons symbol symbols ih =>
    obtain ⟨infos, tables⟩ := d.addSymbolMaps .pdb symbol.name symbol.address
    obtain ⟨infosRest, tablesRest⟩ := ih (d.addPublicSymbol symbol)
    exact ⟨infosRest.trans infos, tablesRest.trans tables⟩

theorem addSymbolKeyed (keyed : d.Keyed) (origin : Origin) (raw : String) (address : Address) :
    (d.addSymbol origin raw address).2.Keyed :=
  have same := d.addSymbolMaps origin raw address
  keyedOfMaps keyed same.1 same.2

theorem addVTableKeyed (keyed : d.Keyed) (v : View) (classes : Classification) (raw : String)
    (address : Address) : (d.addVTable v classes raw address).Keyed := by
  unfold addVTable
  split
  · rename_i table read
    refine ⟨?_, fun a t found => ?_⟩
    · split
      · exact keyed.typeInfos
      · exact keyed.typeInfos
    · have same : (if table.entries.isEmpty then d.noting (.emptyVTable address)
          else d).vtables = d.vtables := by
        split <;> rfl
      simp only [same, Std.ExtTreeMap.getElem?_insert] at found
      split at found
      · rename_i equal
        cases found
        exact (vtableAddress read).trans (Std.compare_eq_iff_eq.mp equal)
      · exact keyed.vtables a t found
  · exact notingKeyed keyed _

theorem addTypeInfoKeyed (keyed : d.Keyed) (v : View) (classes : Classification) (raw : String)
    (address : Address) : (d.addTypeInfo v classes raw address).Keyed := by
  unfold addTypeInfo
  split
  · exact keyed
  · split
    · rename_i info read
      refine ⟨fun a t found => ?_, keyed.vtables⟩
      simp only [Std.ExtTreeMap.getElem?_insertIfNew] at found
      split at found
      · rename_i equal
        cases found
        exact (typeInfoAddress read).trans (Std.compare_eq_iff_eq.mp equal.1)
      · exact keyed.typeInfos a t found
    · exact notingKeyed keyed _

theorem addDynamicSymbolKeyed (v : View) (classes : Classification) (d : Draft)
    (symbol : Image.DynamicSymbol) (keyed : d.Keyed) :
    (addDynamicSymbol v classes d symbol).Keyed := by
  have added := addSymbolKeyed keyed .elf (Text.decodeLossy symbol.name.data.toList)
    symbol.address
  simp only [addDynamicSymbol]
  split
  · rename_i d' shape
    rw [shape] at added
    exact addVTableKeyed added v classes _ _
  · rename_i d' shape
    rw [shape] at added
    exact addTypeInfoKeyed added v classes _ _
  · rename_i d' _ _ shape
    rw [shape] at added
    exact added

theorem foldKeeps {α : Type} {P : Draft → Prop} {step : Draft → α → Draft}
    (each : ∀ d a, P d → P (step d a)) (as : List α) {d : Draft} (kept : P d) :
    P (as.foldl step d) := by
  induction as generalizing d with
  | nil => exact kept
  | cons a as ih => exact ih (each d a kept)

theorem addingKeyed (d : Draft) (input : Input) (keyed : d.Keyed) : (d.adding input).Keyed := by
  cases input with
  | image elf =>
    have ends := addImageEnds (P := Keyed) (fun _ n kept => notingKeyed kept n) elf keyed
    rw [adding]
    cases ran : addImage elf d with
    | error e d' =>
      rw [Ends, ran] at ends
      exact ends.2
    | ok _ d' =>
      rw [Ends, ran] at ends
      obtain ⟨data, symbols, classes, before, last, _, kept, rfl⟩ := ends
      exact notingKeyed (foldKeeps (addDynamicSymbolKeyed data.view classes) _ kept) last
  | publicSymbols symbols =>
    have each (d : Draft) (symbol : PublicSymbol) (kept : d.Keyed) :
        (d.addPublicSymbol symbol).Keyed := addSymbolKeyed kept .pdb symbol.name symbol.address
    exact foldKeeps each symbols keyed

theorem ofInputsKeyed (selection : Selection) (inputs : List Input) :
    (ofInputs selection inputs).Keyed := by
  refine foldKeeps addingKeyed inputs ⟨fun a info found => ?_, fun a table found => ?_⟩
  · cases Std.ExtTreeMap.getElem?_empty.symm.trans found
  · cases Std.ExtTreeMap.getElem?_empty.symm.trans found

end Draft
end CxxSymbols.Build
