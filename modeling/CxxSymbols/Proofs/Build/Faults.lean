import CxxSymbols.Build.Draft
/-! Images that cannot be used. Whether an image is refused, and why, is a matter of the image and of
the section that is asked for, and all that a refused image leaves in a draft are notes. -/
namespace CxxSymbols.Build
open Image (DynamicSymbol Elf ImageError Relocation)
open Rtti (Classification RttiError RuntimeSymbols)

/- Why an image is refused: the first fault in the order in which its parts are read. -/
inductive Faulty (s : Selection) (elf : Elf) : BuildError → Prop where
  | bigEndian (order : elf.layout.order ≠ .little) : Faulty s elf .bigEndian
  | unreadableSection {cause : ImageError} (little : elf.layout.order = .little)
      (fault : elf.loadSection s.dataSection.toUTF8 = .error cause) : Faulty s elf (.image cause)
  | missingSection (little : elf.layout.order = .little)
      (fault : elf.loadSection s.dataSection.toUTF8 = .ok none) :
      Faulty s elf (.missingSection s.dataSection)
  | unreadableSymbols {data : Image.Section} {cause : ImageError}
      (little : elf.layout.order = .little)
      (loaded : elf.loadSection s.dataSection.toUTF8 = .ok (some data))
      (fault : elf.dynamicSymbols = .error cause) : Faulty s elf (.image cause)
  | missingRuntimeSymbol {data : Image.Section} {symbols : List DynamicSymbol} {name : String}
      (little : elf.layout.order = .little)
      (loaded : elf.loadSection s.dataSection.toUTF8 = .ok (some data))
      (listed : elf.dynamicSymbols = .ok symbols)
      (fault : RuntimeSymbols.find symbols = .error (.missingRuntimeSymbol name)) :
      Faulty s elf (.missingRuntimeSymbol name)
  | badSymbolIndex {data : Image.Section} {symbols : List DynamicSymbol} {place : Address}
      {symbol : Nat} (little : elf.layout.order = .little)
      (loaded : elf.loadSection s.dataSection.toUTF8 = .ok (some data))
      (listed : elf.dynamicSymbols = .ok symbols)
      (fault : Classification.ofRelocations symbols elf.dynamicRelocations =
        .error (.badSymbolIndex place symbol)) :
      Faulty s elf (.rtti (.badSymbolIndex place symbol))

/-! ### What the records of an image can fail by -/

theorem importRefused {symbols : List DynamicSymbol} {name : String} {cause : RttiError}
    (fault : RuntimeSymbols.importOf symbols name = .error cause) :
    cause = .missingRuntimeSymbol name := by
  unfold RuntimeSymbols.importOf at fault
  split at fault <;> cases fault
  rfl

theorem runtimeRefused {symbols : List DynamicSymbol} {cause : RttiError}
    (fault : RuntimeSymbols.find symbols = .error cause) :
    ∃ name, cause = .missingRuntimeSymbol name := by
  unfold RuntimeSymbols.find at fault
  have step {name : String} {f : Nat → Except RttiError RuntimeSymbols}
      (fault : (RuntimeSymbols.importOf symbols name >>= f) = .error cause) :
      (∃ name, cause = .missingRuntimeSymbol name) ∨ ∃ index, f index = .error cause := by
    cases found : RuntimeSymbols.importOf symbols name with
    | error e =>
      rw [found] at fault
      cases fault
      exact .inl ⟨name, importRefused found⟩
    | ok index =>
      rw [found] at fault
      exact .inr ⟨index, fault⟩
  refine (step fault).elim id fun ⟨_, fault⟩ => ?_
  refine (step fault).elim id fun ⟨_, fault⟩ => ?_
  refine (step fault).elim id fun ⟨_, fault⟩ => ?_
  refine (step fault).elim id fun ⟨_, fault⟩ => ?_
  cases fault

theorem classifiedRefused {symbols : List DynamicSymbol} {cause : RttiError}
    (fault : RuntimeSymbols.find symbols = .error cause) (relocs : List Relocation) :
    Classification.ofRelocations symbols relocs = .error cause := by
  rw [Classification.ofRelocations, fault]
  rfl

grind_pattern classifiedRefused => Classification.ofRelocations symbols relocs,
  (Except.error cause : Except RttiError RuntimeSymbols)

theorem noteRefused {r : RuntimeSymbols} {count : Nat} {c : Classification} {reloc : Relocation}
    {cause : RttiError} (fault : Classification.note r count c reloc = .error cause) :
    ∃ place symbol, cause = .badSymbolIndex place symbol := by
  unfold Classification.note at fault
  split at fault
  · cases fault
  · rename_i symbol _
    split at fault
    · repeat' split at fault
      all_goals cases fault
    · cases fault
      exact ⟨reloc.offset, symbol, rfl⟩

theorem relocationsRefused {symbols : List DynamicSymbol} {relocs : List Relocation}
    {runtime : RuntimeSymbols} {cause : RttiError} (found : RuntimeSymbols.find symbols = .ok runtime)
    (fault : Classification.ofRelocations symbols relocs = .error cause) :
    ∃ place symbol, cause = .badSymbolIndex place symbol := by
  unfold Classification.ofRelocations at fault
  rw [found] at fault
  replace fault : relocs.foldlM (Classification.note runtime symbols.length) {} = .error cause :=
    fault
  generalize ({} : Classification) = c at fault
  induction relocs generalizing c with
  | nil => cases fault
  | cons reloc relocs ih =>
    rw [List.foldlM_cons] at fault
    cases noted : Classification.note runtime symbols.length c reloc with
    | error e =>
      rw [noted] at fault
      cases fault
      exact noteRefused noted
    | ok next =>
      rw [noted] at fault
      exact ih next fault

structure Draft.Scanned (s : Selection) (elf : Elf) (data : Image.Section)
    (symbols : List DynamicSymbol) (classes : Classification) : Prop where
  little : elf.layout.order = .little
  loaded : elf.loadSection s.dataSection.toUTF8 = .ok (some data)
  listed : elf.dynamicSymbols = .ok symbols
  classified : Classification.ofRelocations symbols elf.dynamicRelocations = .ok classes

namespace Draft

/-! ### Steps that may fail -/

section Ends
variable {α β : Type} {d : Draft} {failed : BuildError → Draft → Prop}

def Ends (d : Draft) (x : Drafting α) (failed : BuildError → Draft → Prop)
    (done : α → Draft → Prop) : Prop :=
  match x d with
  | .ok a d' => done a d'
  | .error e d' => failed e d'

theorem endsBind {x : Drafting α} {f : α → Drafting β} {between : α → Draft → Prop}
    {done : β → Draft → Prop} (first : Ends d x failed between)
    (rest : ∀ a d', between a d' → Ends d' (f a) failed done) : Ends d (x >>= f) failed done := by
  simp only [Ends, bind, EStateM.bind] at first ⊢
  cases ran : x d with
  | ok a d' =>
    rw [ran] at first
    exact rest a d' first
  | error e d' =>
    rw [ran] at first
    exact first

theorem endsTried {ε : Type} {P : Draft → Prop} {fault : BuildError → Prop} {x : Except ε α}
    {f : ε → BuildError} (kept : P d) (faulty : ∀ cause, x = .error cause → fault (f cause)) :
    Ends d (orFail (x.mapError f)) (fun e d' => fault e ∧ P d') fun a d' => P d' ∧ x = .ok a := by
  cases x with
  | ok a => exact ⟨kept, rfl⟩
  | error cause => exact ⟨faulty cause rfl, kept⟩

theorem addImageEnds {P : Draft → Prop} (noted : ∀ d n, P d → P (d.noting n)) (elf : Elf)
    (kept : P d) :
    Ends d (addImage elf) (fun e d' => Faulty d.selection elf e ∧ P d') fun _ d' =>
      ∃ data symbols classes before last, Scanned d.selection elf data symbols classes ∧ P before ∧
        d' = ((symbols.filter fun s => !s.name.isEmpty).foldl (addDynamicSymbol data.view classes)
          before).noting last := by
  have looks {failed : BuildError → Draft → Prop} : Ends d get failed fun a d' => a = d ∧ d' = d :=
    ⟨rfl, rfl⟩
  have notes {d : Draft} {failed : BuildError → Draft → Prop} (kept : P d) (n : Note) :
      Ends d (note n) failed fun _ => P := noted d n kept
  unfold addImage
  split
  · rename_i order
    exact ⟨.bigEndian order, kept⟩
  rename_i order
  have little : elf.layout.order = .little := Decidable.not_not.mp order
  refine endsBind looks ?_
  rintro _ _ ⟨rfl, rfl⟩
  refine endsBind (endsTried kept fun _ fault => .unreadableSection little fault) ?_
  rintro found d' ⟨kept, loaded⟩
  cases found with
  | none => exact ⟨.missingSection little loaded, kept⟩
  | some data =>
    refine endsBind (notes kept _) fun _ d kept => ?_
    refine endsBind (endsTried kept fun _ fault => .unreadableSymbols little loaded fault) ?_
    rintro symbols d ⟨kept, listed⟩
    refine endsBind (notes kept _) fun _ d kept => endsBind (endsTried kept fun cause fault => ?_) ?_
    · obtain ⟨name, rfl⟩ := runtimeRefused fault
      exact .missingRuntimeSymbol little loaded listed fault
    rintro runtime d ⟨kept, found⟩
    refine endsBind (notes kept _) fun _ d kept => endsBind (endsTried kept fun cause fault => ?_) ?_
    · obtain ⟨place, symbol, rfl⟩ := relocationsRefused found fault
      exact .badSymbolIndex little loaded listed fault
    rintro classes d ⟨kept, classified⟩
    refine endsBind (notes kept _) fun _ d kept => ?_
    exact ⟨data, symbols, classes, d, _, ⟨little, loaded, listed, classified⟩, kept, rfl⟩

end Ends
end Draft
end CxxSymbols.Build
