import CxxSymbols.Proofs.Build.Inputs
/-! Refused images among the inputs of a draft. What a draft holds apart from its notes makes all of
its store and its report, no step looks at the notes, and a refused image leaves nothing else. So
inputs come to the same store and the same report with refused images among them as without. -/
namespace CxxSymbols.Build
open Image (DynamicSymbol Elf PublicSymbol)
open Rtti (Classification View)
open Store (Origin)

namespace Draft

/-! ### Drafts but for their notes -/

def SameContents (d d' : Draft) : Prop := ∃ notes, d' = { d with notes }

section Contents
variable {d d' : Draft}

theorem sameContents (d : Draft) : SameContents d d := ⟨d.notes, rfl⟩

theorem sameSymm (same : SameContents d d') : SameContents d' d := by
  obtain ⟨notes, rfl⟩ := same
  exact ⟨d.notes, rfl⟩

theorem sameTrans {d'' : Draft} (first : SameContents d d') (second : SameContents d' d'') :
    SameContents d d'' := by
  obtain ⟨_, rfl⟩ := first
  obtain ⟨notes, rfl⟩ := second
  exact ⟨notes, rfl⟩

theorem notingSame (d : Draft) (n : Note) : SameContents d (d.noting n) := ⟨_, rfl⟩

theorem addSymbolSame (same : SameContents d d') (origin : Origin) (raw : String)
    (address : Address) : ∃ found next next', SameContents next next' ∧
      d.addSymbol origin raw address = (found, next) ∧
        d'.addSymbol origin raw address = (found, next') := by
  obtain ⟨notes, rfl⟩ := same
  simp only [addSymbol]
  cases d.selection.select raw address with
  | ok decoded => exact ⟨_, _, _, ⟨notes, rfl⟩, rfl, rfl⟩
  | error reason => exact ⟨_, _, _, ⟨notes, rfl⟩, rfl, rfl⟩

theorem addVTableSame (same : SameContents d d') (v : View) (classes : Classification)
    (raw : String) (address : Address) :
    SameContents (d.addVTable v classes raw address) (d'.addVTable v classes raw address) := by
  obtain ⟨notes, rfl⟩ := same
  unfold addVTable
  split
  · dsimp only
    split
    · exact ⟨_, rfl⟩
    · exact ⟨notes, rfl⟩
  · exact ⟨_, rfl⟩

theorem addTypeInfoSame (same : SameContents d d') (v : View) (classes : Classification)
    (raw : String) (address : Address) :
    SameContents (d.addTypeInfo v classes raw address) (d'.addTypeInfo v classes raw address) := by
  obtain ⟨notes, rfl⟩ := same
  unfold addTypeInfo
  split
  · exact ⟨notes, rfl⟩
  · split
    · exact ⟨notes, rfl⟩
    · exact ⟨_, rfl⟩

theorem addDynamicSymbolSame (v : View) (classes : Classification) (same : SameContents d d')
    (symbol : DynamicSymbol) :
    SameContents (addDynamicSymbol v classes d symbol) (addDynamicSymbol v classes d' symbol) := by
  obtain ⟨found, next, next', added, one, other⟩ := addSymbolSame same .elf
    (Text.decodeLossy symbol.name.data.toList) symbol.address
  simp only [addDynamicSymbol, one, other]
  cases found with
  | none => exact added
  | some root =>
    cases root with
    | special kind type =>
      cases kind with
      | vtable => exact addVTableSame added v classes _ _
      | typeInfo => exact addTypeInfoSame added v classes _ _
      | typeInfoName => exact added
      | completeObjectLocator => exact added
    | unknown => exact added
    | data name type => exact added
    | function name signature => exact added
    | nested entity => exact added

theorem foldSame {α : Type} {step : Draft → α → Draft}
    (each : ∀ d d', SameContents d d' → ∀ a, SameContents (step d a) (step d' a)) (as : List α)
    (same : SameContents d d') : SameContents (as.foldl step d) (as.foldl step d') := by
  induction as generalizing d d' with
  | nil => exact same
  | cons a as ih => exact ih (each d d' same a)

/-! ### Inputs -/

theorem faultOrScan {s : Selection} {elf : Elf} {e : BuildError} {data : Image.Section}
    {symbols : List DynamicSymbol} {classes : Classification}
    (scanned : Scanned s elf data symbols classes) (faulty : Faulty s elf e) : False := by
  obtain ⟨little, loaded, listed, classified⟩ := scanned
  cases faulty with
  | bigEndian order => exact order little
  | unreadableSection _ fault => cases loaded.symm.trans fault
  | missingSection _ fault => cases loaded.symm.trans fault
  | unreadableSymbols _ _ fault => cases listed.symm.trans fault
  | missingRuntimeSymbol _ _ listed' fault =>
    cases listed.symm.trans listed'
    cases classified.symm.trans (classifiedRefused fault _)
  | badSymbolIndex _ _ listed' fault =>
    cases listed.symm.trans listed'
    cases classified.symm.trans fault

theorem faultOnce {s : Selection} {elf : Elf} {e e' : BuildError} (first : Faulty s elf e)
    (second : Faulty s elf e') : e' = e := by
  cases first <;> cases second <;> grind

theorem scannedOnce {s : Selection} {elf : Elf} {data data' : Image.Section}
    {symbols symbols' : List DynamicSymbol} {classes classes' : Classification}
    (first : Scanned s elf data symbols classes) (second : Scanned s elf data' symbols' classes') :
    data' = data ∧ symbols' = symbols ∧ classes' = classes := by
  cases first.loaded.symm.trans second.loaded
  cases first.listed.symm.trans second.listed
  cases first.classified.symm.trans second.classified
  exact ⟨rfl, rfl, rfl⟩

/- What becomes of an image: it is refused for a fault and leaves nothing but notes, or its symbols
with names are added to what the draft holds. -/
inductive Outcome (d : Draft) (elf : Elf) : Draft → Prop where
  | refused {e : BuildError} {d' : Draft} (ran : addImage elf d = .error e d')
      (faulty : Faulty d.selection elf e) (same : SameContents d d') : Outcome d elf d'
  | added {d' before : Draft} {data : Image.Section} {symbols : List DynamicSymbol}
      {classes : Classification} (ran : addImage elf d = .ok () d')
      (scanned : Scanned d.selection elf data symbols classes) (same : SameContents d before)
      (all : SameContents ((symbols.filter fun s => !s.name.isEmpty).foldl
        (addDynamicSymbol data.view classes) before) d') : Outcome d elf d'

theorem outcome (d : Draft) (elf : Elf) : Outcome d elf (d.adding (.image elf)) := by
  have ends := addImageEnds (P := SameContents d)
    (fun _ n same => sameTrans same (notingSame _ n)) elf (sameContents d)
  rw [Ends] at ends
  rw [adding]
  cases ran : addImage elf d with
  | error e d' =>
    rw [ran] at ends
    exact .refused ran ends.1 ends.2
  | ok _ d' =>
    rw [ran] at ends
    obtain ⟨data, symbols, classes, before, last, scanned, same, rfl⟩ := ends
    exact .added ran scanned same (notingSame _ last)

theorem refusedLeaves {elf : Elf} {e : BuildError} (ran : addImage elf d = .error e d') :
    Faulty d.selection elf e ∧ SameContents d d' := by
  have step : d.adding (.image elf) = d' := by rw [adding, ran, left]
  cases d.outcome elf with
  | refused ran' faulty same =>
    cases ran'.symm.trans ran
    exact ⟨faulty, step ▸ same⟩
  | added done => cases done.symm.trans ran

theorem addingSame (same : SameContents d d') (input : Input) :
    SameContents (d.adding input) (d'.adding input) := by
  cases input with
  | publicSymbols symbols =>
    refine foldSame (fun d d' same symbol => ?_) symbols same
    obtain ⟨_, next, next', added, one, other⟩ := addSymbolSame same .pdb symbol.name symbol.address
    rw [addPublicSymbol, addPublicSymbol, one, other]
    exact added
  | image elf =>
    have selection : d'.selection = d.selection := by
      obtain ⟨_, rfl⟩ := same
      rfl
    cases d.outcome elf with
    | refused _ faulty left =>
      cases d'.outcome elf with
      | refused _ _ left' => exact sameTrans (sameSymm left) (sameTrans same left')
      | added _ scanned _ _ => exact (faultOrScan (selection ▸ scanned) faulty).elim
    | added _ scanned before all =>
      cases d'.outcome elf with
      | refused _ faulty _ => exact (faultOrScan scanned (selection ▸ faulty)).elim
      | added _ scanned' before' all' =>
        obtain ⟨rfl, rfl, rfl⟩ := scannedOnce scanned (selection ▸ scanned')
        have start := sameTrans (sameSymm before) (sameTrans same before')
        exact sameTrans (sameSymm all) (sameTrans
          (foldSame (fun _ _ same => addDynamicSymbolSame _ _ same) _ start) all')

/- Inputs with refused images among them, and the same inputs without these. Of the images that are
refused some may stay. -/
inductive Interspersed : Draft → List Input → List Input → Prop where
  | done (d : Draft) : Interspersed d [] []
  | input {d : Draft} {inputs without : List Input} (input : Input)
      (rest : Interspersed (d.adding input) inputs without) :
      Interspersed d (input :: inputs) (input :: without)
  | refused {d d' : Draft} {elf : Elf} {e : BuildError} {inputs without : List Input}
      (ran : addImage elf d = .error e d') (rest : Interspersed d' inputs without) :
      Interspersed d (.image elf :: inputs) without

theorem interspersedSame {inputs without : List Input} (among : Interspersed d inputs without)
    {d' : Draft} (same : SameContents d' d) :
    SameContents (without.foldl adding d') (inputs.foldl adding d) := by
  induction among generalizing d' with
  | done d => exact same
  | input input rest ih => exact ih (addingSame same input)
  | refused ran _ ih =>
    rw [List.foldl_cons, adding, ran, left]
    exact ih (sameTrans same (refusedLeaves ran).2)

end Contents

/- An image that cannot be used leaves no trace. Whatever a draft holds, an image is refused for just
the fault that it has, and all that the draft holds is as before; so inputs with refused images among
them come to the same store, report and list of omissions as without. -/
theorem refusalsInvisible (d : Draft) :
    (∀ elf e, (∃ d', addImage elf d = .error e d') ↔ Faulty d.selection elf e) ∧
      (∀ elf e d', addImage elf d = .error e d' → SameContents d d') ∧
      ∀ inputs without, Interspersed d inputs without →
        let all := inputs.foldl adding d
        let kept := without.foldl adding d
        SameContents kept all ∧ all.file = kept.file ∧ all.report = kept.report ∧
          all.report.audit = kept.report.audit := by
  refine ⟨fun elf e => ⟨?_, fun faulty => ?_⟩, fun elf e d' ran => (refusedLeaves ran).2,
    fun inputs without among => ?_⟩
  · rintro ⟨d', ran⟩
    exact (refusedLeaves ran).1
  · cases d.outcome elf with
    | refused ran faulty' _ => exact ⟨_, faultOnce faulty' faulty ▸ ran⟩
    | added _ scanned => exact (faultOrScan scanned faulty).elim
  · obtain ⟨notes, same⟩ := interspersedSame among (sameContents d)
    dsimp only
    rw [same]
    exact ⟨⟨notes, rfl⟩, rfl, rfl, rfl⟩

def reversedImage : Elf := ⟨ByteArray.empty, ⟨.bits64, .big⟩, 0, [], none, {}⟩

def hollowImage : Elf := ⟨ByteArray.empty, ⟨.bits64, .little⟩, 0, [], none, {}⟩

def twoSymbols : Input := .publicSymbols [⟨"___Z1fv", 0x1000⟩, ⟨"plain", 0x1800⟩]

theorem strayImagesInvisible :
    Interspersed {} [.image reversedImage, twoSymbols, .image hollowImage] [twoSymbols] ∧
      Faulty {} hollowImage (.missingSection ".data.rel.ro") ∧
      (ofInputs {} [.image reversedImage, twoSymbols, .image hollowImage]).file =
        (ofInputs {} [twoSymbols]).file ∧
      (ofInputs {} [.image reversedImage, twoSymbols, .image hollowImage]).report.processed = 2 := by
  have faulty (s : Selection) : Faulty s hollowImage (.missingSection s.dataSection) :=
    .missingSection rfl rfl
  obtain ⟨left, refused⟩ := ((refusalsInvisible (adding {} twoSymbols)).1 hollowImage _).mpr
    (faulty _)
  have among : Interspersed {} [.image reversedImage, twoSymbols, .image hollowImage]
      [twoSymbols] := .refused rfl (.input twoSymbols (.refused refused (.done left)))
  obtain ⟨_, file, report, _⟩ := (refusalsInvisible {}).2.2 _ _ among
  exact ⟨among, faulty {}, file, (congrArg Report.processed report).trans rfl⟩

end Draft
end CxxSymbols.Build
