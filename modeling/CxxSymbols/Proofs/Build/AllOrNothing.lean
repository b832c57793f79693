import CxxSymbols.Build.Run
import CxxSymbols.Proofs.Build.Inputs
import CxxSymbols.Proofs.Host.Memory
import Mathlib
/-! A build is all or nothing. A run that fails leaves every file as it was, and one that succeeds
changes the file at its path alone. -/
namespace CxxSymbols.Build
open Host (FileError FileSystem Runs Path.parent)
open Image (Elf PublicSymbol)
open Image.ProgramDatabase (publicSymbols?)

variable {σ Place : Type} [DecidableEq Place] [Host (StateM σ)] (fs : FileSystem σ Place)
variable {verbose : Bool} {d : Draft} {s t : σ}

theorem runsTold {α : Type} {notes : List Note} {f : Unit → ExceptT BuildError (StateM σ) α}
    {result : Except BuildError α} (runs : Runs (tell verbose notes >>= f) s result t) :
    ∃ between, fs.content between = fs.content s ∧ Runs (f ()) between result t := by
  cases verbose with
  | false => exact ⟨s, rfl, runs⟩
  | true =>
    induction notes generalizing s with
    | nil => exact ⟨s, rfl, runs⟩
    | cons note notes ih =>
      have split : tell true (note :: notes) >>= f =
          Host.complain note.message >>= fun _ => tell true notes >>= f := by
        simp [tell]
      rw [split] at runs
      obtain ⟨_, told, ran, rest⟩ := Runs.ofHost runs
      obtain ⟨between, kept, rest⟩ := ih rest
      exact ⟨between, kept.trans (fs.complained ran), rest⟩

/-! ### What is built, and why not -/

abbrev ReadAs {α : Type} (before : Place → Option ByteArray) (parse : ByteArray → Option α) :
    Option String → Option α → Prop :=
  Option.Rel fun path a => (before (fs.place path)).bind parse = some a

def inputs (image : Option Elf) (symbols : Option (List PublicSymbol)) : List Input :=
  image.toList.map .image ++ symbols.toList.map .publicSymbols

inductive Drafts (before : Place → Option ByteArray) (r : Request) : Draft → Prop where
  | of {image : Option Elf} {symbols : Option (List PublicSymbol)}
      (readImage : ReadAs fs before Elf.ofBytes? r.image image)
      (readSymbols : ReadAs fs before publicSymbols? r.programDatabase symbols)
      (accepted : ∀ elf ∈ image, ∃ next,
        Draft.addImage elf { selection := r.selection } = .ok () next) :
      Drafts before r (Draft.ofInputs r.selection (inputs image symbols))

/- A step that the host does not do although nothing but this is in its files. -/
def Refuses {α : Type} (files : Place → Option ByteArray) (step : StateM σ (Except FileError α))
    (e : FileError) : Prop :=
  ∃ s t, fs.content s = files ∧ step.run s = (.error e, t)

inductive NotPlaced (before : Place → Option ByteArray) (file path : String) (bytes : ByteArray) :
    FileError → Prop where
  | notFilled {e : FileError}
      (refused : Refuses fs (Function.update before (fs.place file) (some ByteArray.empty))
        (Host.write file bytes) e) : NotPlaced before file path bytes e
  | notMoved {e : FileError}
      (refused : Refuses fs (Function.update before (fs.place file) (some bytes))
        (Host.rename file path) e) : NotPlaced before file path bytes e

inductive Cause (before : Place → Option ByteArray) (r : Request) : BuildError → Prop where
  | noInput (image : r.image = none) (programDatabase : r.programDatabase = none) :
      Cause before r .noInput
  | imageFile {path : String} {e : FileError} (given : r.image = some path)
      (refused : Refuses fs before (Host.read path) e) : Cause before r (.imageFile e)
  | imageMalformed {path : String} {bytes : ByteArray} (given : r.image = some path)
      (there : before (fs.place path) = some bytes) (malformed : Elf.ofBytes? bytes = none) :
      Cause before r (.image .malformed)
  | imageRefused {path : String} {bytes : ByteArray} {elf : Elf} {e : BuildError} {next : Draft}
      (given : r.image = some path) (there : before (fs.place path) = some bytes)
      (parsed : Elf.ofBytes? bytes = some elf)
      (refused : Draft.addImage elf { selection := r.selection } = .error e next) :
      Cause before r e
  | programDatabaseFile {path : String} {e : FileError} (given : r.programDatabase = some path)
      (refused : Refuses fs before (Host.read path) e) : Cause before r (.programDatabaseFile e)
  | programDatabaseMalformed {path : String} {bytes : ByteArray}
      (given : r.programDatabase = some path) (there : before (fs.place path) = some bytes)
      (malformed : publicSymbols? bytes = none) : Cause before r .programDatabase
  | store {d : Draft} {e : Store.StoreError} (drafts : Drafts fs before r d)
      (tooLarge : d.file = .error e) : Cause before r (.store e)
  | notCreated {e : FileError}
      (refused : Refuses fs before (Host.createIn (Path.parent r.path)) e) :
      Cause before r (.storeFile e)
  | notPlaced {file : String} {d : Draft} {bytes : ByteArray} {e : FileError}
      (drafts : Drafts fs before r d) (made : d.file = .ok bytes)
      (new : before (fs.place file) = none) (refused : NotPlaced fs before file r.path bytes e) :
      Cause before r (.storeFile e)

/-! ### Reading the inputs -/

theorem readRuns {α : Type} {notes : List Note} {path : String}
    {f : Except FileError ByteArray → ExceptT BuildError (StateM σ) α}
    {result : Except BuildError α}
    (runs : Runs (tell verbose notes >>= fun _ => Host.read path >>= f) s result t) :
    ∃ looked, fs.content looked = fs.content s ∧
      ((∃ e, Refuses fs (fs.content s) (Host.read path) e ∧ Runs (f (.error e)) looked result t) ∨
        ∃ bytes, fs.content s (fs.place path) = some bytes ∧
          Runs (f (.ok bytes)) looked result t) := by
  obtain ⟨told, kept, rest⟩ := runsTold fs runs
  obtain ⟨answer, looked, ran, rest⟩ := Runs.ofHost rest
  refine ⟨looked, (fs.looked ran).trans kept, ?_⟩
  cases answer with
  | error e => exact .inl ⟨e, ⟨told, looked, kept, ran⟩, rest⟩
  | ok bytes => exact .inr ⟨bytes, kept ▸ fs.readThere ran, rest⟩

theorem imageRuns {r : Request} {result : Except BuildError Draft}
    (runs : Runs (withImage verbose { selection := r.selection } r.image) s result t) :
    fs.content t = fs.content s ∧
      ((∃ e, result = .error e ∧ Cause fs (fs.content s) r e) ∨
        ∃ image,
          result = .ok ((inputs image none).foldl Draft.adding { selection := r.selection }) ∧
          ReadAs fs (fs.content s) Elf.ofBytes? r.image image ∧
          ∀ elf ∈ image, ∃ next,
            Draft.addImage elf { selection := r.selection } = .ok () next) := by
  cases given : r.image with
  | none =>
    rw [given] at runs
    obtain ⟨rfl, rfl⟩ := Runs.ofPure runs
    exact ⟨rfl, .inr ⟨none, rfl, .none, nofun⟩⟩
  | some path =>
    rw [given] at runs
    obtain ⟨looked, kept, ⟨e, refused, rest⟩ | ⟨bytes, there, rest⟩⟩ := readRuns fs runs
    · obtain ⟨rfl, rfl⟩ := Runs.ofThrow rest
      exact ⟨kept, .inl ⟨_, rfl, .imageFile given refused⟩⟩
    cases parsed : Elf.ofBytes? bytes with
    | none =>
      simp only [parsed] at rest
      obtain ⟨rfl, rfl⟩ := Runs.ofThrow rest
      exact ⟨kept, .inl ⟨_, rfl, .imageMalformed given there parsed⟩⟩
    | some elf =>
      simp only [parsed] at rest
      cases added : Draft.addImage elf { selection := r.selection } with
      | error e next =>
        simp only [added] at rest
        obtain ⟨noted, keptNoting, rest⟩ := runsTold fs rest
        obtain ⟨rfl, rfl⟩ := Runs.ofThrow rest
        exact ⟨keptNoting.trans kept, .inl ⟨_, rfl, .imageRefused given there parsed added⟩⟩
      | ok _ next =>
        simp only [added] at rest
        obtain ⟨noted, keptNoting, rest⟩ := runsTold fs rest
        obtain ⟨rfl, rfl⟩ := Runs.ofPure rest
        refine ⟨keptNoting.trans kept, .inr ⟨some elf, ?_, .some ?_, ?_⟩⟩
        · simp [inputs, Draft.adding, added, Draft.left]
        · rw [there, Option.bind_some, parsed]
        · rintro _ ⟨⟩
          exact ⟨next, added⟩

theorem programDatabaseRuns {r : Request} {result : Except BuildError Draft}
    (runs : Runs (withProgramDatabase verbose d r.programDatabase) s result t) :
    fs.content t = fs.content s ∧
      ((∃ e, result = .error e ∧ Cause fs (fs.content s) r e) ∨
        ∃ symbols, result = .ok ((inputs none symbols).foldl Draft.adding d) ∧
          ReadAs fs (fs.content s) publicSymbols? r.programDatabase symbols) := by
  cases given : r.programDatabase with
  | none =>
    rw [given] at runs
    obtain ⟨rfl, rfl⟩ := Runs.ofPure runs
    exact ⟨rfl, .inr ⟨none, rfl, .none⟩⟩
  | some path =>
    rw [given] at runs
    obtain ⟨looked, kept, ⟨e, refused, rest⟩ | ⟨bytes, there, rest⟩⟩ := readRuns fs runs
    · obtain ⟨rfl, rfl⟩ := Runs.ofThrow rest
      exact ⟨kept, .inl ⟨_, rfl, .programDatabaseFile given refused⟩⟩
    cases parsed : publicSymbols? bytes with
    | none =>
      simp only [parsed] at rest
      obtain ⟨rfl, rfl⟩ := Runs.ofThrow rest
      exact ⟨kept, .inl ⟨_, rfl, .programDatabaseMalformed given there parsed⟩⟩
    | some symbols =>
      simp only [parsed] at rest
      obtain ⟨rfl, rfl⟩ := Runs.ofPure rest
      exact ⟨kept, .inr ⟨some symbols, rfl, .some (by rw [there, Option.bind_some, parsed])⟩⟩

/-! ### Putting the store at its path -/

theorem removedNew {before after : Place → Option ByteArray} {p : Place} (new : before p = none)
    (others : ∀ q ≠ p, after q = before q) : Function.update after p none = before := by
  funext q
  by_cases same : q = p
  · rw [same, Function.update_self, new]
  · rw [Function.update_of_ne same, others q same]

theorem placeRuns {file path : String} {bytes : ByteArray} {before : Place → Option ByteArray}
    {result : Except BuildError (Except FileError Unit)} (new : before (fs.place file) = none)
    (empty : fs.content s = Function.update before (fs.place file) (some ByteArray.empty))
    (runs : Runs (place file path bytes) s result t) :
    (∃ e, result = .ok (.error e) ∧ NotPlaced fs before file path bytes e ∧
      ∀ q ≠ fs.place file, fs.content t q = before q) ∨
      result = .ok (.ok ()) ∧
        fs.content t = Function.update before (fs.place path) (some bytes) := by
  obtain ⟨answer, filled, wrote, rest⟩ := Runs.ofHost runs
  cases answer with
  | error e =>
    obtain ⟨rfl, rfl⟩ := Runs.ofPure rest
    refine .inl ⟨e, rfl, .notFilled ⟨_, _, empty, wrote⟩, fun q other => ?_⟩
    rw [fs.notWritten wrote q other, empty, Function.update_of_ne other]
  | ok _ =>
    have full := fs.written wrote
    rw [empty, Function.update_idem] at full
    obtain ⟨answer, ended, moved, rest⟩ := Runs.ofHost (f := pure) rest
    obtain ⟨rfl, rfl⟩ := Runs.ofPure rest
    cases answer with
    | error e =>
      refine .inl ⟨e, rfl, .notMoved ⟨_, _, full, moved⟩, fun q other => ?_⟩
      rw [fs.notRenamed moved, full, Function.update_of_ne other]
    | ok _ =>
      refine .inr ⟨rfl, ?_⟩
      rw [fs.renamed moved, full, Function.update_self, Function.update_idem,
        removedNew new fun _ _ => rfl]

theorem persistRuns {r : Request} {result : Except BuildError Unit}
    (drafts : Drafts fs (fs.content s) r d) (runs : Runs (persist verbose d r.path) s result t) :
    (∃ e, result = .error e ∧ Cause fs (fs.content s) r e ∧ fs.content t = fs.content s) ∨
      result = .ok () ∧ ∃ bytes, d.file = .ok bytes ∧
        fs.content t = Function.update (fs.content s) (fs.place r.path) (some bytes) := by
  obtain ⟨answer, created, ran, rest⟩ := Runs.ofHost runs
  cases answer with
  | error e =>
    obtain ⟨rfl, rfl⟩ := Runs.ofThrow rest
    exact .inl ⟨_, rfl, .notCreated ⟨_, _, rfl, ran⟩, fs.notCreated ran⟩
  | ok file =>
    obtain ⟨new, empty⟩ := fs.created ran
    obtain ⟨sorted, keptSorting, rest⟩ := runsTold fs rest
    rw [← keptSorting] at empty
    cases made : d.file with
    | error e =>
      simp only [made] at rest
      obtain ⟨_, dropped, removed, rest⟩ := Runs.ofHost rest
      obtain ⟨rfl, rfl⟩ := Runs.ofThrow rest
      refine .inl ⟨_, rfl, .store drafts made, ?_⟩
      rw [fs.removed removed, empty, Function.update_idem, removedNew new fun _ _ => rfl]
    | ok bytes =>
      simp only [made] at rest
      obtain ⟨indexed, keptIndexing, rest⟩ := runsTold fs rest
      rw [← keptIndexing] at empty
      obtain ⟨e, rfl, placed⟩ | ⟨answer, placed, ran, rest⟩ := Runs.ofBind rest
      · obtain ⟨_, ⟨⟩, -⟩ | ⟨⟨⟩, -⟩ := placeRuns fs new empty placed
      obtain ⟨e, ⟨⟩, refused, spoiled⟩ | ⟨⟨⟩, there⟩ := placeRuns fs new empty ran
      · obtain ⟨_, dropped, removed, rest⟩ := Runs.ofHost rest
        obtain ⟨rfl, rfl⟩ := Runs.ofThrow rest
        refine .inl ⟨_, rfl, .notPlaced drafts made new refused, ?_⟩
        rw [fs.removed removed, removedNew new spoiled]
      · obtain ⟨rfl, rfl⟩ := Runs.ofPure rest
        exact .inr ⟨rfl, bytes, rfl, there⟩

/-! ### A whole build -/

/- A build either fails, for one of the causes that there are, and leaves what is at every place as
it was, or it succeeds, and then all that it changes is what is at its path: there is the store of
the image and, behind it, the public symbols that are read at the paths of the request. -/
theorem buildAllOrNothing (verbose : Bool) (r : Request) (s : σ) :
    (∃ e t, Runs (run verbose r) s (.error e) t ∧ Cause fs (fs.content s) r e ∧
      fs.content t = fs.content s) ∨
      ∃ d bytes t, Drafts fs (fs.content s) r d ∧ d.file = .ok bytes ∧
        Runs (run verbose r) s (.ok d.report) t ∧
        fs.content t = Function.update (fs.content s) (fs.place r.path) (some bytes) := by
  obtain ⟨result, t, whole⟩ := Host.runsSome (run verbose r) s
  have runs := whole
  unfold run at runs
  by_cases noInput : (r.image.isNone && r.programDatabase.isNone) = true
  · rw [if_pos noInput] at runs
    rw [Bool.and_eq_true, Option.isNone_iff_eq_none, Option.isNone_iff_eq_none] at noInput
    obtain ⟨e, rfl, stopped⟩ | ⟨_, between, stopped, -⟩ := Runs.ofBind runs
    · obtain ⟨⟨⟩, rfl⟩ := Runs.ofThrow stopped
      exact .inl ⟨_, _, whole, .noInput noInput.1 noInput.2, rfl⟩
    · obtain ⟨⟨⟩, -⟩ := Runs.ofThrow stopped
  rw [if_neg noInput] at runs
  obtain ⟨e, rfl, first⟩ | ⟨_, between, first, rest⟩ := Runs.ofBind runs
  · obtain ⟨kept, ⟨_, ⟨⟩, cause⟩ | ⟨_, ⟨⟩, -⟩⟩ := imageRuns fs first
    exact .inl ⟨e, t, whole, cause, kept⟩
  obtain ⟨keptImage, ⟨_, ⟨⟩, -⟩ | ⟨image, ⟨⟩, readImage, accepted⟩⟩ := imageRuns fs first
  rw [← keptImage] at readImage ⊢
  obtain ⟨e, rfl, second⟩ | ⟨_, between', second, rest⟩ := Runs.ofBind rest
  · obtain ⟨kept, ⟨_, ⟨⟩, cause⟩ | ⟨_, ⟨⟩, -⟩⟩ := programDatabaseRuns fs second
    exact .inl ⟨e, t, whole, cause, kept⟩
  obtain ⟨keptSymbols, ⟨_, ⟨⟩, -⟩ | ⟨symbols, ⟨⟩, readSymbols⟩⟩ := programDatabaseRuns fs second
  rw [← keptSymbols] at readImage readSymbols ⊢
  have drafts := Drafts.of readImage readSymbols accepted
  have added : (inputs none symbols).foldl Draft.adding
      ((inputs image none).foldl Draft.adding { selection := r.selection }) =
        Draft.ofInputs r.selection (inputs image symbols) := by
    rw [Draft.ofInputs, ← List.foldl_append]
    simp [inputs]
  rw [added] at rest
  obtain ⟨e, rfl, third⟩ | ⟨_, placed, third, rest⟩ := Runs.ofBind rest
  · obtain ⟨_, ⟨⟩, cause, kept⟩ | ⟨⟨⟩, -⟩ := persistRuns fs drafts third
    exact .inl ⟨e, t, whole, cause, kept⟩
  obtain ⟨_, ⟨⟩, -⟩ | ⟨-, bytes, made, there⟩ := persistRuns fs drafts third
  obtain ⟨rfl, rfl⟩ := Runs.ofPure rest
  exact .inr ⟨_, bytes, _, drafts, made, whole, there⟩

theorem missingImageLeavesStore :
    let s : Host.Memory := { files := [(["app.symdb"], "previous".toUTF8)] }
    ∃ e t, Runs (run false { image := some "app", path := "app.symdb" }) s (.error e) t ∧
      t.file? = s.file? ∧ t.file? ["app.symdb"] = some "previous".toUTF8 := by
  intro s
  obtain ⟨e, t, runs, -, kept⟩ | ⟨_, _, t, ⟨readImage, _, _⟩, -⟩ :=
    buildAllOrNothing Host.Memory.fileSystem false { image := some "app", path := "app.symdb" } s
  · exact ⟨e, t, runs, kept, congrFun kept _⟩
  · have parts : Host.Path.parts "app" = ["app"] := by cbv
    have absent : s.file? (Host.Path.parts "app") = none := by
      rw [parts]
      decide
    cases readImage with
    | some there =>
      rw [show Host.Memory.fileSystem.content s (Host.Memory.fileSystem.place "app") = none from
        absent] at there
      cases there

end CxxSymbols.Build
