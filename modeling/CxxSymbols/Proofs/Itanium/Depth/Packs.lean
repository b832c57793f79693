import CxxSymbols.Proofs.Itanium.Depth.Bound
import CxxSymbols.Proofs.Text.Scanner
/-! Packs within packs. A pack reads what it holds at its own level, so any number of them may be
nested. Where they are arguments of an attribute of a function they leave no trace in the tree, so
nothing that is asked of the tree keeps them out either. -/
namespace CxxSymbols.Itanium.Grammar
open Scanner Stateful

/-! ### Repetition -/

section Many
variable {α : Type} {stop : Rule Bool} {item : Rule α} {c c' d e : Cursor Memory} {a : α}

theorem manyUntilNone (ends : stop c = .ok true d) : manyUntil stop item c = .ok [] d :=
  (bindOk rfl).trans (bindOk ends)

theorem manyUntilOne (goesOn : stop c = .ok false c') (one : item c' = .ok a d)
    (ends : stop d = .ok true e) (something : c.rest ≠ []) :
    manyUntil stop item c = .ok [a] e := by
  obtain ⟨b, bytes, shape⟩ := List.exists_cons_of_ne_nil something
  have rounds : manyUntil stop item c = manyUntilIn stop item (bytes.length + 1 + 1) c := by
    refine (bindOk rfl).trans ?_
    rw [shape]
    rfl
  rw [rounds]
  refine (bindOk goesOn).trans ((bindOk one).trans ?_)
  exact bindOk (bindOk ends)

theorem manyUntilRefused {refusal : Refusal} (goesOn : stop c = .ok false c')
    (refused : item c' = .error refusal d) : manyUntil stop item c = .error refusal d :=
  (bindOk rfl).trans ((bindOk goesOn).trans (bindError refused))

end Many

/-! ### Packs -/

def packed (n : Nat) (behind : List UInt8) : List UInt8 :=
  List.replicate n 74 ++ (List.replicate n 69 ++ behind)

def packTree : Nat → Node
  | 0 => .pack []
  | n + 1 => .pack [packTree n]

theorem packedNext (n : Nat) (behind : List UInt8) :
    packed (n + 1) behind = 74 :: packed n (69 :: behind) := by
  rw [packed, packed, List.replicate_succ, List.replicate_succ', List.cons_append,
    List.append_assoc, List.singleton_append]

theorem endOfList (behind : List UInt8) (m : Memory) :
    (accept "E" : Rule Bool) ⟨69 :: behind, m⟩ = .ok true ⟨behind, m⟩ := rfl

theorem packsGoOn (n : Nat) (behind : List UInt8) (m : Memory) :
    (accept "E" : Rule Bool) ⟨packed (n + 1) behind, m⟩ = .ok false ⟨packed (n + 1) behind, m⟩ := by
  rw [packedNext]
  rfl

theorem packsNotEmpty (n : Nat) (behind : List UInt8) : packed (n + 1) behind ≠ [] := by
  rw [packedNext]
  exact List.cons_ne_nil _ _

section Pack
variable {below : Below} {bytes : List UInt8} {m : Memory} {d : Cursor Memory}

theorem packRead {items : List Node}
    (read : manyTo "E" (below .templateArg) ⟨bytes, m⟩ = .ok items d) :
    templateArgRule below ⟨74 :: bytes, m⟩ = .ok (.pack items) d :=
  (bindOk rfl).trans ((bindOk rfl).trans (bindOk read))

theorem packRefused {refusal : Refusal}
    (refused : manyTo "E" (below .templateArg) ⟨bytes, m⟩ = .error refusal d) :
    templateArgRule below ⟨74 :: bytes, m⟩ = .error refusal d :=
  (bindOk rfl).trans ((bindOk rfl).trans (bindError refused))

end Pack

theorem packsRead (levels n : Nat) (behind : List UInt8) (m : Memory) :
    run (levels + n + 1) .templateArg ⟨packed (n + 1) behind, m⟩ =
      .ok (packTree n) ⟨behind, m⟩ := by
  induction n generalizing behind with
  | zero => exact packRead (manyUntilNone (endOfList behind m))
  | succ n ih =>
    rw [packedNext]
    exact packRead (manyUntilOne (packsGoOn n _ m) (ih (69 :: behind)) (endOfList behind m)
      (packsNotEmpty n _))

def EachBounded (active : List Production) : Prop :=
  ∀ p ∈ [.encoding, .name, .type, .templateArg, .expression, .braced], active.count p ≤ maxNesting

instance : DecidablePred EachBounded := fun _ => inferInstanceAs (Decidable (∀ p ∈ _, _))

abbrev eachBounded : Nat → List Production → Below :=
  watched EachBounded fun _ _ => throw .mismatch

theorem packsRefused {active : List Production} {n : Nat}
    (many : maxNesting ≤ active.count .templateArg + n) (levels : Nat) (behind : List UInt8)
    (m : Memory) :
    ∃ e t, eachBounded levels active .templateArg ⟨packed (n + 1) behind, m⟩ = .error e t := by
  induction n generalizing active levels behind with
  | zero =>
    cases levels with
    | zero => exact ⟨_, _, rfl⟩
    | succ levels =>
      rw [eachBounded, watched, if_neg]
      · exact ⟨_, _, rfl⟩
      · intro allowed
        have few := allowed .templateArg (by decide)
        rw [List.count_cons_self] at few
        omega
  | succ n ih =>
    cases levels with
    | zero => exact ⟨_, _, rfl⟩
    | succ levels =>
      have more : maxNesting ≤ (.templateArg :: active).count .templateArg + n := by
        rw [List.count_cons_self]
        omega
      obtain ⟨e, t, refused⟩ := ih more levels (69 :: behind)
      rw [eachBounded, watched]
      split
      · refine ⟨e, t, ?_⟩
        rw [packedNext]
        exact packRefused (manyUntilRefused (packsGoOn n _ m) refused)
      · exact ⟨_, _, rfl⟩

/-! ### A function with an attribute -/

def named : Memory := { nesting := 1, declaring := false, lastIdentifier := "f" }

section Attribute
variable {below : Below} {tail behind : List UInt8} {item : Node}

def attributed (tail : List UInt8) : List UInt8 :=
  49 :: 102 :: (Text.encode "Ua9enable_if" ++ 73 :: tail)

theorem nameAttributed (below : Below) (tail : List UInt8) :
    nameRule below ⟨attributed tail, { nesting := 1 }⟩ = .ok (.name "f", {})
      ⟨Text.encode "Ua9enable_if" ++ 73 :: tail, { nesting := 1, lastIdentifier := "f" }⟩ := by
  rfl

def behindEncoding (t : Cursor Memory) : Cursor Memory :=
  { t with memory := { t.memory with
      nesting := t.memory.nesting - 1, arguments := [], declaring := true } }

theorem encodingDeclares (below : Below) (tail : List UInt8) :
    encodingRule below ⟨attributed tail, {}⟩ =
      match declaration below ⟨attributed tail, { nesting := 1 }⟩ with
      | .ok node t => .ok node (behindEncoding t)
      | .error e t => .error e (behindEncoding t) := by
  have inside : encodingRule below ⟨attributed tail, {}⟩ =
      restoring (fun _ after => { after with nesting := after.nesting - 1 })
        (restoring (fun before after =>
            { after with arguments := before.arguments, declaring := before.declaring })
          (declaration below)) ⟨attributed tail, { nesting := 1 }⟩ := rfl
  rw [inside, restoring, restoring]
  cases declaration below ⟨attributed tail, { nesting := 1 }⟩ with
  | ok node t => rfl
  | error e t => rfl

variable (name : below .name ⟨attributed tail, { nesting := 1 }⟩ = .ok (.name "f", {})
  ⟨Text.encode "Ua9enable_if" ++ 73 :: tail, { nesting := 1, lastIdentifier := "f" }⟩)
include name

theorem declarationAttributed
    (arguments : manyTo "E" (below .templateArg) ⟨tail, named⟩ =
      .ok [item] ⟨Text.encode "v", named⟩) :
    declaration below ⟨attributed tail, { nesting := 1 }⟩ =
      .ok (.function none (.name "f") [] {} .none) ⟨[], named⟩ := by
  have list : templateArgs below ⟨73 :: tail, named⟩ = .ok [item] ⟨Text.encode "v", named⟩ :=
    (bindOk rfl).trans ((bindOk rfl).trans ((bindOk rfl).trans
      ((bindOk (restoringOk _ arguments)).trans rfl)))
  have attributes : manyAfter "Ua9enable_if" (templateArgs below)
      ⟨Text.encode "Ua9enable_if" ++ 73 :: tail, named⟩ = .ok [[item]] ⟨Text.encode "v", named⟩ :=
    manyUntilOne rfl list rfl (List.cons_ne_nil _ _)
  exact (bindOk name).trans ((bindOk rfl).trans ((bindOk rfl).trans
    ((bindOk attributes).trans rfl)))

theorem declarationRefused {e : Refusal} {t : Cursor Memory}
    (arguments : manyTo "E" (below .templateArg) ⟨tail, named⟩ = .error e t) :
    ∃ t, declaration below ⟨attributed tail, { nesting := 1 }⟩ = .error e t := by
  have inside : ∃ t, aside (manyTo "E" (below .templateArg)) ⟨tail, named⟩ = .error e t := by
    rw [aside, restoring, arguments]
    exact ⟨_, rfl⟩
  obtain ⟨t, inside⟩ := inside
  have list : templateArgs below ⟨73 :: tail, named⟩ = .error e t :=
    (bindOk rfl).trans ((bindOk rfl).trans ((bindOk rfl).trans (bindError inside)))
  have attributes : manyAfter "Ua9enable_if" (templateArgs below)
      ⟨Text.encode "Ua9enable_if" ++ 73 :: tail, named⟩ = .error e t :=
    manyUntilRefused rfl list
  exact ⟨t, (bindOk name).trans ((bindOk rfl).trans ((bindOk rfl).trans (bindError attributes)))⟩

end Attribute

def attributedPacks (n : Nat) : List UInt8 :=
  attributed (packed (n + 1) (69 :: Text.encode "v"))

theorem attributedPacksRead (levels n : Nat) :
    run (levels + n + 1 + 1) .encoding ⟨attributedPacks n, {}⟩ =
      .ok (.function none (.name "f") [] {} .none) (behindEncoding ⟨[], named⟩) := by
  have arguments : manyTo "E" (run (levels + n + 1) .templateArg)
      ⟨packed (n + 1) (69 :: Text.encode "v"), named⟩ =
        .ok [packTree n] ⟨Text.encode "v", named⟩ :=
    manyUntilOne (packsGoOn n _ named) (packsRead levels n _ named) (endOfList _ named)
      (packsNotEmpty n _)
  have declared : declaration (run (levels + n + 1)) ⟨attributedPacks n, { nesting := 1 }⟩ =
      .ok (.function none (.name "f") [] {} .none) ⟨[], named⟩ :=
    declarationAttributed (nameAttributed (run (levels + n)) _) arguments
  rw [run, step, attributedPacks, encodingDeclares, ← attributedPacks, declared]

theorem attributedPacksRefused {n : Nat} (many : maxNesting ≤ n) (levels : Nat) :
    ∃ e t, eachBounded (levels + 1 + 1) [] .encoding ⟨attributedPacks n, {}⟩ = .error e t := by
  have none : maxNesting ≤ [Production.encoding].count .templateArg + n := Nat.le_add_left_of_le many
  obtain ⟨e, t, refused⟩ := packsRefused none (levels + 1) (69 :: Text.encode "v") named
  have name : eachBounded (levels + 1) [.encoding] .name
      ⟨attributedPacks n, { nesting := 1 }⟩ = .ok (.name "f", {})
        ⟨Text.encode "Ua9enable_if" ++ 73 :: packed (n + 1) (69 :: Text.encode "v"),
          { nesting := 1, lastIdentifier := "f" }⟩ := by
    rw [eachBounded, watched, if_pos (by decide)]
    exact nameAttributed _ _
  obtain ⟨t, declared⟩ := declarationRefused name (manyUntilRefused (packsGoOn n _ named) refused)
  refine ⟨e, behindEncoding t, ?_⟩
  rw [eachBounded, watched, if_pos (by decide), step, attributedPacks, encodingDeclares, declared]

end CxxSymbols.Itanium.Grammar

namespace CxxSymbols.Itanium
open Grammar

section Mangled
variable {encoding : List UInt8 → Rule Node} {input : List UInt8} {node : Node}

theorem mangledFront (input : List UInt8) :
    ((95 :: 90 :: input).takeWhile (· = (95 : UInt8))).length = 1 := rfl

theorem mangledRead {m : Memory} (read : encoding input ⟨input, {}⟩ = .ok node ⟨[], m⟩)
    (depth : node.depthWithin maxTreeDepth = true) :
    Node.ofMangledBy? encoding .key (95 :: 90 :: input) = some node := by
  have behind : (95 :: 90 :: input).drop (1 + 1) = input := rfl
  simp only [Node.ofMangledBy?, mangledFront, behind, read]
  rw [if_pos ⟨Nat.le_refl 1, by decide, rfl⟩, if_pos depth]

theorem mangledRefused {e : Refusal} {t : Cursor Memory}
    (refused : encoding input ⟨input, {}⟩ = .error e t) :
    Node.ofMangledBy? encoding .key (95 :: 90 :: input) = none := by
  have behind : (95 :: 90 :: input).drop (1 + 1) = input := rfl
  simp only [Node.ofMangledBy?, mangledFront, behind, refused]
  exact ite_self none

end Mangled

theorem levelsForPacks (n : Nat) : ∃ levels, levelsFor (attributedPacks n) = levels + n + 1 + 1 := by
  have longer : n ≤ (attributedPacks n).length := by
    simp only [attributedPacks, attributed, packed, List.length_cons, List.length_append,
      List.length_replicate]
    omega
  refine ⟨levelsFor (attributedPacks n) - (n + 2), ?_⟩
  rw [levelsFor]
  omega

theorem nestedPacksRead (n : Nat) : Node.ofMangled? (95 :: 90 :: attributedPacks n) =
    some (.function none (.name "f") [] {} .none) := by
  obtain ⟨levels, enough⟩ := levelsForPacks n
  have read := attributedPacksRead levels n
  rw [← enough] at read
  have shallow : (Node.function none (.name "f") [] {} .none).depthWithin maxTreeDepth = true := rfl
  rw [Node.ofMangled?, mangledByRun]
  exact mangledRead read shallow

/- As many packs as may be nested and one more. They are read, though more calls for template
arguments are active than there may be. -/
theorem packsPassBounds :
    let mangled := Text.encode "_Z1fUa9enable_ifI" ++ List.replicate 257 74 ++
      List.replicate 257 69 ++ Text.encode "Ev"
    Node.ofMangled? mangled = some (.function none (.name "f") [] {} .none) ∧
      Node.ofMangledWatched? EachBounded (fun _ _ => throw .mismatch) mangled = none := by
  intro mangled
  have bytes : mangled = 95 :: 90 :: attributedPacks 256 := by
    decide +kernel
  obtain ⟨levels, enough⟩ := levelsForPacks 256
  obtain ⟨e, t, refused⟩ := attributedPacksRefused (Nat.le_refl 256) (levels + 256)
  rw [← enough] at refused
  rw [bytes]
  exact ⟨nestedPacksRead 256, mangledRefused refused⟩

end CxxSymbols.Itanium
