import CxxSymbols.Proofs.Itanium.AbiTags
import CxxSymbols.Proofs.Itanium.Size.Encoding
/-!
Where the grammar puts tags. Only the names that take a tag get one, and what is referred to again
has its tags where they were. So the tags of a tree that is read for a key are in place, whatever
the input: from what is kept in memory each rule makes trees with their tags in place, and it keeps
no others.
-/
namespace CxxSymbols.Itanium
namespace Grammar
open Canonical (Qualifiers RefQualifier)
open Node (tagsInPlace allTagsInPlace tagsInPlace? tagsInExtent)
open Scanner

set_option synthInstance.maxSize 20000

/-! ### What holds trees -/

class Tagging (α : Type) where
  inPlace : α → Prop

open Tagging (inPlace)

class Placed {α : Type} [Tagging α] (a : α) : Prop where
  inPlace : Tagging.inPlace a

abbrev Tidy (α : Type) [Tagging α] : Type := { a : α // inPlace a }

instance {α : Type} [Tagging α] (a : Tidy α) : Placed a.val := ⟨a.property⟩

class Treeless (α : Type) extends Tagging α where
  inPlace _ := True
  all (a : α) : inPlace a := by exact fun _ => trivial

instance : Treeless Bool where
instance : Treeless Nat where
instance : Treeless Char where
instance : Treeless String where
instance : Treeless UInt8 where
instance : Treeless PUnit where
instance : Treeless Qualifiers where
instance : Treeless RefQualifier where
instance : Treeless NameShape where

section Holders
variable {α β : Type}

instance [Tagging α] : Tagging (List α) := ⟨fun as => ∀ a ∈ as, inPlace a⟩
instance [Tagging α] : Tagging (Array α) := ⟨fun as => ∀ a ∈ as, inPlace a⟩
instance [Tagging α] : Tagging (Option α) := ⟨fun o => ∀ a ∈ o, inPlace a⟩
instance [Tagging α] [Tagging β] : Tagging (α × β) := ⟨fun p => inPlace p.1 ∧ inPlace p.2⟩

instance [Treeless α] : Treeless (List α) := { all := fun _ a _ => Treeless.all a }
instance [Treeless α] : Treeless (Option α) := { all := fun _ a _ => Treeless.all a }
instance [Treeless α] [Treeless β] : Treeless (α × β) :=
  { all := fun p => ⟨Treeless.all p.1, Treeless.all p.2⟩ }

instance [Treeless α] (a : α) : Placed a := ⟨Treeless.all a⟩

section
variable [Tagging α] [Tagging β] {a a' : α} {b : β} {as as' : List α}

instance : Placed ([] : List α) := ⟨fun _ mem => by cases mem⟩

instance [first : Placed a] [rest : Placed as] : Placed (a :: as) :=
  ⟨List.forall_mem_cons.mpr ⟨first.inPlace, rest.inPlace⟩⟩

theorem Placed.head (placed : Placed (a :: as)) : Placed a :=
  ⟨placed.inPlace a List.mem_cons_self⟩

theorem Placed.tail (placed : Placed (a :: as)) : Placed as :=
  ⟨fun b mem => placed.inPlace b (List.mem_cons_of_mem a mem)⟩

theorem Placed.get (placed : Placed (some a)) : Placed a := ⟨placed.inPlace a rfl⟩

instance [front : Placed as] [behind : Placed as'] : Placed (as ++ as') :=
  ⟨List.forall_mem_append.mpr ⟨front.inPlace, behind.inPlace⟩⟩

instance : Placed (none : Option α) := ⟨fun _ mem => by cases mem⟩

instance [one : Placed a] : Placed (some a) := ⟨fun _ mem => by cases mem; exact one.inPlace⟩

instance [first : Placed a] [second : Placed b] : Placed (a, b) := ⟨first.inPlace, second.inPlace⟩

instance [all : Placed as] (n : Nat) : Placed as[n]? :=
  ⟨fun _ mem => all.inPlace _ (List.mem_of_getElem? mem)⟩

instance {all : Array α} [each : Placed all] (n : Nat) : Placed all[n]? :=
  ⟨fun _ mem => each.inPlace _ (Array.mem_of_getElem? mem)⟩

instance {all : Array α} [each : Placed all] [one : Placed a] : Placed (all.push a) where
  inPlace b mem := by
    rcases Array.mem_push.mp mem with mem | rfl
    · exact each.inPlace b mem
    · exact one.inPlace

instance {all : Array α} [each : Placed all] : Placed all.pop :=
  ⟨fun b mem => each.inPlace b (.mk (List.dropLast_subset _ mem.val))⟩

instance {make : β → α} [each : ∀ b, Placed (make b)] (bs : List β) : Placed (bs.map make) where
  inPlace a mem := by
    obtain ⟨b, _, rfl⟩ := List.mem_map.mp mem
    exact (each b).inPlace

instance {make : β → α} [each : ∀ b, Placed (make b)] (b? : Option β) : Placed (b?.map make) where
  inPlace a mem := by
    obtain ⟨b, _, rfl⟩ := Option.map_eq_some_iff.mp mem
    exact (each b).inPlace

instance {c : Prop} [Decidable c] [yes : Placed a] [no : Placed a'] :
    Placed (if c then a else a') := by
  split
  · exact yes
  · exact no

end
end Holders

/-! ### Trees -/

instance : Tagging Node := ⟨fun x => x.tagsInPlace = true⟩

instance : Tagging (Extent Node) := ⟨fun extent => tagsInExtent extent = true⟩

theorem treePlaced (x : Node) [placed : Placed x] : x.tagsInPlace = true := placed.inPlace

theorem treesPlaced (xs : List Node) [placed : Placed xs] : allTagsInPlace xs = true := by
  have all : ∀ x ∈ xs, x.tagsInPlace = true := placed.inPlace
  clear placed
  induction xs with
  | nil => rw [allTagsInPlace]
  | cons x xs ih =>
    rw [allTagsInPlace, Bool.and_eq_true]
    exact ⟨all x List.mem_cons_self, ih fun y mem => all y (List.mem_cons_of_mem x mem)⟩

theorem maybePlaced (x? : Option Node) [placed : Placed x?] : tagsInPlace? x? = true := by
  cases x? with
  | none => rw [tagsInPlace?]
  | some x =>
    rw [tagsInPlace?]
    exact placed.inPlace x rfl

theorem extentPlaced (extent : Extent Node) [placed : Placed extent] :
    tagsInExtent extent = true := placed.inPlace

section Trees
attribute [local simp] tagsInPlace tagsInExtent treePlaced treesPlaced maybePlaced extentPlaced

variable {x y : Node} {xs ys : List Node} {x? : Option Node} {extent : Extent Node}

theorem Placed.ofTree (placed : x.tagsInPlace = true) : Placed x := ⟨placed⟩

theorem Placed.ofExtent (placed : tagsInExtent extent = true) : Placed extent := ⟨placed⟩

instance (s : String) : Placed (.name s : Node) := .ofTree (by simp)

instance (abbr : StdAbbreviation) : Placed (.abbreviation abbr : Node) := .ofTree (by simp)

instance (index : Nat) : Placed (.unnamedType index : Node) := .ofTree (by simp)

instance (index : Nat) : Placed (.templateParam index : Node) := .ofTree (by simp)

instance [Placed x] [Placed y] : Placed (Node.nested x y) := .ofTree (by simp)

instance [Placed x] [Placed y] : Placed (Node.inBody x y) := .ofTree (by simp)

instance [Placed x] [Placed y] : Placed (Node.constructionVTable x y) := .ofTree (by simp)

instance [Placed x] [Placed y] : Placed (Node.memberPointer x y) := .ofTree (by simp)

instance [Placed x] : Placed x.std := .ofTree (by simp)

instance [Placed x] : Placed x.conversion := .ofTree (by simp)

instance [Placed x] : Placed x.pointer := .ofTree (by simp)

instance [Placed x] : Placed x.expansion := .ofTree (by simp)

instance [Placed x] : Placed x.decltype := .ofTree (by simp)

instance [Placed x] (kind : SpecialKind) : Placed (.special kind x : Node) := .ofTree (by simp)

instance [Placed x] (quals : Qualifiers) : Placed (x.qualified quals) := .ofTree (by simp)

instance [Placed x] (vendor : String) : Placed (x.vendorQualified vendor) := .ofTree (by simp)

instance [Placed x] (isRvalue : Bool) : Placed (x.reference isRvalue) := .ofTree (by simp)

instance [Placed x] (value : String) : Placed (x.literal value) := .ofTree (by simp)

instance [Placed x] (suffix : String) : Placed (x.clone suffix) := .ofTree (by simp)

instance [Placed x] [Placed x?] (isDestructor : Bool) : Placed (x.structor isDestructor x?) :=
  .ofTree (by simp)

instance [Placed x] [Placed xs] : Placed (x.template xs) := .ofTree (by simp)

instance [Placed xs] (index : Nat) : Placed (.closure xs index : Node) := .ofTree (by simp)

instance [Placed xs] : Placed (.binding xs : Node) := .ofTree (by simp)

instance [Placed xs] : Placed (.pack xs : Node) := .ofTree (by simp)

instance [Placed xs] (form : ExpressionForm) (spelling : String) :
    Placed (.expr form spelling xs : Node) := .ofTree (by simp)

instance [Placed x?] [Placed x] [Placed xs] (quals : Qualifiers) (refQual : RefQualifier) :
    Placed (Node.function x? x xs quals refQual) := .ofTree (by simp)

instance [Placed x] [Placed xs] [Placed ys] (quals : Qualifiers) (refQual : RefQualifier) :
    Placed (Node.functionType x xs quals refQual ys) := .ofTree (by simp)

instance : Placed (.unstated : Extent Node) := .ofExtent (by simp)

instance (s : String) : Placed (.number s : Extent Node) := .ofExtent (by simp)

instance [Placed x] : Placed (.computed x : Extent Node) := .ofExtent (by simp)

instance [Placed extent] [Placed x] : Placed (.array extent x : Node) := .ofTree (by simp)

instance [Placed extent] [Placed x] : Placed (.vector extent x : Node) := .ofTree (by simp)

end Trees

/-! ### Rules -/

/- What is kept for later holds no tag that is out of place. A parameter stands for its argument. -/
instance : Tagging Memory :=
  ⟨fun m => m.reading = .key ∧ inPlace m.candidates ∧ inPlace m.arguments⟩

instance : Tagging (Cursor Memory) := ⟨fun s => inPlace s.memory⟩

section Memories
variable {m : Memory} [placed : Placed m]

instance : Placed m.candidates := ⟨placed.inPlace.2.1⟩

instance : Placed m.arguments := ⟨placed.inPlace.2.2⟩

theorem readsKey (m : Memory) [placed : Placed m] : m.reading = .key := placed.inPlace.1

instance {candidates : Array Node} {arguments : List Node} [cs : Placed candidates]
    [as : Placed arguments] {declaring applying : Bool} {lastIdentifier : String}
    {nesting budget : Nat} : Placed (⟨m.reading, candidates, arguments, declaring, applying,
      lastIdentifier, nesting, budget⟩ : Memory) :=
  ⟨placed.inPlace.1, cs.inPlace, as.inPlace⟩

end Memories

/- Whatever is read where the memory is in order is good, and the memory is in order behind it. -/
class Yields {α : Type} (good : α → Prop) (x : Rule α) : Prop where
  ok : ∀ {s a t}, inPlace s.memory → x s = .ok a t → good a ∧ inPlace t.memory

abbrev Orderly {α : Type} [Tagging α] (x : Rule α) : Prop := Yields inPlace x

section Steps
variable {α β : Type} {good : α → Prop} {result : β → Prop} {x y : Rule α} {f : α → Rule β}

theorem Yields.bind (first : Yields good x) (behind : ∀ a, good a → Yields result (f a)) :
    Yields result (x >>= f) where
  ok := by
    intro s b t tidy ran
    obtain ⟨a, between, one, two⟩ := Stateful.bindOkSource ran
    obtain ⟨holds, kept⟩ := first.ok tidy one
    exact (behind a holds).ok kept two

theorem Orderly.keeps [Treeless α] (keeps : ∀ {s a t}, x s = .ok a t → t.memory = s.memory) :
    Orderly x :=
  ⟨fun tidy ran => ⟨Treeless.all _, keeps ran ▸ tidy⟩⟩

theorem Orderly.bind [Tagging α] (first : Orderly x)
    (behind : ∀ (a : α) [Placed a], Yields result (f a)) : Yields result (x >>= f) :=
  Yields.bind first fun a holds => @behind a ⟨holds⟩

instance [Tagging α] [first : Orderly x] [behind : ∀ a : Tidy α, Yields result (f a)] :
    Yields result (x >>= f) := Yields.bind first fun a holds => behind ⟨a, holds⟩

theorem Orderly.bindPair {γ : Type} [Tagging α] [Tagging γ] {x : Rule (α × γ)}
    {f : α × γ → Rule β} (first : Orderly x)
    (behind : ∀ (a : α) (c : γ) [Placed a] [Placed c], Yields result (f (a, c))) :
    Yields result (x >>= f) :=
  Yields.bind first fun (a, c) holds => @behind a c ⟨holds.1⟩ ⟨holds.2⟩

instance {γ : Type} [Tagging α] [Tagging γ] {x : Rule (α × γ)} {f : α × γ → Rule β}
    [first : Orderly x] [behind : ∀ (a : Tidy α) (c : Tidy γ), Yields result (f (a, c))] :
    Yields result (x >>= f) :=
  Orderly.bindPair first fun a c placed placed' => behind ⟨a, placed.inPlace⟩ ⟨c, placed'.inPlace⟩

theorem Yields.pure {a : α} (holds : good a) : Yields good (pure a : Rule α) :=
  ⟨fun tidy ran => by cases ran; exact ⟨holds, tidy⟩⟩

instance [Tagging α] (a : α) [placed : Placed a] : Orderly (pure a : Rule α) := .pure placed.inPlace

instance (a : α) [behind : Yields result (f a)] : Yields result (pure a >>= f) := behind

instance (e : Refusal) : Yields good (throw e : Rule α) := ⟨fun _ ran => by cases ran⟩

instance : Yields good (refuse : Rule α) := ⟨fun _ ran => by cases ran⟩

instance [Tagging α] (o : Option α) [placed : Placed o] : Orderly (ofOption o : Rule α) := by
  cases o with
  | none => exact ⟨fun _ ran => by cases ran⟩
  | some a => exact .pure (placed.inPlace a rfl)

instance {c : Prop} [Decidable c] [yes : Yields good x] [no : Yields good y] :
    Yields good (if c then x else y) := by
  split
  · exact yes
  · exact no

instance : Orderly (get : Rule (Cursor Memory)) :=
  ⟨fun tidy ran => by cases ran; exact ⟨tidy, tidy⟩⟩

instance (s : Cursor Memory) [placed : Placed s] : Orderly (set s : Rule PUnit) :=
  ⟨fun _ ran => by cases ran; exact ⟨trivial, placed.inPlace⟩⟩

instance : Orderly (memory : Rule Memory) := ⟨fun tidy ran => by cases ran; exact ⟨tidy, tidy⟩⟩

instance {change : Memory → Memory} [placed : ∀ m : Tidy Memory, Placed (change m)] :
    Orderly (alter change) :=
  ⟨fun tidy ran => by cases ran; exact ⟨trivial, (placed ⟨_, tidy⟩).inPlace⟩⟩

theorem Yields.restoring {putBack : Memory → Memory → Memory} (inner : Yields good x)
    (placed : ∀ m n : Tidy Memory, Placed (putBack m n)) :
    Yields good (Scanner.restoring putBack x) where
  ok := by
    intro s a t tidy ran
    unfold Scanner.restoring at ran
    split at ran
    · rename_i b between one
      cases ran
      obtain ⟨holds, kept⟩ := inner.ok tidy one
      exact ⟨holds, (placed ⟨_, tidy⟩ ⟨_, kept⟩).inPlace⟩
    · cases ran

instance {putBack : Memory → Memory → Memory} [inner : Yields good x]
    [placed : ∀ m n : Tidy Memory, Placed (putBack m n)] : Yields good (restoring putBack x) :=
  inner.restoring placed

theorem Yields.nested (inner : Yields good x) : Yields good (Grammar.nested x) where
  ok := by
    intro s a t tidy ran
    unfold Grammar.nested at ran
    dsimp only at ran
    split at ran
    · have restored : Yields good (Scanner.restoring (fun _ after : Memory =>
          { after with nesting := after.nesting - 1 }) x) := inferInstance
      exact restored.ok (s := { s with memory.nesting := s.memory.nesting + 1 }) tidy ran
    · cases ran

end Steps

/-! ### Scanners -/

section Scanners
variable {α : Type} [Tagging α] {x : Rule α} {stop : Rule Bool}

instance : Orderly (rest : Rule _) := .keeps fun ran => by cases ran; rfl

instance (bytes : List UInt8) : Orderly (setRest bytes : Rule _) :=
  .keeps fun ran => by cases ran; rfl

instance : Orderly (peek : Rule _) := by unfold peek; infer_instance

instance (n : Nat) : Orderly (peekAt n : Rule _) := by unfold peekAt; infer_instance

instance : Orderly (current : Rule _) := by unfold current; infer_instance

instance (n : Nat) : Orderly (skip n : Rule _) := by unfold skip; infer_instance

instance : Orderly (next : Rule _) := by unfold next; infer_instance

instance (text : String) : Orderly (accept text : Rule _) := by
  unfold accept
  refine Orderly.bind inferInstance fun bytes _ => ?_
  split <;> infer_instance

instance (texts : List String) : Orderly (acceptAny texts : Rule _) := by
  induction texts with
  | nil => unfold acceptAny; infer_instance
  | cons text texts ih => unfold acceptAny; infer_instance

instance (text : String) : Orderly (expect text : Rule _) := by unfold expect; infer_instance

instance (test : UInt8 → Bool) : Orderly (takeWhile test : Rule _) := by
  unfold Scanner.takeWhile; infer_instance

instance [Orderly stop] [Orderly x] (rounds : Nat) : Orderly (manyUntilIn stop x rounds) := by
  induction rounds with
  | zero => unfold manyUntilIn; infer_instance
  | succ rounds ih => unfold manyUntilIn; infer_instance

instance [Orderly stop] [Orderly x] : Orderly (manyUntil stop x) := by
  unfold manyUntil; infer_instance

instance [Orderly x] (text : String) : Orderly (manyTo text x) := by unfold manyTo; infer_instance

instance [Orderly x] (text : String) : Orderly (manyAfter text x) := by
  unfold manyAfter; infer_instance

instance [Orderly x] : Orderly (aside x) := by unfold aside; infer_instance

end Scanners

/-! ### Rules that hold no other -/

instance : Orderly number? := by unfold number?; infer_instance

instance : Orderly number := by unfold number; infer_instance

instance : Orderly natural? := by unfold natural?; infer_instance

instance : Orderly natural := by unfold natural; infer_instance

instance : Orderly sequenceId? := by unfold sequenceId?; infer_instance

instance : Orderly identifier := by unfold identifier; infer_instance

instance : Orderly ordinal := by
  unfold ordinal
  refine Orderly.bind inferInstance fun n _ => ?_
  split <;> infer_instance

instance : Orderly qualifiers := by unfold qualifiers; infer_instance

instance : Orderly refQualifier := by unfold refQualifier; infer_instance

instance : Orderly discriminator := by
  unfold discriminator
  refine Orderly.bind inferInstance fun first _ => ?_
  split
  · refine Orderly.bind inferInstance fun second _ => ?_
    split
    · refine Orderly.bind inferInstance fun input _ => Orderly.bind inferInstance fun _ _ =>
        Orderly.bind inferInstance fun number _ => ?_
      split <;> infer_instance
    · infer_instance
    · infer_instance
  · infer_instance

instance : Orderly atEncodingEnd := by
  unfold atEncodingEnd
  refine Orderly.bind inferInstance fun first _ => ?_
  split <;> infer_instance

section References
variable {node : Node}

instance [Placed node] : Orderly (remember node) := by unfold remember; infer_instance

instance [Placed node] : Orderly (refer node) := by unfold refer; infer_instance

instance (index : Nat) : Orderly (candidate index) := by unfold candidate; infer_instance

instance : Orderly substitution := by
  unfold substitution
  refine Orderly.bind inferInstance fun _ _ => Orderly.bind inferInstance fun c _ => ?_
  split <;> infer_instance

instance (index : Nat) : Orderly (argument index) := by
  unfold argument
  refine Orderly.bind inferInstance fun m _ => ?_
  split
  · rename_i node _ known
    have placed : Placed m.arguments[index]? := inferInstance
    have one : Placed node := ⟨placed.inPlace node known⟩
    infer_instance
  · infer_instance

instance : Orderly templateParam := by unfold templateParam; infer_instance

end References

instance : Orderly functionParamTail := by unfold functionParamTail; infer_instance

instance : Orderly functionParam := by unfold functionParam; infer_instance

instance (allowed : List Char) : Orderly (structorNumber allowed) := by
  unfold structorNumber; infer_instance

instance (cls : Node) : Orderly (namesake? cls) := by unfold namesake?; infer_instance

instance : Orderly builtin? := by
  unfold builtin?
  refine Orderly.bind inferInstance fun c₀ _ => ?_
  split
  · infer_instance
  · split
    · infer_instance
    · split
      · refine Orderly.bind inferInstance fun c₁ _ => ?_
        split
        · infer_instance
        · split
          · refine Orderly.bind inferInstance fun input _ => Orderly.bind inferInstance fun _ _ =>
              Orderly.bind inferInstance fun bits _ => ?_
            split <;> infer_instance
          · infer_instance
      · infer_instance

instance : Orderly atFunctionType := by
  unfold atFunctionType
  refine Orderly.bind inferInstance fun first _ => Orderly.bind inferInstance fun second _ => ?_
  split <;> infer_instance

instance : Orderly callOffset := by unfold callOffset; infer_instance

instance {symbol : Node} [Placed symbol] : Orderly (completed symbol) := by
  unfold completed
  refine Orderly.bind inferInstance fun m _ => ?_
  rw [readsKey m]
  infer_instance

/-! ### Names -/

class Named (x : Node) : Prop where
  takes : x.takesTag = true
  inPlace : x.tagsInPlace = true

def FirstNamed (p : Node × Bool) : Prop := Named p.1

section Named
variable {x : Node} {xs : List Node} {x? : Option Node} {isIt : Bool}

theorem Named.ofPlaced [placed : Placed x] (takes : x.takesTag = true) : Named x :=
  ⟨takes, placed.inPlace⟩

instance (s : String) : Named (.name s) := .ofPlaced rfl

instance (index : Nat) : Named (.unnamedType index) := .ofPlaced rfl

instance [Placed xs] (index : Nat) : Named (.closure xs index) := .ofPlaced rfl

instance [Placed xs] : Named (.binding xs) := .ofPlaced rfl

instance [Placed x] [Placed x?] (isDestructor : Bool) : Named (x.structor isDestructor x?) :=
  .ofPlaced rfl

instance [Placed x] : Named x.conversion := .ofPlaced rfl

instance (x : { x : Node // Named x }) : Named x.val := x.property

instance (x : { x : Node // Named x }) : Placed x.val := ⟨x.property.inPlace⟩

instance [named : Named x] : Yields Named (pure x : Rule Node) := .pure named

instance [named : Named x] : Yields FirstNamed (pure (x, isIt) : Rule (Node × Bool)) := .pure named

instance {β : Type} {result : β → Prop} {rule : Rule Node} {f : Node → Rule β}
    [first : Yields Named rule] [behind : ∀ x : { x : Node // Named x }, Yields result (f x)] :
    Yields result (rule >>= f) := first.bind fun x named => behind ⟨x, named⟩

instance {β : Type} {result : β → Prop} {rule : Rule (Node × Bool)} {f : Node × Bool → Rule β}
    [first : Yields FirstNamed rule]
    [behind : ∀ (x : { x : Node // Named x }) (isIt : Bool), Yields result (f (x, isIt))] :
    Yields result (rule >>= f) := first.bind fun (x, isIt) named => behind ⟨x, named⟩ isIt

theorem taggedNamed (tags : List String) (named : Named x) : Named (tags.foldl .abiTag x) := by
  induction tags generalizing x with
  | nil => exact named
  | cons tag tags ih =>
    refine ih ⟨named.takes, ?_⟩
    rw [tagsInPlace, Bool.and_eq_true]
    exact ⟨named.takes, named.inPlace⟩

instance [named : Named x] : Orderly (withAbiTags x) := by
  unfold withAbiTags
  exact Orderly.bind inferInstance fun tags _ => .pure (taggedNamed tags named).inPlace

end Named

class Sound (below : Below) : Prop where
  encoding : Orderly (below .encoding : Rule Node)
  name : Orderly (below .name : Rule (Node × NameShape))
  type : Orderly (below .type : Rule Node)
  templateArg : Orderly (below .templateArg : Rule Node)
  expression : Orderly (below .expression : Rule Node)
  braced : Orderly (below .braced : Rule Node)

attribute [instance] Sound.encoding Sound.name Sound.type Sound.templateArg Sound.expression
  Sound.braced

variable {below : Below} [Sound below]

section Names
variable {x : Node} {scope : Option Node}

instance : Orderly (templateArgs below) := by unfold templateArgs; infer_instance

instance [Placed x] : Orderly (withTemplateArgs below x) := by
  unfold withTemplateArgs; infer_instance

instance : Yields FirstNamed (operatorName below) := by unfold operatorName; infer_instance

instance [Placed x] : Yields Named (structor below x) := by unfold structor; infer_instance

instance : Yields Named (unnamedName below) := by unfold unnamedName; infer_instance

instance [Placed scope] : Orderly (unqualifiedName below scope) := by
  unfold unqualifiedName; infer_instance

instance : Orderly (unscopedName below) := by unfold unscopedName; infer_instance

instance [placed : Placed scope] [Placed x] : Placed (within scope x) := by
  cases scope with
  | none => exact inferInstanceAs (Placed x)
  | some a =>
    have outer := placed.get
    exact inferInstanceAs (Placed (a.nested x))

instance : Orderly (nestedComponents.decltypeName below) := by
  unfold nestedComponents.decltypeName; infer_instance

instance [Placed scope] (rounds : Nat) (shape : NameShape) :
    Orderly (nestedComponents below rounds scope shape) := by
  induction rounds generalizing scope shape with
  | zero => unfold nestedComponents; infer_instance
  | succ rounds ih => unfold nestedComponents; infer_instance

instance : Orderly (nestedName below) := by unfold nestedName; infer_instance

instance : Orderly (localName below) := by unfold localName; infer_instance

instance [Placed x] (shape : NameShape) : Placed (shape.apply x) := by
  unfold NameShape.apply
  dsimp only
  split <;> split <;> infer_instance

instance : Orderly (plainName below) := by
  unfold plainName
  refine Orderly.bindPair inferInstance fun name shape _ _ =>
    Orderly.bind inferInstance fun m _ => ?_
  split <;> infer_instance

end Names

/-! ### Types -/

instance (rounds : Nat) : Orderly (functionType.parameters below rounds) := by
  induction rounds with
  | zero => unfold functionType.parameters; infer_instance
  | succ rounds ih => unfold functionType.parameters; infer_instance

instance : Orderly (exceptions below) := by unfold exceptions; infer_instance

instance : Orderly (functionType below) := by unfold functionType; infer_instance

instance : Orderly (arrayType below) := by unfold arrayType; infer_instance

instance : Orderly (vectorType below) := by unfold vectorType; infer_instance

instance : Orderly (qualifiedType below) := by unfold qualifiedType; infer_instance

instance : Orderly (parameterType below) := by unfold parameterType; infer_instance

instance (c₀ : Char) (c₁ : Option Char) : Orderly (compoundType below c₀ c₁) := by
  unfold compoundType
  split <;> first | infer_instance | (split <;> infer_instance)

instance (c₀ : Char) (c₁ : Option Char) : Orderly (otherType below c₀ c₁) := by
  unfold otherType; infer_instance

/-! ### Expressions -/

instance : Orderly (literal below) := by unfold literal; infer_instance

instance : Orderly (simpleId below) := by unfold simpleId; infer_instance

instance {x : Node} [Placed x] : Orderly (unresolvedType.remembered x) := by
  unfold unresolvedType.remembered; infer_instance

instance : Orderly (unresolvedType below) := by
  unfold unresolvedType
  refine Orderly.bind inferInstance fun c _ => ?_
  split <;> infer_instance

instance {x : Node} [Placed x] : Placed (destructorOf x) :=
  inferInstanceAs (Placed (x.structor true none))

instance : Orderly (baseUnresolvedName below) := by unfold baseUnresolvedName; infer_instance

theorem scopedPlaced {x : Node} {xs : List Node} (first : Placed x) (rest : Placed xs) :
    Placed (xs.foldl Node.nested x) := by
  induction xs generalizing x with
  | nil => exact first
  | cons y ys ih =>
    have second := rest.head
    exact ih inferInstance rest.tail

instance {x : Node} {xs : List Node} [first : Placed x] [rest : Placed xs] :
    Placed (xs.foldl Node.nested x) := scopedPlaced first rest

instance : Orderly (unresolvedScope below) := by
  unfold unresolvedScope
  refine Orderly.bind inferInstance fun isNested _ => ?_
  split
  · infer_instance
  · refine Orderly.bind inferInstance fun isScoped _ => ?_
    split
    · refine Orderly.bind inferInstance fun c _ => ?_
      split
      · refine Orderly.bind inferInstance fun names placed => ?_
        split
        · infer_instance
        · have first := placed.head
          have rest := placed.tail
          infer_instance
      · infer_instance
    · infer_instance

instance : Orderly (unresolvedName below) := by unfold unresolvedName; infer_instance

instance (n : Nat) : Orderly (operands below n) := by
  induction n with
  | zero => unfold operands; infer_instance
  | succ n ih => unfold operands; infer_instance

instance (isBinary : Bool) : Orderly (fold below isBinary) := by unfold fold; infer_instance

instance : Orderly (newInitializer below) := by unfold newInitializer; infer_instance

instance (c₀ c₁ : Char) : Orderly (coded below c₀ c₁) := by
  unfold coded
  refine Orderly.bind inferInstance fun _ _ => ?_
  split <;> try infer_instance
  -- an operator that has no form of its own
  refine Orderly.bindPair inferInstance fun spelling arity _ _ => ?_
  dsimp only
  split
  · refine Orderly.bind inferInstance fun isStepped _ => ?_
    split
    · infer_instance
    · refine Orderly.bind inferInstance fun xs _ => ?_
      split <;> infer_instance
  · refine Orderly.bind inferInstance fun xs _ => ?_
    split <;> infer_instance

instance : Orderly (vendorExpression below) := by unfold vendorExpression; infer_instance

instance : Orderly (localExpression below) := by unfold localExpression; infer_instance

/-! ### Encodings -/

instance : Orderly (specialName below) := by
  unfold specialName
  refine Orderly.bind inferInstance fun c₀ _ => Orderly.bind inferInstance fun ahead _ =>
    Orderly.bind inferInstance fun c₁ _ => Orderly.bind inferInstance fun _ _ => ?_
  split <;> infer_instance

instance : Orderly (parameters below) := by unfold parameters; infer_instance

instance : Orderly (declaration below) := by
  unfold declaration
  refine Orderly.bindPair inferInstance fun name shape _ _ => Orderly.bind inferInstance fun _ _ =>
    Orderly.bind inferInstance fun isDone _ => ?_
  split
  · refine Orderly.bind inferInstance fun m _ => ?_
    split <;> infer_instance
  · infer_instance

/-! ### The grammar -/

theorem encodingRuleOrderly : Orderly (encodingRule below) := .nested inferInstance

theorem nameRuleOrderly : Orderly (nameRule below) := .nested inferInstance

theorem typeRuleOrderly : Orderly (typeRule below) := by
  refine .nested (.restoring ?_ fun _ _ => inferInstance)
  refine Orderly.bind inferInstance fun _ _ => Orderly.bind inferInstance fun c₀ _ =>
    Orderly.bind inferInstance fun c₁ _ => Orderly.bind inferInstance fun x? placed => ?_
  split
  · have builtin := placed.get
    infer_instance
  · infer_instance

theorem expressionRuleOrderly : Orderly (expressionRule below) := by
  refine .nested (Orderly.bind inferInstance fun isOutermost _ => ?_)
  split
  · refine Orderly.bind inferInstance fun x _ => Orderly.bind inferInstance fun m _ => ?_
    split <;> infer_instance
  · infer_instance

theorem templateArgRuleOrderly : Orderly (templateArgRule below) := by
  unfold templateArgRule
  refine Orderly.bind inferInstance fun c _ => ?_
  split <;> infer_instance

theorem bracedRuleOrderly : Orderly (bracedRule below) := by unfold bracedRule; infer_instance

theorem stepSound : Sound (step below) :=
  ⟨encodingRuleOrderly, nameRuleOrderly, typeRuleOrderly, templateArgRuleOrderly,
    expressionRuleOrderly, bracedRuleOrderly⟩

theorem runSound (levels : Nat) : Sound (run levels) := by
  induction levels with
  | zero =>
    have nothing {α : Type} [Tagging α] : Orderly (throw .exhausted : Rule α) := inferInstance
    exact ⟨nothing, nothing, nothing, nothing, nothing, nothing⟩
  | succ levels ih => exact stepSound

theorem startInPlace : inPlace ({} : Memory) :=
  ⟨rfl, fun _ mem => by simp at mem, fun _ mem => by cases mem⟩

end Grammar

namespace Node
open Grammar

theorem tagsReadInPlace {mangled : List UInt8} {x : Node} (read : ofMangled? mangled = some x) :
    x.tagsInPlace = true := by
  obtain ⟨input, root, t, -, ran, same⟩ := encodingOf read
  have root : Placed root := ⟨((runSound _).encoding.ok startInPlace ran).1⟩
  rcases same with rfl | ⟨suffix, rfl⟩
  · exact treePlaced _
  · exact treePlaced _

/- Tags never reach the root. A tree has the same root without them if they are in place, and those
of a tree that is read always are. -/
theorem tagsInvisible :
    (∀ x : Node, x.tagsInPlace = true → x.untagged.toRoot = x.toRoot) ∧
      ∀ mangled x, ofMangled? mangled = some x → x.tagsInPlace = true :=
  ⟨fun x inPlace => (untaggedAlike x inPlace).root, fun _ _ read => tagsReadInPlace read⟩

def taggedFunction : Node :=
  .function none (.abiTag (.name "f") "v2") [.pointer (.abiTag (.name "S") "cxx11")] {} .none

theorem taggedFunctionAlike :
    taggedFunction.tagsInPlace = true ∧
      taggedFunction.untagged = .function none (.name "f") [.pointer (.name "S")] {} .none ∧
      taggedFunction.untagged.toRoot = taggedFunction.toRoot ∧
      ∃ x, ofMangled? (Text.encode "_Z1fB2v2P1SB5cxx11") = some x ∧ x.tagsInPlace = true := by
  have reads : (ofMangled? (Text.encode "_Z1fB2v2P1SB5cxx11")).isSome = true := by decide +kernel
  obtain ⟨x, read⟩ := Option.isSome_iff_exists.mp reads
  exact ⟨rfl, rfl, tagsInvisible.1 taggedFunction rfl, x, read, tagsInvisible.2 _ _ read⟩

end Node

end CxxSymbols.Itanium
