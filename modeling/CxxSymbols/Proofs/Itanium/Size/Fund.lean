import Mathlib
import CxxSymbols.Itanium.Grammar.Encoding
import CxxSymbols.Proofs.Itanium.Size.Copies
import CxxSymbols.Proofs.Text.Scanner
/-! What a reader has in hand to build a tree from. Each byte is good for two nodes and each unit of
the budget for one. A rule spends at least as much as its tree has nodes that are spelled; what it
takes beyond that pays for the node that a rule around it may put on top. -/
namespace CxxSymbols.Itanium.Grammar
open Scanner Std.Do

set_option mvcgen.warning false

-- What `mvcgen` leaves is about sums of natural numbers. The solvers for other ordered structures
-- are switched off, since looking for instances for them takes most of the time.

/-! ### Spending -/

@[grind =] def fund (s : Cursor Memory) : Nat := 2 * s.rest.length + s.memory.budget

structure Spends (s t : Cursor Memory) (worth : Nat) : Prop where
  reading : t.memory.reading = s.memory.reading
  within : s.memory.reading = .key → worth + fund t ≤ fund s

grind_pattern Spends.reading => Spends s t worth
grind_pattern Spends.within => Spends s t worth
grind_pattern Spends.mk => Spends s t worth

/- What a rule may do to the state, as a shape of assertions. -/
abbrev RuleShape : PostShape := .except Refusal (.arg (Cursor Memory) .pure)

abbrev At (s : Cursor Memory) : Assertion RuleShape := fun now => ⌜now = s⌝

abbrev Leaves {α : Type} (s : Cursor Memory) (worth : α → Nat) : PostCond α RuleShape :=
  ⇓? a t => ⌜Spends s t (worth a)⌝

section Runs
variable {α : Type} {rule : Rule α} {s t : Cursor Memory} {a : α}

theorem tripleOf {R : α → Cursor Memory → Prop} (runs : ∀ a t, rule s = .ok a t → R a t) :
    ⦃At s⦄ rule ⦃⇓? a t => ⌜R a t⌝⦄ := by
  rintro now ⟨⟩
  simp only [wp, PredTrans.apply]
  split
  · rename_i a t ran
    exact runs a t ran
  · exact True.intro

theorem runOf {R : α → Cursor Memory → Prop} (triple : ⦃At s⦄ rule ⦃⇓? a t => ⌜R a t⌝⦄)
    (ran : rule s = .ok a t) : R a t := by
  have holds := triple s rfl
  simp only [wp, PredTrans.apply, EStateM.run, ran] at holds
  exact holds

end Runs

theorem enough {α : Type} {rule : Rule α} {s : Cursor Memory} {worth : α → Nat}
    (leads : ∀ P : α → Cursor Memory → Prop, (∀ a t, Spends s t (worth a) → P a t) →
      ⦃At s⦄ rule ⦃⇓? a t => ⌜P a t⌝⦄) :
    ⦃At s⦄ rule ⦃Leaves s worth⦄ :=
  leads _ fun _ _ spends => spends

/-! ### Scanners -/

@[grind =] def Takes (s t : Cursor Memory) (count : Nat) : Prop :=
  t.memory = s.memory ∧ count + t.rest.length ≤ s.rest.length

section Cursors

@[spec]
theorem restSpec (Q : PostCond (List UInt8) RuleShape) :
    ⦃fun s => Q.1 s.rest s⦄ (rest : Rule (List UInt8)) ⦃Q⦄ := by
  mvcgen [rest]

@[spec]
theorem setRestSpec (bytes : List UInt8) (Q : PostCond Unit RuleShape) :
    ⦃fun s => Q.1 () { s with rest := bytes }⦄ (setRest bytes : Rule Unit) ⦃Q⦄ := by
  mvcgen [setRest]

@[spec]
theorem memorySpec (Q : PostCond Memory RuleShape) :
    ⦃fun s => Q.1 s.memory s⦄ (memory : Rule Memory) ⦃Q⦄ := by
  mvcgen [memory]

@[spec]
theorem alterSpec (f : Memory → Memory) (Q : PostCond Unit RuleShape) :
    ⦃fun s => Q.1 () { s with memory := f s.memory }⦄ (alter f : Rule Unit) ⦃Q⦄ := by
  mvcgen [alter]

@[spec]
theorem peekSpec (Q : PostCond (Option Char) RuleShape) :
    ⦃fun s => Q.1 (s.rest.head?.map Char.ofUInt8) s⦄ (peek : Rule (Option Char)) ⦃Q⦄ := by
  mvcgen [peek]

@[spec]
theorem peekAtSpec (n : Nat) (Q : PostCond (Option Char) RuleShape) :
    ⦃fun s => Q.1 (s.rest[n]?.map Char.ofUInt8) s⦄ (peekAt n : Rule (Option Char)) ⦃Q⦄ := by
  mvcgen [peekAt]

attribute [spec] skip

end Cursors

theorem afterShorter {cs : List Char} {bytes behind : List UInt8}
    (found : after? cs bytes = some behind) : cs.length + behind.length = bytes.length := by
  induction cs generalizing bytes with
  | nil =>
    cases found
    exact Nat.zero_add _
  | cons c cs ih =>
    cases bytes with
    | nil => cases found
    | cons b bytes =>
      rw [after?] at found
      split at found
      · have shorter := ih found
        simp only [List.length_cons]
        omega
      · cases found

@[spec]
theorem acceptSpec (text : String) (s : Cursor Memory) :
    ⦃At s⦄ (accept text : Rule Bool) ⦃⇓? found t => ⌜Takes s t 0 ∧
      (found = true → text ≠ "" → Takes s t 1) ∧
      (found = false → t = s ∧ ∀ c, text.toList = [c] →
        s.rest.head?.map Char.ofUInt8 ≠ some c)⌝⦄ := by
  refine tripleOf fun found t ran => ?_
  cases after : after? text.toList s.rest with
  | none =>
    rw [show accept text s = _ from acceptMissing after s.memory] at ran
    cases ran
    refine ⟨⟨rfl, Nat.le_of_eq (Nat.zero_add _)⟩, nofun, fun _ => ⟨rfl, fun c letter first => ?_⟩⟩
    obtain ⟨b, isFirst, same⟩ := Option.map_eq_some_iff.mp first
    obtain ⟨behind, shape⟩ := List.head?_eq_some_iff.mp isFirst
    rw [letter, shape, afterSingle same] at after
    cases after
  | some behind =>
    rw [show accept text s = _ from acceptFound after s.memory] at ran
    cases ran
    have shorter := afterShorter after
    refine ⟨⟨rfl, ?_⟩, fun _ some => ⟨rfl, ?_⟩, nofun⟩
    · change 0 + behind.length ≤ s.rest.length
      omega
    · have letters : 0 < text.toList.length := by
        rw [List.length_pos_iff]
        exact fun none => some (String.toList_eq_nil_iff.mp none)
      change 1 + behind.length ≤ s.rest.length
      omega

@[spec]
theorem refuseSpec {α : Type} (P : α → Cursor Memory → Prop) :
    ⦃⌜True⌝⦄ (refuse : Rule α) ⦃⇓? a t => ⌜P a t⌝⦄ := by
  mvcgen [refuse]

@[spec]
theorem expectSpec (text : String) (s : Cursor Memory) :
    ⦃At s⦄ (expect text : Rule Unit)
    ⦃⇓? _ t => ⌜Takes s t 0 ∧ (text ≠ "" → Takes s t 1)⌝⦄ := by
  mvcgen [expect] with grind -linarith -order

@[spec]
theorem ofOptionSpec {α : Type} (x : Option α) (s : Cursor Memory) :
    ⦃At s⦄ (ofOption x : Rule α) ⦃⇓? a t => ⌜t = s ∧ x = some a⌝⦄ := by
  refine tripleOf fun a t ran => ?_
  cases x with
  | none => cases ran
  | some x =>
    cases ran
    exact ⟨rfl, rfl⟩

@[grind →]
theorem someLeft {c : Char} {bytes : List UInt8} (first : bytes.head?.map Char.ofUInt8 = some c) :
    1 ≤ bytes.length := by
  cases bytes with
  | nil => cases first
  | cons b bytes => exact Nat.le_add_left 1 bytes.length

@[spec]
theorem currentSpec (s : Cursor Memory) : ⦃At s⦄ (current : Rule Char)
    ⦃⇓? c t => ⌜t = s ∧ s.rest.head?.map Char.ofUInt8 = some c⌝⦄ := by
  mvcgen [current] with grind -linarith -order

/-! ### Numbers and identifiers -/

theorem takenAndLeft (test : UInt8 → Bool) (bytes : List UInt8) :
    (bytes.takeWhile test).length + (bytes.dropWhile test).length = bytes.length := by
  rw [← List.length_append, List.takeWhile_append_dropWhile]

@[spec]
theorem takeWhileSpec (test : UInt8 → Bool) (s : Cursor Memory) :
    ⦃At s⦄ (takeWhile test : Rule (List UInt8)) ⦃⇓? taken t => ⌜t.memory = s.memory ∧
      taken.length + t.rest.length = s.rest.length⌝⦄ := by
  mvcgen [takeWhile] with grind -linarith -order [takenAndLeft]

@[spec]
theorem numberMaybeSpec (s : Cursor Memory) : ⦃At s⦄ (number? : Rule (Option String))
    ⦃⇓? _ t => ⌜Takes s t 0⌝⦄ := by
  mvcgen [number?] with grind -linarith -order [takenAndLeft]

@[spec]
theorem numberSpec (s : Cursor Memory) : ⦃At s⦄ (number : Rule String)
    ⦃⇓? _ t => ⌜Takes s t 0⌝⦄ := by
  mvcgen [number] with grind -linarith -order

@[spec]
theorem naturalMaybeSpec (s : Cursor Memory) : ⦃At s⦄ (natural? : Rule (Option Nat))
    ⦃⇓? n t => ⌜Takes s t 0 ∧ (n.isSome = true → Takes s t 1)⌝⦄ := by
  mvcgen [natural?] with
    grind -linarith -order [takenAndLeft, List.length_eq_zero_iff, List.isEmpty_iff]

@[spec]
theorem naturalSpec (s : Cursor Memory) : ⦃At s⦄ (natural : Rule Nat)
    ⦃⇓? _ t => ⌜Takes s t 1⌝⦄ := by
  mvcgen [natural] with grind -linarith -order

@[spec]
theorem sequenceIdSpec (s : Cursor Memory) : ⦃At s⦄ (sequenceId? : Rule (Option Nat))
    ⦃⇓? _ t => ⌜Takes s t 0⌝⦄ := by
  mvcgen [sequenceId?] with grind -linarith -order

@[spec]
theorem ordinalSpec (s : Cursor Memory) : ⦃At s⦄ (ordinal : Rule Nat)
    ⦃⇓? _ t => ⌜Takes s t 0⌝⦄ := by
  mvcgen [ordinal] with grind -linarith -order

@[spec]
theorem identifierSpec (s : Cursor Memory) : ⦃At s⦄ (identifier : Rule String)
    ⦃Leaves s fun _ => 2⦄ := by
  refine enough fun P enough => ?_
  unfold identifier
  mvcgen
  rename_i start same length t took _ _ _ _
  subst same
  obtain ⟨memory, shorter⟩ := took
  have reading : t.memory.reading = start.memory.reading := congrArg Memory.reading memory
  refine enough _ _ ⟨reading, fun _ => ?_⟩
  change 2 + (2 * (t.rest.drop length).length + t.memory.budget) ≤ fund start
  rw [memory, List.length_drop, fund]
  omega

/-! ### Lexical rules -/

@[spec]
theorem qualifiersSpec (s : Cursor Memory) : ⦃At s⦄ qualifiers ⦃⇓? _ t => ⌜Takes s t 0 ∧
    ∀ c, s.rest.head?.map Char.ofUInt8 = some c → c ∈ ['r', 'V', 'K'] → Takes s t 1⌝⦄ := by
  have isRestrict : "r".toList = ['r'] := rfl
  have isVolatile : "V".toList = ['V'] := rfl
  have isConst : "K".toList = ['K'] := rfl
  mvcgen [qualifiers] with grind -linarith -order

@[spec]
theorem refQualifierSpec (s : Cursor Memory) : ⦃At s⦄ refQualifier ⦃Leaves s fun _ => 0⦄ := by
  refine enough fun P enough => ?_
  mvcgen [refQualifier] with grind -linarith -order

@[spec]
theorem discriminatorSpec (s : Cursor Memory) : ⦃At s⦄ discriminator ⦃Leaves s fun _ => 0⦄ := by
  refine enough fun P enough => ?_
  mvcgen [discriminator] with grind -linarith -order

@[grind =] def Ended (s : Cursor Memory) : Prop :=
  s.rest.head?.map Char.ofUInt8 ∈ [none, some 'E', some '.']

@[spec]
theorem atEncodingEndSpec (s : Cursor Memory) : ⦃At s⦄ atEncodingEnd
    ⦃⇓? isEnd t => ⌜t = s ∧ (isEnd = true → Ended s) ∧ (isEnd = false → ¬Ended s)⌝⦄ := by
  mvcgen [atEncodingEnd] with grind -linarith -order

@[spec]
theorem referSpec (node : Node) (s : Cursor Memory) : ⦃At s⦄ refer node
    ⦃Leaves s fun copy => copy.spelled⦄ := by
  refine enough fun P enough => ?_
  mvcgen [refer]
  rename_i start same isPaid
  subst same
  have taken : start.memory.budget = node.size + (node.charge start.memory.budget).2 := by
    refine chargeTakes node _ _ ?_
    rw [← isPaid]
  have within := spelledWithin node
  refine enough _ _ ⟨rfl, fun _ => ?_⟩
  change node.spelled + (2 * start.rest.length + (node.charge start.memory.budget).2) ≤ fund start
  rw [fund]
  omega

@[spec]
theorem candidateSpec (index : Nat) (s : Cursor Memory) : ⦃At s⦄ candidate index
    ⦃Leaves s fun copy => copy.spelled⦄ := by
  refine enough fun P enough => ?_
  mvcgen [candidate] with grind -linarith -order

@[spec]
theorem substitutionSpec (s : Cursor Memory) : ⦃At s⦄ substitution
    ⦃Leaves s fun node => node.spelled + 1⦄ := by
  refine enough fun P enough => ?_
  mvcgen [substitution] with grind -linarith -order

@[spec]
theorem argumentSpec (index : Nat) (s : Cursor Memory) : ⦃At s⦄ argument index
    ⦃Leaves s fun node => node.spelled - 1⦄ := by
  refine enough fun P enough => ?_
  mvcgen [argument] with grind -linarith -order

@[spec]
theorem templateParamSpec (s : Cursor Memory) : ⦃At s⦄ templateParam
    ⦃Leaves s fun node => node.spelled + 1⦄ := by
  refine enough fun P enough => ?_
  mvcgen [templateParam] with grind -linarith -order

/-! ### Lists -/

section Lists
variable {α : Type} {item : Rule α} {worth : α → Nat}

theorem manyUntilInSpec {stop : Rule Bool} {ending : Bool → Nat}
    (stops : ∀ s, ⦃At s⦄ stop ⦃Leaves s ending⦄) (each : ∀ s, ⦃At s⦄ item ⦃Leaves s worth⦄)
    (rounds : Nat) (s : Cursor Memory) : ⦃At s⦄ manyUntilIn stop item rounds
    ⦃Leaves s fun xs => (xs.map worth).sum + ending true⦄ := by
  induction rounds generalizing s with
  | zero => mvcgen [manyUntilIn]
  | succ rounds ih =>
    refine enough fun P enough => ?_
    mvcgen [manyUntilIn, stops, each, ih] with grind -linarith -order

theorem manyUntilSpec {stop : Rule Bool} {ending : Bool → Nat}
    (stops : ∀ s, ⦃At s⦄ stop ⦃Leaves s ending⦄) (each : ∀ s, ⦃At s⦄ item ⦃Leaves s worth⦄)
    (s : Cursor Memory) : ⦃At s⦄ manyUntil stop item
    ⦃Leaves s fun xs => (xs.map worth).sum + ending true⦄ := by
  have rounds := manyUntilInSpec stops each
  mvcgen [manyUntil, rounds]

theorem manyToSpec {text : String} (some : text ≠ "") (each : ∀ s, ⦃At s⦄ item ⦃Leaves s worth⦄)
    (s : Cursor Memory) :
    ⦃At s⦄ manyTo text item ⦃Leaves s fun xs => (xs.map worth).sum + 2⦄ := by
  have stops (s : Cursor Memory) : ⦃At s⦄ (accept text : Rule Bool)
      ⦃Leaves s fun found => if found then 2 else 0⦄ := by
    mvcgen with grind -linarith -order
  exact manyUntilSpec stops each s

theorem manyAfterSpec {text : String} (each : ∀ s, ⦃At s⦄ item ⦃Leaves s worth⦄)
    (s : Cursor Memory) :
    ⦃At s⦄ manyAfter text item ⦃Leaves s fun xs => (xs.map worth).sum⦄ := by
  have stops (s : Cursor Memory) : ⦃At s⦄ (return !(← accept text) : Rule Bool)
      ⦃Leaves s fun _ => 0⦄ := by
    mvcgen with grind -linarith -order
  exact manyUntilSpec stops each s

end Lists

/-! ### Rules in a frame -/

section Frames
variable {α : Type}

@[spec]
theorem restoringSpec (putBack : Memory → Memory → Memory) (rule : Rule α)
    (Q : PostCond α RuleShape) :
    ⦃fun s => wp⟦rule⟧ (fun a t => Q.1 a { t with memory := putBack s.memory t.memory },
      fun e t => Q.2.1 e { t with memory := putBack s.memory t.memory }, Q.2.2) s⦄
    restoring putBack rule ⦃Q⦄ := by
  intro s holds
  simp only [wp, PredTrans.apply, EStateM.run, restoring] at holds ⊢
  cases ran : rule s with
  | ok a t => simpa only [ran] using holds
  | error e t => simpa only [ran] using holds

theorem asideSpec {rule : Rule α} {worth : α → Nat} (leaves : ∀ s, ⦃At s⦄ rule ⦃Leaves s worth⦄)
    (s : Cursor Memory) : ⦃At s⦄ aside rule ⦃Leaves s worth⦄ := by
  refine enough fun P enough => ?_
  mvcgen [aside, leaves] with grind -linarith -order

theorem nestedSpec {rule : Rule α} {worth : α → Nat} (leaves : ∀ s, ⦃At s⦄ rule ⦃Leaves s worth⦄)
    (s : Cursor Memory) : ⦃At s⦄ nested rule ⦃Leaves s worth⦄ := by
  refine tripleOf fun a t ran => ?_
  simp only [nested] at ran
  split at ran
  · rw [restoring] at ran
    split at ran
    · rename_i b t' inner
      cases ran
      have spends := runOf (leaves _) inner
      exact ⟨spends.reading, spends.within⟩
    · cases ran
  · cases ran

end Frames

/-! ### Identifiers in a row -/

theorem eachTwo {α : Type} (xs : List α) : (xs.map fun _ => 2).sum = 2 * xs.length := by
  rw [List.map_const', List.sum_replicate, smul_eq_mul, Nat.mul_comm]

theorem tagsSpelled (name : Node) (tags : List String) :
    (tags.foldl Node.abiTag name).spelled = name.spelled + tags.length := by
  induction tags generalizing name with
  | nil => rfl
  | cons tag tags ih =>
    rw [List.foldl_cons, ih, Node.spelled, List.length_cons]
    omega

@[spec]
theorem withAbiTagsSpec (name : Node) (s : Cursor Memory) : ⦃At s⦄ withAbiTags name
    ⦃Leaves s fun node => node.spelled - name.spelled⦄ := by
  have tags := asideSpec (@manyAfterSpec _ identifier _ "B" identifierSpec)
  refine enough fun P enough => ?_
  mvcgen [withAbiTags, tags] with grind -linarith -order [tagsSpelled, eachTwo]

end CxxSymbols.Itanium.Grammar
