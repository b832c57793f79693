import CxxSymbols.Proofs.Itanium.Rules
/-! How many calls of the productions are active at once. A grammar may be watched: it is told the
calls that are active, and does something else where they are more than is allowed. What the grammar
reads it also reads when it is watched, whatever is done in place of the calls that are not allowed,
so there are none. -/
namespace CxxSymbols.Itanium.Grammar
open Scanner

def Production.isEntered : Production → Bool
  | encoding | name | type | expression => true
  | templateArg | braced => false

/- The calls of a production that are not made by a call of the same production, among those that are
active, the innermost first. -/
def outermost (q : Production) : List Production → Nat
  | [] => 0
  | p :: active => outermost q active + if p = q ∧ active.head? ≠ some q then 1 else 0

def entered (active : List Production) : Nat := active.countP Production.isEntered

/- No more calls are active than may be nested. Template arguments that are held by template
arguments, as those of packs are, do not count, and neither do designated initializers that are held
by others. -/
def Bounded (active : List Production) : Prop :=
  entered active ≤ maxNesting ∧ ∀ q ∈ [.templateArg, .braced], outermost q active ≤ maxNesting

instance : DecidablePred Bounded := fun _ => inferInstanceAs (Decidable (_ ∧ _))

def watched (allowed : List Production → Prop) [DecidablePred allowed]
    (beyond : List Production → Below) : Nat → List Production → Below
  | 0, _, _ => throw .exhausted
  | levels + 1, active, p =>
    if allowed (p :: active) then step (watched allowed beyond levels (p :: active)) p
    else beyond active p

/-! ### Which calls are made -/

def opened (active : List Production) : Bool := active.head?.any Production.isEntered

structure Steady (active : List Production) : Prop where
  within : entered active ≤ maxNesting
  paired : ∀ q : Production, q.isEntered = false →
    outermost q active + (opened active).toNat ≤ entered active

def MayCall (active : List Production) (p : Production) : Prop :=
  p.isEntered = true ∨ opened active = true ∨ active.head? = some p

theorem productionKinds (q : Production) :
    q.isEntered = true ∨ q = .templateArg ∨ q = .braced := by
  cases q with
  | encoding => exact .inl rfl
  | name => exact .inl rfl
  | type => exact .inl rfl
  | expression => exact .inl rfl
  | templateArg => exact .inr (.inl rfl)
  | braced => exact .inr (.inr rfl)

section Active
variable {active : List Production} {p q : Production}

theorem enteredCons (p : Production) (active : List Production) :
    entered (p :: active) = entered active + p.isEntered.toNat := by
  rw [entered, List.countP_cons, entered]
  cases p.isEntered <;> rfl

theorem steadyBounded (steady : Steady active) : Bounded active := by
  refine ⟨steady.within, fun q mem => ?_⟩
  have outside : q.isEntered = false := by
    rcases List.mem_cons.mp mem with rfl | mem
    · rfl
    · cases List.mem_singleton.mp mem
      rfl
  have paired := steady.paired q outside
  have within := steady.within
  omega

theorem steadyNothing : Steady [] := ⟨Nat.zero_le _, fun _ _ => Nat.le_refl _⟩

theorem steadyEntered (steady : Steady active) (enters : p.isEntered = true)
    (room : entered active < maxNesting) : Steady (p :: active) := by
  have one : entered (p :: active) = entered active + 1 := by
    rw [enteredCons, enters]
    rfl
  refine ⟨one ▸ room, fun q outside => ?_⟩
  have other : p ≠ q := by
    rintro rfl
    rw [enters] at outside
    cases outside
  have innermost : opened (p :: active) = true := enters
  have paired := steady.paired q outside
  rw [outermost, if_neg fun same => other same.1, one, innermost, Bool.toNat_true]
  omega

theorem steadyCalled (steady : Steady active) (outside : p.isEntered = false)
    (called : MayCall active p) : Steady (p :: active) := by
  have same : entered (p :: active) = entered active := by
    rw [enteredCons, outside]
    rfl
  refine ⟨same ▸ steady.within, fun q unentered => ?_⟩
  have innermost : opened (p :: active) = false := outside
  have paired := steady.paired q unentered
  rw [outermost, same, innermost, Bool.toNat_false]
  split
  · rename_i first
    obtain ⟨rfl, apart⟩ := first
    have opens : opened active = true := by
      rcases called with enters | opens | again
      · rw [outside] at enters
        cases enters
      · exact opens
      · exact absurd again apart
    rw [opens, Bool.toNat_true] at paired
    omega
  · omega

end Active

/-! ### The grammar -/

section Watched
variable (beyond : List Production → Below)

theorem runNowhere {levels level : Nat} {p : Production} {y : Rule p.Result}
    (enters : p.isEntered = true) (deep : maxNesting ≤ level) :
    Agree [] level 0 (run (levels + 1) p) y := by
  cases p with
  | encoding => exact .nowhere deep
  | name => exact .nowhere deep
  | type => exact .nowhere deep
  | expression => exact .nowhere deep
  | templateArg => cases enters
  | braced => cases enters

theorem runWatched {levels : Nat} {active : List Production} {p : Production}
    (steady : Steady active) (called : MayCall active p) :
    Agree [] (entered active) 0 (run levels p) (watched Bounded beyond levels active p) := by
  induction levels generalizing active p with
  | zero => exact ⟨fun _ _ ran => by cases ran⟩
  | succ levels ih =>
    by_cases enters : p.isEntered = true
    · by_cases room : entered active < maxNesting
      · have steady := steadyEntered steady enters room
        have calls (q : Production) : Same [] (entered active + 1) (run levels)
            (watched Bounded beyond levels (p :: active)) q := by
          have called : MayCall (p :: active) q := .inr (.inl enters)
          have agree := ih steady called
          rw [enteredCons, enters] at agree
          exact fun left => agree.weaken (Nat.zero_le left)
        rw [watched, if_pos (steadyBounded steady)]
        cases p with
        | encoding => exact encodingRuleAgree calls
        | name => exact nameRuleAgree calls
        | type => exact typeRuleAgree calls
        | expression => exact expressionRuleAgree calls
        | templateArg => cases enters
        | braced => cases enters
      · exact runNowhere enters (Nat.le_of_not_lt room)
    · have outside := Bool.eq_false_iff.mpr enters
      have steady := steadyCalled steady outside called
      have calls (q : Production) (either : q.isEntered = true ∨ q = p) :
          Same [] (entered active) (run levels) (watched Bounded beyond levels (p :: active)) q := by
        have called : MayCall (p :: active) q :=
          either.imp id fun same => .inr (congrArg some same.symm)
        have agree := ih steady called
        rw [enteredCons, outside] at agree
        exact fun left => agree.weaken (Nat.zero_le left)
      rw [watched, if_pos (steadyBounded steady)]
      cases p with
      | templateArg =>
        refine templateArgRuleAgree fun q other => calls q ?_
        exact (productionKinds q).imp id fun kind => kind.resolve_right other
      | braced =>
        refine bracedRuleAgree fun q other => calls q ?_
        exact (productionKinds q).imp id fun kind => kind.resolve_left other
      | encoding => exact absurd rfl enters
      | name => exact absurd rfl enters
      | type => exact absurd rfl enters
      | expression => exact absurd rfl enters

end Watched

theorem encodingWatched (beyond : List Production → Below) {levels : Nat} {input : List UInt8}
    {reading : Reading} {node : Node} {t : Cursor Memory}
    (ran : run levels .encoding ⟨input, { reading }⟩ = .ok node t) :
    watched Bounded beyond levels [] .encoding ⟨input, { reading }⟩ = .ok node t := by
  have reads := ((runWatched beyond steadyNothing (.inl rfl)).ok rfl (Nat.zero_le _) ran).1
  rwa [Cursor.followedByNothing, Cursor.followedByNothing] at reads

end CxxSymbols.Itanium.Grammar

namespace CxxSymbols.Itanium
open Grammar

def Node.ofMangledBy? (encoding : List UInt8 → Rule Node) (reading : Reading)
    (mangled : List UInt8) : Option Node :=
  let underscores := (mangled.takeWhile (· = 95)).length
  if 1 ≤ underscores ∧ underscores ≤ reading.maxUnderscores ∧ mangled[underscores]? = some 90 then
    let input := mangled.drop (underscores + 1)
    match encoding input ⟨input, { reading }⟩ with
    | .error _ _ => none
    | .ok node s =>
      match s.rest with
      | [] => if node.depthWithin maxTreeDepth then some node else none
      | 46 :: _ =>
        let node := .clone node (Text.decodeLossy s.rest)
        if node.depthWithin maxTreeDepth then some node else none
      | _ => none
  else none

theorem mangledByRun (reading : Reading) (mangled : List UInt8) : Node.ofMangledFor? reading mangled =
    Node.ofMangledBy? (fun input => run (levelsFor input) .encoding) reading mangled := rfl

def Node.ofMangledWatched? (allowed : List Production → Prop) [DecidablePred allowed]
    (beyond : List Production → Below) (mangled : List UInt8) : Option Node :=
  ofMangledBy? (fun input => watched allowed beyond (levelsFor input) [] .encoding) .key mangled

/- What is read of a mangled name does not depend on anything that calls beyond the bounds would do:
in reading it the calls that are active stay within them. -/
theorem callsWithinBounds {mangled : List UInt8} {node : Node}
    (read : Node.ofMangled? mangled = some node) (beyond : List Production → Below) :
    Node.ofMangledWatched? Bounded beyond mangled = some node := by
  rw [Node.ofMangled?, mangledByRun] at read
  rw [Node.ofMangledWatched?]
  simp only [Node.ofMangledBy?] at read ⊢
  split at read
  · rename_i front
    rw [if_pos front]
    split at read
    · cases read
    · rename_i root t ran
      have agrees := encodingWatched beyond ran
      simp only [agrees]
      exact read
  · cases read

theorem packWithinBounds : ∃ node, Node.ofMangled? (Text.encode "_Z1fIJiEEvi") = some node ∧
    Node.ofMangledWatched? Bounded (fun _ _ => throw .mismatch) (Text.encode "_Z1fIJiEEvi") =
      some node := by
  have reads : (Node.ofMangled? (Text.encode "_Z1fIJiEEvi")).isSome = true := by
    decide +kernel
  obtain ⟨node, read⟩ := Option.isSome_iff_exists.mp reads
  exact ⟨node, read, callsWithinBounds read _⟩

end CxxSymbols.Itanium
