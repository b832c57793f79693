import CxxSymbols.Mangled
import CxxSymbols.Proofs.Itanium.Rules
import CxxSymbols.Proofs.Text.Utf8
/-! Clones of a function have its key. What a compiler adds behind a dot is taken off, or some of
it, or none. What stays is no part of the encoding, because every rule of the grammar takes a dot
for the end, and the node that keeps it has no form of its own. -/
namespace CxxSymbols.Itanium
open Grammar

variable {tail : List UInt8} [ends : Appendix tail]

namespace Grammar

/- With more to be read there are more levels. They are not needed. -/
theorem runBefore {levels more : Nat} (enough : levels ≤ more) (level : Nat) (p : Production) :
    Agree tail level 0 (run levels p) (run more p) := by
  induction levels generalizing more level p with
  | zero => exact ⟨fun _ _ ran => by cases ran⟩
  | succ levels ih =>
    obtain ⟨more, rfl⟩ := Nat.exists_eq_add_one_of_ne_zero (Nat.ne_zero_of_lt enough)
    have calls (level : Nat) (q : Production) : Same tail level (run levels) (run more) q :=
      fun left => (ih (Nat.le_of_succ_le_succ enough) level q).weaken (Nat.zero_le left)
    cases p with
    | encoding => exact encodingRuleAgree (calls (level + 1))
    | name => exact nameRuleAgree (calls (level + 1))
    | type => exact typeRuleAgree (calls (level + 1))
    | expression => exact expressionRuleAgree (calls (level + 1))
    | templateArg => exact templateArgRuleAgree fun q _ => calls level q
    | braced => exact bracedRuleAgree fun q _ => calls level q

theorem encodingBefore {input : List UInt8} {reading : Reading} {node : Node} {t : Cursor Memory}
    (ran : run (levelsFor input) .encoding ⟨input, { reading }⟩ = .ok node t) :
    run (levelsFor (input ++ tail)) .encoding ⟨input ++ tail, { reading }⟩ =
      .ok node (t.followedBy tail) := by
  have enough : levelsFor input ≤ levelsFor (input ++ tail) := by
    rw [levelsFor, levelsFor, List.length_append]
    omega
  exact ((runBefore enough 0 .encoding).ok rfl (Nat.zero_le _) ran).1

end Grammar

namespace Node

theorem cloneRoot (base : Node) (suffix : String) : (clone base suffix).toRoot = base.toRoot := by
  rw [toRoot]

theorem cloneDepth (base : Node) (suffix : String) (limit : Nat) :
    (clone base suffix).depthWithin (limit + 1) = base.depthWithin limit := by
  rw [depthWithin]

def ended (base : Node) (rest : List UInt8) : Option Node :=
  match rest with
  | [] => if base.depthWithin maxTreeDepth then some base else none
  | 46 :: _ =>
    let node := clone base (Text.decodeLossy rest)
    if node.depthWithin maxTreeDepth then some node else none
  | _ => none

theorem endedAtDot (base : Node) (more : List UInt8) :
    ended base (46 :: more) = if base.depthWithin (maxTreeDepth - 1) then
      some (clone base (Text.decodeLossy (46 :: more))) else none := by
  rw [ended, show maxTreeDepth = maxTreeDepth - 1 + 1 from rfl, cloneDepth]
  rfl

theorem endedBefore {base node : Node} {rest : List UInt8} (read : ended base rest = some node)
    (shallow : node.depthWithin (maxTreeDepth - 1) = true) :
    ∃ node', ended base (rest ++ tail) = some node' ∧ node'.toRoot = node.toRoot := by
  unfold ended at read
  split at read
  · split at read
    · cases read
      cases tail with
      | nil => exact ⟨_, if_pos ‹_›, rfl⟩
      | cons b tail =>
        obtain rfl := ends.dot b rfl
        rw [List.nil_append, endedAtDot, if_pos shallow]
        exact ⟨_, rfl, cloneRoot _ _⟩
    · cases read
  · rename_i more
    have read : ended base (46 :: more) = some node := read
    rw [endedAtDot] at read
    split at read
    · rename_i deep
      cases read
      rw [List.cons_append, endedAtDot, if_pos deep]
      exact ⟨_, rfl, by rw [cloneRoot, cloneRoot]⟩
    · cases read
  · cases read

theorem mangledBefore {mangled : List UInt8} {node : Node}
    (read : ofMangled? mangled = some node)
    (shallow : node.depthWithin (maxTreeDepth - 1) = true) :
    ∃ node', ofMangled? (mangled ++ tail) = some node' ∧ node'.toRoot = node.toRoot := by
  have stop : ∀ b ∈ tail.head?, decide (b = 95) = false := appendixStops rfl
  rw [ofMangled?, ofMangledFor?] at read ⊢
  rw [(Scanner.stretchBefore stop mangled).1]
  generalize (mangled.takeWhile fun b => decide (b = 95)).length = underscores at read ⊢
  dsimp only at read ⊢
  split at read
  · rename_i front
    have inside : underscores < mangled.length := (List.getElem?_eq_some_iff.mp front.2.2).1
    rw [List.getElem?_append_left inside, if_pos front, List.drop_append_of_le_length inside]
    split at read
    · cases read
    · rename_i base t ran
      rw [encodingBefore ran]
      exact endedBefore read shallow
  · cases read

end Node
end CxxSymbols.Itanium

namespace CxxSymbols.Mangled

/-! ### Suffixes -/

section Suffixes
variable {raw tail front text before behind name : List Char}

theorem splitAtLastSource (split : splitAtLast? text name = some (before, behind)) :
    name = before ++ (text ++ behind) := by
  induction name generalizing before with
  | nil => cases split
  | cons c cs ih =>
    rw [splitAtLast?] at split
    split at split
    · rename_i front rest further
      cases split
      rw [List.cons_append, ← ih further]
    · split at split
      · rename_i starts
        cases split
        obtain ⟨rest, same⟩ := List.isPrefixOf_iff_prefix.mp starts
        rw [List.nil_append, ← same, List.drop_left]
      · cases split

theorem cutAtDot (plain : '.' ∉ raw) {more : List Char}
    (cut : raw ++ tail = before ++ '.' :: more) : ∃ front, front <+: tail ∧ before = raw ++ front := by
  rcases List.append_eq_append_iff.mp cut with ⟨front, rfl, rfl⟩ | ⟨rest, rfl, same⟩
  · exact ⟨front, List.prefix_append _ _, rfl⟩
  · cases rest with
    | nil => exact ⟨[], List.nil_prefix, by simp⟩
    | cons c rest =>
      obtain ⟨rfl, -⟩ := List.cons.inj same
      exact absurd (List.mem_append_right before List.mem_cons_self) plain

def Leaves (raw tail name : List Char) : Prop := ∃ front, front <+: tail ∧ name = raw ++ front

theorem cutSuffixLeaves (plain : '.' ∉ raw) {suffix : List Char} (dot : suffix.head? = some '.')
    (leaves : Leaves raw tail name) : Leaves raw tail (cutSuffix name suffix) := by
  unfold cutSuffix
  split
  · rename_i before behind split
    split
    · obtain ⟨front, inside, rfl⟩ := leaves
      obtain ⟨more, rfl⟩ := List.head?_eq_some_iff.mp dot
      obtain ⟨kept, within, same⟩ := cutAtDot plain (splitAtLastSource split)
      exact ⟨kept, within.trans inside, same⟩
    · exact leaves
  · exact leaves

theorem cutColdLeaves (plain : '.' ∉ raw) (leaves : Leaves raw tail name) :
    Leaves raw tail (cutCold name) := by
  unfold cutCold
  split
  · rename_i ends
    obtain ⟨front, inside, rfl⟩ := leaves
    obtain ⟨before, same⟩ := List.isSuffixOf_iff_suffix.mp ends
    obtain ⟨kept, within, cut⟩ := cutAtDot plain same.symm
    have left : (before ++ ".cold".toList).length - ".cold".length = before.length := by
      rw [List.length_append]
      exact Nat.add_sub_cancel _ _
    rw [← same, left, List.take_left]
    exact ⟨kept, within.trans inside, cut⟩
  · exact leaves

theorem suffixesLeave (plain : '.' ∉ raw) {suffixes : List (List Char)}
    (dots : ∀ suffix ∈ suffixes, suffix.head? = some '.') (leaves : Leaves raw tail name) :
    Leaves raw tail (suffixes.foldl cutSuffix name) := by
  induction suffixes generalizing name with
  | nil => exact leaves
  | cons suffix suffixes ih =>
    exact ih (fun s mem => dots s (List.mem_cons_of_mem _ mem))
      (cutSuffixLeaves plain (dots suffix List.mem_cons_self) leaves)

end Suffixes

theorem strippedLeaves {raw : String} (plain : '.' ∉ raw.toList) (tail : String) :
    ∃ front : String, front.toList <+: tail.toList ∧
      withoutCloneSuffixes (raw ++ tail) = raw ++ front := by
  have dots : ∀ suffix ∈ numberedSuffixes.map String.toList, suffix.head? = some '.' := by decide
  have whole : Leaves raw.toList tail.toList (raw ++ tail).toList :=
    ⟨_, List.prefix_refl _, String.toList_append⟩
  obtain ⟨front, inside, same⟩ := cutColdLeaves plain (suffixesLeave plain dots whole)
  refine ⟨String.ofList front, by rwa [String.toList_ofList], ?_⟩
  rw [withoutCloneSuffixes, same, String.ofList_append, String.ofList_toList]

theorem strippedPlain {raw : String} (plain : '.' ∉ raw.toList) :
    withoutCloneSuffixes raw = raw := by
  obtain ⟨front, inside, same⟩ := strippedLeaves plain ""
  obtain rfl : front = "" := String.toList_eq_nil_iff.mp (List.prefix_nil.mp inside)
  rwa [String.append_empty] at same

theorem schemeBefore {raw front : String} (itanium : scheme? raw = some .itanium)
    (dot : ∀ c ∈ front.toList.head?, c = '.') : scheme? (raw ++ front) = some .itanium := by
  have stop : ∀ c ∈ front.toList.head?, decide (c = '_') = false := by
    intro c first
    rw [dot c first]
    rfl
  unfold scheme? at itanium ⊢
  rw [String.toList_append]
  dsimp only at itanium ⊢
  rw [(Scanner.stretchBefore stop raw.toList).1, List.drop_append_of_le_length
    (List.takeWhile_sublist _).length_le]
  split at itanium
  · rename_i more rest
    rw [rest]
    exact itanium
  · split at itanium <;> cases itanium
  · cases itanium

theorem decodeItanium {raw name : String} {node : Itanium.Node}
    (stripped : withoutCloneSuffixes raw = name) (itanium : scheme? name = some .itanium)
    (read : Itanium.Node.ofMangled? (Text.encode name) = some node) :
    decode raw = .ok node.toRoot := by
  unfold decode
  dsimp only
  rw [stripped]
  split
  · rename_i unknown
    cases unknown.symm.trans itanium
  · split
    · rename_i node' reads
      cases reads.symm.trans read
      rfl
    · rename_i unread
      cases unread.symm.trans read
  · rename_i other
    cases other.symm.trans itanium

theorem encodeDot {front : String} (dot : ∀ c ∈ front.toList.head?, c = '.') :
    Itanium.Grammar.Appendix (Text.encode front) where
  dot b first := by
    rw [Text.encodeChars] at first
    cases chars : front.toList with
    | nil =>
      rw [chars] at first
      cases first
    | cons c cs =>
      obtain rfl := dot c (by rw [chars]; rfl)
      rw [chars] at first
      exact (Option.some.inj first).symm

/- A clone has the key of the function that it is one of, whatever stands behind the dot. -/
theorem clonesShareKey {raw : String} {node : Itanium.Node} (plain : '.' ∉ raw.toList)
    (itanium : scheme? raw = some .itanium)
    (read : Itanium.Node.ofMangled? (Text.encode raw) = some node)
    (shallow : node.depthWithin (Itanium.Grammar.maxTreeDepth - 1) = true) (t : String) :
    decodeKey (raw ++ "." ++ t) = decodeKey raw ∧
      decodeKey raw = .ok (node.toRoot.key, node.toRoot.kind) := by
  obtain ⟨front, inside, stripped⟩ := strippedLeaves plain ("." ++ t)
  rw [← String.append_assoc] at stripped
  have dot : ∀ c ∈ front.toList.head?, c = '.' := by
    intro c first
    obtain ⟨cs, chars⟩ := List.head?_eq_some_iff.mp first
    rw [chars, String.toList_append] at inside
    exact (List.cons_prefix_cons.mp inside).1
  have := encodeDot dot
  obtain ⟨node', reads, root⟩ := @Itanium.Node.mangledBefore (Text.encode front) _ _ _ read shallow
  rw [← Text.encodeAppend] at reads
  have own := decodeItanium (strippedPlain plain) itanium read
  have clone := decodeItanium stripped (schemeBefore itanium dot) reads
  rw [decodeKey, decodeKey, own, clone, root]
  exact ⟨rfl, rfl⟩

theorem plainClonesShareKey :
    withoutCloneSuffixes "_Z1fv.isra.0" = "_Z1fv" ∧
      withoutCloneSuffixes "_Z1fv.warm.part.2.cold" = "_Z1fv.warm" ∧
      withoutCloneSuffixes "_Z1fv.warm" = "_Z1fv.warm" ∧
      ∀ t ∈ ["isra.0", "warm.part.2.cold", "warm"],
        decodeKey ("_Z1fv" ++ "." ++ t) = decodeKey "_Z1fv" ∧
          (decodeKey "_Z1fv").toOption.isSome := by
  have reads : ((Itanium.Node.ofMangled? (Text.encode "_Z1fv")).any fun node =>
      node.depthWithin (Itanium.Grammar.maxTreeDepth - 1)) = true := by decide +kernel
  obtain ⟨node, read, shallow⟩ := (Option.any_eq_true _ _).mp reads
  refine ⟨by decide +kernel, by decide +kernel, by decide +kernel, fun t _ => ?_⟩
  obtain ⟨same, own⟩ := clonesShareKey (by decide) (by decide +kernel) read shallow t
  exact ⟨same, by rw [own]; rfl⟩

end CxxSymbols.Mangled
