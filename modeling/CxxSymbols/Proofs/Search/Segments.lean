import CxxSymbols.Proofs.Search.Operator
import CxxSymbols.Proofs.Search.Runs
import Mathlib.Data.List.SplitBy
/-! The segments of a run. Between two characters of a run a segment ends if one of them is an
underscore or the second one is of a kind that a segment begins with. The scan for segments finds
what the run falls into there, with the underscores left out, and where each of them stands. -/
namespace CxxSymbols.Search

def Turns (a b : Char) : Prop :=
  (b.isUpper = true ∧ a.isUpper = false) ∨ (b.isDigit = true ∧ a.isDigit = false)

theorem turnsBegins {a b : Char} : beginsAfter a b = true ↔ Turns a b := by
  simp [beginsAfter, Turns]

def together (a b : Char) : Bool := a ≠ '_' && b ≠ '_' && !beginsAfter a b

theorem togetherApart {a b : Char} (apart : together a b = false) :
    a = '_' ∨ b = '_' ∨ Turns a b := by
  rw [← turnsBegins]
  simpa [together, or_iff_not_imp_left] using apart

theorem togetherTurns {a b : Char} (joined : together a b = true) : ¬Turns a b := by
  rw [← turnsBegins]
  simp only [together, Bool.and_eq_true, Bool.not_eq_true'] at joined
  exact Bool.eq_false_iff.mp joined.2

def stretches (run : List Char) : List (List Char) :=
  (run.splitBy together).filter fun part => part ≠ ['_']

/-! ### Parts and their places -/

def placed (place : Nat) : List (List Char) → List (Nat × List Char)
  | [] => []
  | part :: parts => (place, part) :: placed (place + part.length) parts

section Placed
variable {place : Nat} {parts : List (List Char)}

theorem placedParts (place : Nat) (parts : List (List Char)) :
    (placed place parts).map Prod.snd = parts := by
  induction parts generalizing place with
  | nil => rfl
  | cons part parts ih => rw [placed, List.map_cons, ih]

theorem placedAppend (place : Nat) (front back : List (List Char)) :
    placed place (front ++ back) = placed place front ++
      placed (place + front.flatten.length) back := by
  induction front generalizing place with
  | nil => rfl
  | cons part front ih =>
    rw [List.cons_append, placed, ih, placed, List.cons_append, List.flatten_cons,
      List.length_append, Nat.add_assoc]

theorem placedAscend (place : Nat) (parts : List (List Char)) :
    (∀ e ∈ placed place parts, place ≤ e.1) ∧
      (placed place parts).Pairwise fun a b => a.1 + a.2.length ≤ b.1 := by
  induction parts generalizing place with
  | nil => exact ⟨List.forall_mem_nil _, .nil⟩
  | cons part parts ih =>
    obtain ⟨behind, ascend⟩ := ih (place + part.length)
    refine ⟨List.forall_mem_cons.mpr ⟨Nat.le_refl _, fun e mem => ?_⟩,
      List.pairwise_cons.mpr ⟨behind, ascend⟩⟩
    exact Nat.le_trans (Nat.le_add_right _ _) (behind e mem)

theorem placedBetween {e : Nat × List Char} (mem : e ∈ placed place parts) :
    ∃ front back, parts = front ++ e.2 :: back ∧ e.1 = place + front.flatten.length := by
  induction parts generalizing place with
  | nil => cases mem
  | cons part parts ih =>
    rcases List.mem_cons.mp mem with rfl | mem
    · exact ⟨[], parts, rfl, rfl⟩
    · obtain ⟨front, back, rfl, here⟩ := ih mem
      refine ⟨part :: front, back, rfl, ?_⟩
      rw [here, List.flatten_cons, List.length_append, Nat.add_assoc]

end Placed

/-! ### The scan -/

def kept (entries : List (Nat × List Char)) : List (Nat × List Char) :=
  entries.filter fun e => e.2 ≠ ['_']

/- A segment that has begun, with its characters in reverse, and what stands before the place. -/
structure Open (place : Nat) (before : Option Char) (segment : List Char) : Prop where
  within : segment.length ≤ place
  last : ∀ c ∈ segment.head?, before = some c
  plain : '_' ∉ segment
  joined : segment.reverse.IsChain fun a b => together a b

theorem openNothing (place : Nat) (before : Option Char) : Open place before [] where
  within := Nat.zero_le place
  last := fun _ first => nomatch first
  plain := List.not_mem_nil
  joined := .nil

section Scan
variable {place : Nat} {before : Option Char} {segment : List Char}

theorem keptAppend (front back : List (Nat × List Char)) :
    kept (front ++ back) = kept front ++ kept back := List.filter_append ..

theorem segmentClosed (state : Open place before segment) : closeSegment place segment =
    kept (placed (place - segment.length) (segment.reverse.splitBy together)) := by
  by_cases nothing : segment = []
  · obtain rfl := nothing
    rfl
  · have other : segment.reverse ≠ ['_'] := by
      intro same
      exact state.plain (List.mem_reverse.mp (same ▸ List.mem_cons_self))
    rw [List.splitBy_of_isChain (List.reverse_eq_nil_iff.not.mpr nothing) state.joined]
    simp [closeSegment, nothing, placed, kept, other]

theorem segmentsCut (state : Open place before segment) {c : Char} {rest : List Char}
    (apart : ∀ b ∈ segment.head?, together b c = false) :
    kept (placed (place - segment.length) ((segment.reverse ++ c :: rest).splitBy together)) =
      closeSegment place segment ++ kept (placed place ((c :: rest).splitBy together)) := by
  have cut : ∀ b ∈ segment.reverse.getLast?, together b c = false := by
    rwa [List.getLast?_reverse]
  rw [List.splitBy_append_cons _ cut, placedAppend, keptAppend, ← segmentClosed state,
    List.flatten_splitBy, List.length_reverse, Nat.sub_add_cancel state.within]

theorem segmentsPlaced (state : Open place before segment) (rest : List Char) :
    segmentsFrom place before segment rest =
      kept (placed (place - segment.length) ((segment.reverse ++ rest).splitBy together)) := by
  induction rest generalizing place before segment with
  | nil => rw [segmentsFrom, segmentClosed state, List.append_nil]
  | cons c rest ih =>
    rw [segmentsFrom]
    by_cases underscore : c = '_'
    · obtain rfl := underscore
      have alone : ('_' :: rest).splitBy together = ['_'] :: rest.splitBy together :=
        List.splitBy_append (l := ['_']) fun a first b _ => by
          cases first
          rfl
      rw [if_pos rfl, ih (openNothing _ _), segmentsCut state fun b _ => by simp [together], alone]
      rfl
    · rw [if_neg underscore]
      by_cases turns : before.any (beginsAfter · c) = true
      · have next : Open (place + 1) (some c) [c] :=
          ⟨Nat.le_add_left 1 place, fun d first => first, by simpa using Ne.symm underscore,
            .singleton c⟩
        have apart : ∀ b ∈ segment.head?, together b c = false := by
          intro b first
          rw [state.last b first, Option.any_some] at turns
          simp [together, turns]
        rw [if_pos turns, ih next, segmentsCut state apart]
        rfl
      · have next : Open (place + 1) (some c) (c :: segment) := by
          refine ⟨Nat.succ_le_succ state.within, fun d first => first, ?_, ?_⟩
          · simpa [Ne.symm underscore] using state.plain
          · rw [List.reverse_cons, List.isChain_append]
            refine ⟨state.joined, .singleton c, fun b last d first => ?_⟩
            cases first
            rw [List.getLast?_reverse] at last
            have other : b ≠ '_' := by
              rintro rfl
              exact state.plain (List.mem_of_mem_head? last)
            rw [state.last b last, Option.any_some] at turns
            simp [together, other, underscore, turns]
        rw [if_neg turns, ih next, List.length_cons, Nat.add_sub_add_right, List.reverse_cons,
          List.append_assoc, List.singleton_append]

end Scan

theorem segmentsOfRun {run : List Char} (name : run.head? ≠ some '$') :
    segments run = kept (placed 0 (run.splitBy together)) := by
  rw [segments, if_neg name]
  exact segmentsPlaced (openNothing 0 none) run

/-! ### Segments -/

def Cut (front back : List Char) : Prop :=
  ∀ a ∈ front.getLast?, ∀ b ∈ back.head?, a = '_' ∨ b = '_' ∨ Turns a b

structure IsSegment (front segment back : List Char) : Prop where
  some : segment ≠ []
  plain : '_' ∉ segment
  steady : segment.IsChain fun a b => ¬Turns a b
  begins : Cut front segment
  ends : Cut segment back

section Segments
variable {run part : List Char}

theorem cutBetween {front back : List (List Char)} (some : [] ∉ front ++ back)
    (apart : (front ++ back).IsChain fun a b =>
      ∃ ha hb, together (a.getLast ha) (b.head hb) = false) :
    Cut front.flatten back.flatten := by
  have across := (List.isChain_append.mp apart).2.2
  rcases List.eq_nil_or_concat front with rfl | ⟨init, p, rfl⟩
  · exact fun a last => nomatch last
  · cases back with
    | nil => exact fun a _ b first => nomatch first
    | cons q back =>
      obtain ⟨hp, hq, cut⟩ := across p (by simp) q rfl
      intro a last b first
      rw [List.concat_eq_append, List.flatten_append, List.flatten_singleton,
        List.getLast?_append_of_ne_nil _ hp, List.getLast?_eq_some_getLast hp] at last
      rw [List.flatten_cons, List.head?_append_of_ne_nil _ hq, List.head?_eq_some_head hq] at first
      cases last
      cases first
      exact togetherApart cut

theorem chainPlain (joined : part.IsChain fun a b => together a b) (other : part ≠ ['_']) :
    '_' ∉ part := by
  intro mem
  obtain ⟨front, back, rfl⟩ := List.append_of_mem mem
  obtain ⟨_, behind, across⟩ := List.isChain_append.mp joined
  cases back with
  | cons b back => exact absurd (List.isChain_cons_cons.mp behind).1 (by simp [together])
  | nil =>
    cases last : front.getLast? with
    | some a => exact absurd (across a last '_' rfl) (by simp [together])
    | none =>
      rw [List.getLast?_eq_none_iff.mp last] at other
      exact other rfl

theorem keptSegment {e : Nat × List Char} (mem : e ∈ kept (placed 0 (run.splitBy together))) :
    ∃ front back, run = front ++ e.2 ++ back ∧ e.1 = front.length ∧ IsSegment front e.2 back := by
  obtain ⟨mem, other⟩ := List.mem_filter.mp mem
  obtain ⟨front, back, parts, here⟩ := placedBetween mem
  have joined : e.2.IsChain fun a b => together a b :=
    List.isChain_of_mem_splitBy (parts ▸ List.mem_append_right _ List.mem_cons_self)
  have apart := List.isChain_getLast_head_splitBy together run
  have nonempty := List.nil_notMem_splitBy together run
  have flat := List.flatten_splitBy together run
  rw [parts] at apart nonempty flat
  have some : e.2 ≠ [] := fun none => nonempty (by simp [none])
  have begins : Cut front.flatten (e.2 ++ back.flatten) := cutBetween nonempty apart
  have ends : Cut (front.flatten ++ e.2) back.flatten := by
    have cut : Cut (front ++ [e.2]).flatten back.flatten :=
      cutBetween (by simpa using nonempty) (by simpa using apart)
    simpa using cut
  refine ⟨front.flatten, back.flatten, ?_, here.trans (Nat.zero_add _), ?_⟩
  · rw [← flat, List.flatten_append, List.flatten_cons, List.append_assoc]
  · refine ⟨some, chainPlain joined (by simpa using other), ?_, ?_, ?_⟩
    · exact joined.imp fun a b => togetherTurns
    · rwa [Cut, List.head?_append_of_ne_nil _ some] at begins
    · rwa [Cut, List.getLast?_append_of_ne_nil _ some] at ends

end Segments

/-! ### Sub-tokens -/

structure Subtokens (start : Nat) (run : List Char) (subs : List Token) : Prop where
  emitted : subs ≠ [] ↔ run.head? ≠ some '$' ∧ 2 ≤ (stretches run).length
  texts : subs ≠ [] → subs.map (fun t => t.text.toList) = stretches run
  joined : subs ≠ [] → subs.flatMap (fun t => t.text.toList) = run.filter (· ≠ '_')
  ascend : subs.Pairwise fun a b => a.stop ≤ b.start
  between : ∀ t ∈ subs, ∃ front segment back, run = front ++ segment ++ back ∧
    IsSegment front segment back ∧ t = .at (start + widthOf front) segment

def subtokens (start : Nat) (run : List Char) : List Token :=
  if 1 < (segments run).length
  then (segments run).map fun (place, segment) => .at (start + place) segment else []

section Subtokens
variable {start : Nat} {run : List Char}

theorem runTokensCut : runTokens start run = .at start run :: subtokens start run := rfl

theorem widthOfName {c : Char} (name : isNameChar c = true) : c.utf8Size = 1 := by
  refine Char.utf8Size_eq_one_iff.mpr (UInt32.le_iff_toNat_le.mpr ?_)
  have small : c.toNat ≤ 127 := by
    rcases nameCode name with upper | lower | digit | rfl | rfl
    · omega
    · omega
    · omega
    · decide
    · decide
  exact small

theorem widthOfNames {cs : List Char} (names : ∀ c ∈ cs, isNameChar c = true) :
    widthOf cs = cs.length := by
  induction cs with
  | nil => rfl
  | cons c cs ih =>
    obtain ⟨first, others⟩ := List.forall_mem_cons.mp names
    rw [widthOf, widthOfName first, ih others, List.length_cons, Nat.add_comm]

theorem keptTexts (parts : List (List Char)) :
    (kept (placed 0 parts)).map Prod.snd = parts.filter fun part => part ≠ ['_'] := by
  have whole := congrArg (List.filter fun part => part ≠ ['_']) (placedParts 0 parts)
  rwa [List.filter_map] at whole

theorem partsJoined {parts : List (List Char)} (plain : ∀ part ∈ parts, part ≠ ['_'] → '_' ∉ part) :
    (parts.filter fun part => part ≠ ['_']).flatten = parts.flatten.filter (· ≠ '_') := by
  induction parts with
  | nil => rfl
  | cons part parts ih =>
    obtain ⟨first, others⟩ := List.forall_mem_cons.mp plain
    rw [List.flatten_cons, List.filter_append, ← ih others]
    by_cases alone : part = ['_']
    · simp [alone]
    · have whole : part.filter (· ≠ '_') = part := by
        refine List.filter_eq_self.mpr fun c mem => decide_eq_true ?_
        rintro rfl
        exact first alone mem
      rw [List.filter_cons_of_pos (by simpa using alone), List.flatten_cons, whole]

theorem stretchesJoined (run : List Char) : (stretches run).flatten = run.filter (· ≠ '_') := by
  have joined := @partsJoined (run.splitBy together) fun part mem other =>
    chainPlain (List.isChain_of_mem_splitBy mem) other
  rwa [List.flatten_splitBy] at joined

theorem segmentsTexts (name : run.head? ≠ some '$') :
    (segments run).map Prod.snd = stretches run := by
  rw [segmentsOfRun name, keptTexts, stretches]

theorem segmentsOfPlaceholder (placeholder : run.head? = some '$') : segments run = [] := by
  rw [segments, if_pos placeholder]

theorem segmentsBetween (names : ∀ c ∈ run, isNameChar c = true) {e : Nat × List Char}
    (mem : e ∈ segments run) :
    ∃ front back, run = front ++ e.2 ++ back ∧ e.1 = widthOf front ∧
      widthOf e.2 = e.2.length ∧ IsSegment front e.2 back := by
  by_cases placeholder : run.head? = some '$'
  · rw [segmentsOfPlaceholder placeholder] at mem
    cases mem
  · rw [segmentsOfRun placeholder] at mem
    obtain ⟨front, back, rfl, here, segment⟩ := keptSegment mem
    have inFront : ∀ c ∈ front, isNameChar c = true := fun c held => names c (by simp [held])
    have within : ∀ c ∈ e.2, isNameChar c = true := fun c held => names c (by simp [held])
    exact ⟨front, back, rfl, here.trans (widthOfNames inFront).symm, widthOfNames within, segment⟩

theorem segmentsAscend (names : ∀ c ∈ run, isNameChar c = true) :
    (segments run).Pairwise fun a b => a.1 + widthOf a.2 ≤ b.1 := by
  have counted : (segments run).Pairwise fun a b => a.1 + a.2.length ≤ b.1 := by
    by_cases placeholder : run.head? = some '$'
    · rw [segmentsOfPlaceholder placeholder]
      exact .nil
    · rw [segmentsOfRun placeholder]
      exact (placedAscend 0 _).2.filter _
  refine counted.imp_of_mem fun {a b} mem _ behind => ?_
  obtain ⟨_, _, _, _, width, _⟩ := segmentsBetween names mem
  rwa [width]

theorem textsAt (start : Nat) (entries : List (Nat × List Char)) :
    (entries.map fun (place, segment) => Token.at (start + place) segment).map
      (fun t => t.text.toList) = entries.map Prod.snd := by
  rw [List.map_map]
  exact List.map_congr_left fun e _ => String.toList_ofList

theorem subtokensOfRun (start : Nat) (names : ∀ c ∈ run, isNameChar c = true) :
    Subtokens start run (subtokens start run) := by
  by_cases several : 1 < (segments run).length
  · have name : run.head? ≠ some '$' := by
      intro placeholder
      rw [segmentsOfPlaceholder placeholder] at several
      cases several
    have same : subtokens start run = (segments run).map fun (place, segment) =>
        Token.at (start + place) segment := if_pos several
    have written : (subtokens start run).map (fun t => t.text.toList) = stretches run := by
      rw [same, textsAt, segmentsTexts name]
    have count : (subtokens start run).length = (stretches run).length := by
      rw [← written, List.length_map]
    have more : 2 ≤ (stretches run).length := by
      rwa [← count, same, List.length_map]
    refine ⟨iff_of_true (List.ne_nil_of_length_pos (by omega)) ⟨name, more⟩, fun _ => written,
      fun _ => ?_, ?_, fun t mem => ?_⟩
    · rw [← stretchesJoined, ← written, List.flatMap_def]
    · rw [same, List.pairwise_map]
      refine (segmentsAscend names).imp fun {a b} behind => ?_
      simp only [Token.at, Nat.add_assoc]
      exact Nat.add_le_add_left behind start
    · rw [same] at mem
      obtain ⟨e, held, rfl⟩ := List.mem_map.mp mem
      obtain ⟨front, back, whole, here, _, segment⟩ := segmentsBetween names held
      exact ⟨front, e.2, back, whole, segment, by rw [← here]⟩
  · have none : subtokens start run = [] := if_neg several
    rw [none]
    refine ⟨iff_of_false (fun some => some rfl) ?_, fun some => absurd rfl some,
      fun some => absurd rfl some, .nil, List.forall_mem_nil _⟩
    rintro ⟨name, more⟩
    rw [← segmentsTexts name, List.length_map] at more
    exact several more

end Subtokens

end CxxSymbols.Search
