import CxxSymbols.Proofs.Itanium.Mangling
import CxxSymbols.Proofs.Itanium.Node
import CxxSymbols.Proofs.Text.Scanner
import CxxSymbols.Proofs.Text.Utf8
/-! Reading numbers, identifiers and references to candidates. A rule is given by the bytes that it
takes, by what it answers, and by what becomes of the candidates; how far it is down and what is
left to pay for references is part of the memory in front of it and behind it. -/
namespace CxxSymbols.Itanium.Mangling
open Grammar Scanner Stateful

/-! ### Digits -/

theorem digitIsDecimal {d : Nat} (small : d < 10) : isDigit (digit d) = true ∧
    (digit d).toNat - 48 = d := by
  have all : ∀ d : Fin 10, isDigit (digit d.val) = true ∧ (digit d.val).toNat - 48 = d.val := by
    decide
  exact all ⟨d, small⟩

theorem digitInSequence {d : Nat} (small : d < 36) : sequenceDigit? (digit d) = some d := by
  have all : ∀ d : Fin 36, sequenceDigit? (digit d.val) = some d.val := by decide
  exact all ⟨d, small⟩

theorem numeralDigits {base : Nat} (many : 2 ≤ base) (n : Nat) :
    ∀ b ∈ numeral base n, ∃ d < base, b = digit d := by
  induction n using Nat.strongRecOn with
  | _ n ih =>
    intro b mem
    rw [numeral] at mem
    split at mem
    · cases List.mem_singleton.mp mem
      exact ⟨n, by omega, rfl⟩
    · rcases List.mem_append.mp mem with front | last
      · exact ih (n / base) (Nat.div_lt_self (by omega) many) b front
      · cases List.mem_singleton.mp last
        exact ⟨n % base, Nat.mod_lt _ (by omega), rfl⟩

theorem numeralNotEmpty (base n : Nat) : numeral base n ≠ [] := by
  rw [numeral]
  split <;> simp

theorem numeralBegins {base : Nat} (many : 2 ≤ base) (n : Nat) :
    ∃ d < base, ∃ more, numeral base n = digit d :: more := by
  obtain ⟨b, more, shape⟩ := List.exists_cons_of_ne_nil (numeralNotEmpty base n)
  obtain ⟨d, small, rfl⟩ := numeralDigits many n b (by rw [shape]; exact List.mem_cons_self)
  exact ⟨d, small, more, shape⟩

theorem numeralValue {base : Nat} (many : 2 ≤ base) {value : UInt8 → Nat}
    (each : ∀ d < base, value (digit d) = d) (n : Nat) :
    (numeral base n).foldl (fun sum b => sum * base + value b) 0 = n := by
  induction n using Nat.strongRecOn with
  | _ n ih =>
    rw [numeral]
    split
    · rename_i small
      rw [List.foldl_cons, List.foldl_nil, Nat.zero_mul, Nat.zero_add]
      exact each n (by omega)
    · rw [List.foldl_append, ih (n / base) (Nat.div_lt_self (by omega) many), List.foldl_cons,
        List.foldl_nil, each _ (Nat.mod_lt _ (by omega))]
      exact Nat.div_add_mod' n base

theorem decimalValue (n : Nat) : decimal (numeral 10 n) = n :=
  numeralValue (by decide) (fun _ small => (digitIsDecimal small).2) n

theorem sequenceDigits {bytes : List UInt8} (digits : ∀ b ∈ bytes, ∃ d < 36, b = digit d) :
    bytes.filterMap sequenceDigit? = bytes.map fun b => (sequenceDigit? b).getD 0 := by
  induction bytes with
  | nil => rfl
  | cons b bytes ih =>
    obtain ⟨d, small, rfl⟩ := digits b List.mem_cons_self
    rw [List.filterMap_cons, List.map_cons, digitInSequence small,
      ih fun b mem => digits b (List.mem_cons_of_mem _ mem)]
    rfl

theorem sequenceValue (n : Nat) :
    ((numeral 36 n).filterMap sequenceDigit?).foldl (fun n d => n * 36 + d) 0 = n := by
  rw [sequenceDigits (numeralDigits (by decide) n), List.foldl_map]
  refine numeralValue (by decide) (fun d small => ?_) n
  rw [digitInSequence small]
  rfl

theorem charOfByte (b : UInt8) : (Char.ofUInt8 b).toNat = b.toNat := rfl

theorem letterOfChar {b : UInt8} {c : Char} (same : Char.ofUInt8 b = c) : b = letter c := by
  rw [← same, letter, charOfByte, UInt8.ofNat_toNat]

/-! ### Rules that read a piece -/

/- What matters of the memory: what references refer to, how deep the rule is, and what is left for
copies. -/
structure Holds (m : Memory) (table : List Ty) (nesting budget : Nat) : Prop where
  reading : m.reading = .key
  candidates : m.candidates.toList = table.map Ty.toNode
  nesting : m.nesting = nesting
  budget : m.budget = budget

/- Bytes in front of which a name or a type ends: no template arguments and no tags follow. -/
def Ends (bytes : List UInt8) : Prop := ∀ b ∈ bytes.head?, b ≠ letter 'I' ∧ b ≠ letter 'B'

/- The rule takes these bytes, wherever they stand. -/
def Reads {α : Type} (rule : Rule α) (bytes : List UInt8) (answer : α) (before after : List Ty)
    (nesting copied : Nat) : Prop :=
  ∀ (m : Memory) (left : Nat) (behind : List UInt8), Holds m before nesting (copied + left) →
    Ends behind → ∃ m', rule ⟨bytes ++ behind, m⟩ = .ok answer ⟨behind, m'⟩ ∧
      Holds m' after nesting left

section Rules
variable {α : Type} {before after : List Ty} {nesting copied : Nat} {bytes : List UInt8}

theorem endsBefore {b : UInt8} (other : b ≠ letter 'I' ∧ b ≠ letter 'B') (bytes : List UInt8) :
    Ends (b :: bytes) := by
  intro c first
  cases first
  exact other

theorem endsAtEnd : Ends [] := by
  intro c first
  cases first

theorem endsWithoutArgs {behind : List UInt8} (ends : Ends behind) :
    behind.head?.map Char.ofUInt8 ≠ some 'I' := by
  intro same
  obtain ⟨b, first, isI⟩ := Option.map_eq_some_iff.mp same
  exact (ends b first).1 (letterOfChar isI)

theorem nestedOk {rule : Rule α} {a : α} {m : Memory} {t : Cursor Memory}
    (within : m.nesting + 1 ≤ maxNesting)
    (ran : rule ⟨bytes, { m with nesting := m.nesting + 1 }⟩ = .ok a t) :
    nested rule ⟨bytes, m⟩ = .ok a { t with memory.nesting := t.memory.nesting - 1 } := by
  simp only [nested, if_pos within, restoring, ran]

theorem readsNested {rule : Rule α} {a : α} (within : nesting + 1 ≤ maxNesting)
    (reads : Reads rule bytes a before after (nesting + 1) copied) :
    Reads (nested rule) bytes a before after nesting copied := by
  intro m left behind holds follow
  obtain ⟨m', ran, holds'⟩ := reads { m with nesting := m.nesting + 1 } left behind
    ⟨holds.reading, holds.candidates, congrArg (· + 1) holds.nesting, holds.budget⟩ follow
  rw [← holds.nesting] at within
  refine ⟨{ m' with nesting := m'.nesting - 1 }, nestedOk within ran, holds'.reading,
    holds'.candidates, ?_, holds'.budget⟩
  show m'.nesting - 1 = nesting
  rw [holds'.nesting, Nat.add_sub_cancel]

theorem readsRestoring {putBack : Memory → Memory → Memory} {rule : Rule α} {a : α}
    (keeps : ∀ {m m' : Memory} {table : List Ty} {nesting budget : Nat},
      Holds m' table nesting budget → Holds (putBack m m') table nesting budget)
    (reads : Reads rule bytes a before after nesting copied) :
    Reads (restoring putBack rule) bytes a before after nesting copied := by
  intro m left behind holds follow
  obtain ⟨m', ran, holds'⟩ := reads m left behind holds follow
  exact ⟨putBack m m', restoringOk putBack ran, keeps holds'⟩

theorem readsRemember (t : Ty) :
    Reads (remember t.toNode) [] () before (before ++ [t]) nesting 0 := by
  intro m left behind holds _
  rw [Nat.zero_add] at holds
  refine ⟨{ m with candidates := m.candidates.push t.toNode }, rfl, holds.reading, ?_,
    holds.nesting, holds.budget⟩
  show (m.candidates.push t.toNode).toList = _
  rw [Array.toList_push, holds.candidates, List.map_append]
  rfl

end Rules

/-! ### Identifiers -/

theorem identNotEmpty (i : Ident) : Text.encode i.text ≠ [] := by
  rw [Text.encodeChars]
  cases shape : i.text.toList with
  | nil => exact absurd (String.toList_eq_nil_iff.mp shape) i.nonempty
  | cons c cs =>
    rw [List.flatMap_cons]
    intro empty
    exact String.utf8EncodeChar_ne_nil (List.append_eq_nil_iff.mp empty).1

theorem firstByte (c : Char) : ∃ b more, String.utf8EncodeChar c = b :: more ∧
    (b.toNat < 128 → more = [] ∧ b.toNat = c.toNat) := by
  have value : c.val.toNat = c.toNat := rfl
  simp only [String.utf8EncodeChar, value]
  split
  · refine ⟨_, _, rfl, fun _ => ⟨rfl, UInt8.toNat_ofNat_of_lt' (by omega : c.toNat < 256)⟩⟩
  · have wide (n : Nat) (low : 128 ≤ n) (high : n < 256) : ¬(UInt8.ofNat n).toNat < 128 := by
      rw [UInt8.toNat_ofNat_of_lt' high]
      omega
    split
    · exact ⟨_, _, rfl, fun small => absurd small (wide _ (by omega) (by omega))⟩
    · split
      · exact ⟨_, _, rfl, fun small => absurd small (wide _ (by omega) (by omega))⟩
      · exact ⟨_, _, rfl, fun small => absurd small (wide _ (by omega) (by omega))⟩

theorem digitChar {b : UInt8} {c : Char} (same : b.toNat = c.toNat) :
    isDigit b = c.isDigit := by
  have value : c.val.toNat = c.toNat := rfl
  simp only [isDigit, Char.isDigit, UInt8.le_iff_toNat_le, ge_iff_le, UInt32.le_iff_toNat_le,
    same, value]
  rfl

theorem identFirst (i : Ident) : ∀ b ∈ (Text.encode i.text).head?, isDigit b = false := by
  intro b first
  cases shape : i.text.toList with
  | nil => exact absurd (String.toList_eq_nil_iff.mp shape) i.nonempty
  | cons c cs =>
    have noDigit := i.noDigit
    rw [shape] at noDigit
    obtain ⟨b', more, bytes, small⟩ := firstByte c
    rw [Text.encodeChars, shape, List.flatMap_cons, bytes] at first
    cases first
    by_cases ascii : b.toNat < 128
    · rw [digitChar (small ascii).2]
      exact noDigit
    · have high : ¬b ≤ 57 := by
        rw [UInt8.le_iff_toNat_le]
        exact fun low => ascii (Nat.lt_of_le_of_lt low (by decide))
      rw [isDigit, decide_eq_false high, Bool.and_false]

theorem afterEncoded {text chars : List Char} (ascii : text.all (·.toNat < 128) = true)
    (found : (after? text (chars.flatMap String.utf8EncodeChar)).isSome = true) :
    text <+: chars := by
  induction text generalizing chars with
  | nil => exact List.nil_prefix
  | cons c text ih =>
    cases chars with
    | nil => cases found
    | cons d chars =>
      obtain ⟨b, more, bytes, small⟩ := firstByte d
      rw [List.all_cons, Bool.and_eq_true, decide_eq_true_eq] at ascii
      rw [List.flatMap_cons, bytes, List.cons_append, after?] at found
      split at found
      · rename_i same
        have value : b.toNat = c.toNat := by rw [← same, charOfByte]
        obtain ⟨rfl, equal⟩ := small (by rw [value]; exact ascii.1)
        have char : c = d := Char.toNat_inj.mp (value.symm.trans equal)
        rw [char]
        exact (List.prefix_cons_inj d).mpr (ih ascii.2 found)
      · cases found

theorem identNotAnonymous (i : Ident) :
    (after? "_GLOBAL__N".toList (Text.encode i.text)).isSome = false := by
  cases found : (after? "_GLOBAL__N".toList (Text.encode i.text)).isSome with
  | false => rfl
  | true =>
    rw [Text.encodeChars] at found
    exact absurd (afterEncoded (by decide) found) i.named

theorem sourceNumber {i : Ident} (short : (Text.encode i.text).length < UInt64.size)
    (behind : List UInt8) (m : Memory) :
    natural ⟨i.source ++ behind, m⟩ =
      .ok (Text.encode i.text).length ⟨Text.encode i.text ++ behind, m⟩ := by
  have digits : ∀ b ∈ numeral 10 (Text.encode i.text).length, isDigit b = true := by
    intro b mem
    obtain ⟨d, small, rfl⟩ := numeralDigits (by decide) _ b mem
    exact (digitIsDecimal small).1
  have stop : ∀ b ∈ (Text.encode i.text ++ behind).head?, isDigit b = false := by
    intro b first
    obtain ⟨b', bytes, shape⟩ := List.exists_cons_of_ne_nil (identNotEmpty i)
    have own := identFirst i
    rw [shape] at first own
    exact own b first
  obtain ⟨taken, left⟩ := takeStretch digits stop
  have written : (numeral 10 (Text.encode i.text).length).isEmpty = false := by
    rw [List.isEmpty_eq_false_iff]
    exact numeralNotEmpty 10 _
  have fits : ¬UInt64.size ≤ (Text.encode i.text).length := Nat.not_le.mpr short
  have read : natural? ⟨i.source ++ behind, m⟩ =
      .ok (some (Text.encode i.text).length) ⟨Text.encode i.text ++ behind, m⟩ := by
    refine (bindOk rfl).trans ?_
    simp only [Ident.source, List.append_assoc, taken, left, written, decimalValue, Bool.false_or,
      ge_iff_le, decide_eq_true_eq, if_neg fits]
    rfl
  exact bindOk read

theorem readsIdentifier {i : Ident} (short : (Text.encode i.text).length < UInt64.size)
    (table : List Ty) (nesting : Nat) :
    Reads identifier i.source i.text table table nesting 0 := by
  intro m left behind holds _
  rw [Nat.zero_add] at holds
  have enough : ¬(Text.encode i.text ++ behind).length < (Text.encode i.text).length := by
    rw [List.length_append]
    omega
  refine ⟨{ m with lastIdentifier := i.text }, ?_, holds.reading, holds.candidates,
    holds.nesting, holds.budget⟩
  refine (bindOk (sourceNumber short behind m)).trans ((bindOk rfl).trans ?_)
  simp only [if_neg enough, List.take_left, List.drop_left, identNotAnonymous,
    Text.decodeLossyEncode]
  rfl

/-! ### References -/

theorem referCandidate {t : Ty} (depth : t.toNode.depthWithin maxTreeDepth = true)
    (table : List Ty) (nesting : Nat) :
    Reads (refer t.toNode) [] t.toNode table table nesting t.toNode.size := by
  intro m left behind holds _
  refine ⟨{ m with budget := left }, ?_, holds.reading, holds.candidates, holds.nesting, rfl⟩
  have paid : t.toNode.charge m.budget = (true, left) := by
    rw [holds.budget]
    exact chargePays t.toNode left
  rw [refer, if_pos depth]
  refine (bindOk rfl).trans ?_
  simp only [paid]
  rfl

theorem readsCandidate {t : Ty} {table : List Ty} {index : Nat}
    (known : table[index]? = some t) (depth : t.toNode.depthWithin maxTreeDepth = true)
    (nesting : Nat) :
    Reads (candidate index) [] t.toNode table table nesting t.toNode.size := by
  intro m left behind holds follow
  have found : m.candidates[index]? = some t.toNode := by
    rw [← Array.getElem?_toList, holds.candidates, List.getElem?_map, known]
    rfl
  obtain ⟨m', paid, holds'⟩ := referCandidate depth table nesting m left behind holds follow
  refine ⟨m', (bindOk rfl).trans ?_, holds'⟩
  show (ofOption m.candidates[index]? >>= refer) _ = _
  rw [found]
  exact paid

theorem sequenceIdRead {n : Nat} (fits : n < UInt64.size) (behind : List UInt8) (m : Memory) :
    sequenceId? ⟨numeral 36 n ++ letter '_' :: behind, m⟩ =
      .ok (some n) ⟨letter '_' :: behind, m⟩ := by
  have digits : ∀ b ∈ numeral 36 n, (sequenceDigit? b).isSome = true := by
    intro b mem
    obtain ⟨d, small, rfl⟩ := numeralDigits (by decide) _ b mem
    rw [digitInSequence small]
    rfl
  have stop : ∀ b ∈ (letter '_' :: behind).head?, (sequenceDigit? b).isSome = false := by
    intro b first
    cases first
    decide
  obtain ⟨taken, left⟩ := takeStretch digits stop
  have written : (numeral 36 n).isEmpty = false := by
    rw [List.isEmpty_eq_false_iff]
    exact numeralNotEmpty 36 n
  refine (bindOk rfl).trans ?_
  simp only [taken, left, written, sequenceValue, if_pos fits]
  rfl

theorem readsSubstitution {t : Ty} {table : List Ty} {index : Nat}
    (known : table[index]? = some t) (depth : t.toNode.depthWithin maxTreeDepth = true)
    (few : index < UInt64.size) (nesting : Nat) :
    Reads substitution (referenceTo index) t.toNode table table nesting t.toNode.size := by
  intro m left behind holds follow
  obtain ⟨m', copied, holds'⟩ := readsCandidate known depth nesting m left behind holds follow
  refine ⟨m', ?_, holds'⟩
  cases index with
  | zero =>
    refine (bindOk (expectFound rfl m)).trans ((bindOk rfl).trans ?_)
    exact (bindOk (acceptFound rfl m)).trans copied
  | succ n =>
    obtain ⟨d, small, more, shape⟩ := numeralBegins (by decide : 2 ≤ 36) n
    have plain : ∀ d : Fin 36, stdAbbreviation? (Char.ofUInt8 (digit d.val)) = none ∧
        Char.ofUInt8 (digit d.val) ≠ '_' := by decide
    obtain ⟨noAbbreviation, noUnderscore⟩ := plain ⟨d, small⟩
    have bytes : referenceTo (n + 1) ++ behind =
        letter 'S' :: (numeral 36 n ++ letter '_' :: behind) := by
      simp [referenceTo]
    have id := sequenceIdRead (by omega : n < UInt64.size) behind m
    have other : ∀ b ∈ (numeral 36 n ++ letter '_' :: behind).head?, Char.ofUInt8 b ≠ '_' := by
      intro b first
      rw [shape] at first
      cases first
      exact noUnderscore
    rw [bytes]
    refine (bindOk (expectFound rfl m)).trans ?_
    have first : current ⟨numeral 36 n ++ letter '_' :: behind, m⟩ =
        .ok (Char.ofUInt8 (digit d)) ⟨numeral 36 n ++ letter '_' :: behind, m⟩ := by
      rw [shape]
      rfl
    refine (bindOk first).trans ?_
    rw [noAbbreviation]
    refine (bindOk (acceptOther rfl other m)).trans ((bindOk id).trans ((bindOk rfl).trans ?_))
    exact (bindOk (expectFound rfl m)).trans copied

end CxxSymbols.Itanium.Mangling
