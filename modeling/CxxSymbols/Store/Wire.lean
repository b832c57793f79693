/-!
The encoding of messages as tagged fields, as protocol buffers have it. A field is a number, which
takes seven bits of each byte, or a run of bytes behind its length. Readers pass over fields that
they do not know, also over groups, which are read for where they end.
-/
namespace CxxSymbols.Store.Wire

/-! ### Numbers -/

def varint (n : Nat) : List UInt8 :=
  if n < 128 then [UInt8.ofNat n] else UInt8.ofNat (n % 128 + 128) :: varint (n / 128)

/- Reads a number of at most so many bytes. Of the tenth byte only the lowest bit fits. -/
def varintIn? : Nat → List UInt8 → Option (Nat × List UInt8)
  | 0, _ => none
  | _ + 1, [] => none
  | left + 1, b :: rest =>
    if b.toNat < 128 then
      if left = 0 ∧ 2 ≤ b.toNat then none else some (b.toNat, rest)
    else
      match varintIn? left rest with
      | some (n, rest) => some (b.toNat - 128 + 128 * n, rest)
      | none => none

def varint? (bytes : List UInt8) : Option (Nat × List UInt8) := varintIn? 10 bytes

theorem varintIn?Shorter {left : Nat} {bytes rest : List UInt8} {n : Nat}
    (h : varintIn? left bytes = some (n, rest)) : rest.length < bytes.length := by
  induction left generalizing bytes rest n with
  | zero => simp [varintIn?] at h
  | succ left ih =>
    cases bytes with
    | nil => simp [varintIn?] at h
    | cons b bytes =>
      simp only [varintIn?] at h
      split at h
      · split at h
        · simp at h
        · simp only [Option.some.injEq, Prod.mk.injEq] at h
          simp [h.2]
      · split at h
        · rename_i found
          simp only [Option.some.injEq, Prod.mk.injEq] at h
          have := ih found
          rw [← h.2, List.length_cons]
          omega
        · simp at h

theorem varint?Shorter {bytes rest : List UInt8} {n : Nat}
    (h : varint? bytes = some (n, rest)) : rest.length < bytes.length :=
  varintIn?Shorter h

/- Signed numbers are folded so that those near zero are short. -/
def zigzag (n : Int64) : Nat :=
  if 0 ≤ n.toInt then (2 * n.toInt).toNat else (-2 * n.toInt - 1).toNat

def unzigzag (n : Nat) : Int64 :=
  if n % 2 = 0 then Int64.ofInt (n / 2) else Int64.ofInt (-(n / 2) - 1)

/-! ### Fields -/

inductive Value where
  | varint (n : Nat)
  | delimited (bytes : ByteArray)
  | fixed
  | group

inductive WireType where
  | varint
  | fixed64
  | delimited
  | startGroup
  | endGroup
  | fixed32
  deriving DecidableEq, Repr, Inhabited

def WireType.ofCode? : Nat → Option WireType
  | 0 => some varint
  | 1 => some fixed64
  | 2 => some delimited
  | 3 => some startGroup
  | 4 => some endGroup
  | 5 => some fixed32
  | _ => none

structure Field where
  tag : Nat
  value : Value

def ofBytes (bytes : List UInt8) : ByteArray := ⟨bytes.toArray⟩

def Field.encode (f : Field) : ByteArray :=
  match f.value with
  | .varint n => ofBytes (Wire.varint (f.tag * 8) ++ Wire.varint n)
  | .delimited bytes => ofBytes (Wire.varint (f.tag * 8 + 2) ++ Wire.varint bytes.size) ++ bytes
  | .fixed | .group => ByteArray.empty

def encode (fields : List Field) : ByteArray :=
  fields.foldl (fun out f => out ++ f.encode) ByteArray.empty

def key? (bytes : List UInt8) : Option ((Nat × WireType) × List UInt8) :=
  match varint? bytes with
  | some (key, rest) =>
    if 8 ≤ key ∧ key < UInt32.size then (WireType.ofCode? (key % 8)).map fun t => ((key / 8, t), rest)
    else none
  | none => none

theorem key?Shorter {bytes rest : List UInt8} {k : Nat × WireType}
    (h : key? bytes = some (k, rest)) : rest.length < bytes.length := by
  simp only [key?] at h
  split at h
  · rename_i found
    split at h
    · rw [Option.map_eq_some_iff] at h
      obtain ⟨_, _, h⟩ := h
      rw [Prod.mk.injEq] at h
      rw [← h.2]
      exact varint?Shorter found
    · simp at h
  · simp at h

def dropExactly? (count : Nat) (bytes : List UInt8) : Option (List UInt8) :=
  if count ≤ bytes.length then some (bytes.drop count) else none

theorem dropExactly?NoLonger {count : Nat} {bytes rest : List UInt8}
    (h : dropExactly? count bytes = some rest) : rest.length ≤ bytes.length := by
  simp only [dropExactly?] at h
  split at h
  · simp only [Option.some.injEq] at h
    rw [← h, List.length_drop]
    omega
  · simp at h

def scalar? (type : WireType) (bytes : List UInt8) : Option (Value × List UInt8) :=
  match type with
  | .varint => (varint? bytes).map fun (n, rest) => (.varint n, rest)
  | .fixed64 => (dropExactly? 8 bytes).map fun rest => (.fixed, rest)
  | .fixed32 => (dropExactly? 4 bytes).map fun rest => (.fixed, rest)
  | .delimited =>
    match varint? bytes with
    | some (count, rest) =>
      (dropExactly? count rest).map fun behind => (.delimited (ofBytes (rest.take count)), behind)
    | none => none
  | .startGroup | .endGroup => none

theorem scalar?NoLonger {type : WireType} {bytes rest : List UInt8} {v : Value}
    (h : scalar? type bytes = some (v, rest)) : rest.length ≤ bytes.length := by
  cases type <;> simp only [scalar?, Option.map_eq_some_iff, Prod.mk.injEq] at h
  · obtain ⟨⟨n, r⟩, found, _, rfl⟩ := h
    exact Nat.le_of_lt (varint?Shorter found)
  · obtain ⟨r, found, _, rfl⟩ := h
    exact dropExactly?NoLonger found
  · split at h
    · rename_i found
      rw [Option.map_eq_some_iff] at h
      obtain ⟨r, dropped, h⟩ := h
      rw [Prod.mk.injEq] at h
      rw [← h.2]
      exact Nat.le_of_lt (Nat.lt_of_le_of_lt (dropExactly?NoLonger dropped)
        (varint?Shorter found))
    · simp at h
  · simp at h
  · simp at h
  · obtain ⟨r, found, _, rfl⟩ := h
    exact dropExactly?NoLonger found

/- What is behind the groups that are open, the innermost first. Groups may be nested `limit`
deep. -/
def afterGroups? (limit : Nat) (bytes : List UInt8) : List Nat → Option (List UInt8)
  | [] => some bytes
  | tag :: outer =>
    match h : key? bytes with
    | none => none
    | some ((t, .endGroup), rest) =>
      if t = tag then
        have := key?Shorter h
        afterGroups? limit rest outer
      else none
    | some ((t, .startGroup), rest) =>
      if outer.length + 1 < limit then
        have := key?Shorter h
        afterGroups? limit rest (t :: tag :: outer)
      else none
    | some ((_, type), rest) =>
      if outer.length + 1 < limit then
        match h' : scalar? type rest with
        | some (_, behind) =>
          have := Nat.lt_of_le_of_lt (scalar?NoLonger h') (key?Shorter h)
          afterGroups? limit behind (tag :: outer)
        | none => none
      else none
termination_by bytes.length

theorem afterGroups?NoLonger {limit : Nat} {bytes rest : List UInt8} {tags : List Nat}
    (h : afterGroups? limit bytes tags = some rest) : rest.length ≤ bytes.length := by
  fun_induction afterGroups? limit bytes tags with
  | case1 => simp only [Option.some.injEq] at h; subst h; exact Nat.le_refl _
  | case2 => simp at h
  | case3 _ _ _ _ _ lt ih => exact Nat.le_trans (ih h) (Nat.le_of_lt lt)
  | case4 => simp at h
  | case5 _ _ _ _ _ _ _ lt ih => exact Nat.le_trans (ih h) (Nat.le_of_lt lt)
  | case6 => simp at h
  | case7 =>
    rename_i lt ih
    exact Nat.le_trans (ih h) (Nat.le_of_lt lt)
  | case8 => simp at h
  | case9 => simp at h

def fields? (limit : Nat) (bytes : List UInt8) : Option (List Field) :=
  if bytes.isEmpty then some []
  else
    match h : key? bytes with
    | none => none
    | some ((tag, .startGroup), rest) =>
      match h' : afterGroups? limit rest [tag] with
      | some behind =>
        have := Nat.lt_of_le_of_lt (afterGroups?NoLonger h') (key?Shorter h)
        (fields? limit behind).map (⟨tag, .group⟩ :: ·)
      | none => none
    | some ((tag, type), rest) =>
      match h' : scalar? type rest with
      | some (value, behind) =>
        have := Nat.lt_of_le_of_lt (scalar?NoLonger h') (key?Shorter h)
        (fields? limit behind).map (⟨tag, value⟩ :: ·)
      | none => none
termination_by bytes.length

def nestingLimit : Nat := 100

def varints? (bytes : List UInt8) : Option (List Nat) :=
  if bytes.isEmpty then some []
  else
    match h : varint? bytes with
    | some (n, rest) =>
      have := varint?Shorter h
      (varints? rest).map (n :: ·)
    | none => none
termination_by bytes.length

/-! ### Values of fields -/

def number? : Value → Option Nat
  | .varint n => some n
  | _ => none

def text? : Value → Option String
  | .delimited bytes => String.fromUTF8? bytes
  | _ => none

def bytes? : Value → Option ByteArray
  | .delimited bytes => some bytes
  | _ => none

def numbers? : Value → Option (List Nat)
  | .varint n => some [n]
  | .delimited bytes => varints? bytes.data.toList
  | _ => none

def numberField (tag n : Nat) : List Field := if n = 0 then [] else [⟨tag, .varint n⟩]

def textField (tag : Nat) (s : String) : List Field :=
  if s.isEmpty then [] else [⟨tag, .delimited s.toUTF8⟩]

def numbersField (tag : Nat) (ns : List Nat) : List Field :=
  if ns.isEmpty then [] else [⟨tag, .delimited (ofBytes (ns.flatMap Wire.varint))⟩]

end CxxSymbols.Store.Wire
