import CxxSymbols.Proofs.Store.Writer
/-! Leaving messages out of a file. A file is made of its messages in one way only, so it makes
sense to speak of the file without those of one type. Messages of the index refer to no string
table and hold none, so the others go on saying what they said. -/
namespace CxxSymbols.Store.Reader
variable {t t' : Array String} {f g : Framed} {fs gs : List Framed}

theorem codeInjective {a b : MessageType} (same : a.code = b.code) : a = b := by
  have back := MessageType.ofCode?Code a
  rw [same, MessageType.ofCode?Code] at back
  exact (Option.some.inj back).symm

theorem octetsSplit {a b : List UInt8} (smallF : f.Small) (smallG : g.Small)
    (same : f.octets ++ a = g.octets ++ b) : f = g ∧ a = b := by
  have lengthFits {f : Framed} (small : f.Small) : f.payload.size < UInt64.size :=
    Nat.lt_of_le_of_lt small (by decide)
  have codeFits (f : Framed) : f.type.code < UInt64.size :=
    Nat.lt_trans (codeBound f.type) (by decide)
  obtain ⟨typeF, payloadF⟩ := f
  obtain ⟨typeG, payloadG⟩ := g
  simp only [Framed.octets, List.append_assoc] at same
  have lengths := congrArg Wire.varint? same
  rw [Wire.varintReadsBack (lengthFits smallF), Wire.varintReadsBack (lengthFits smallG)] at lengths
  obtain ⟨size, behind⟩ := Prod.mk.inj (Option.some.inj lengths)
  have codes := congrArg Wire.varint? behind
  rw [Wire.varintReadsBack (codeFits ⟨typeF, payloadF⟩),
    Wire.varintReadsBack (codeFits ⟨typeG, payloadG⟩)] at codes
  obtain ⟨code, rest⟩ := Prod.mk.inj (Option.some.inj codes)
  have length : payloadF.data.toList.length = payloadG.data.toList.length := by
    rw [Wire.toListLength, Wire.toListLength]
    exact size
  obtain ⟨payload, after⟩ := List.append_inj rest length
  have whole : payloadF = payloadG := by
    rw [← Wire.ofBytesToList payloadF, payload, Wire.ofBytesToList]
  have type : typeF = typeG := codeInjective code
  rw [type, whole]
  exact ⟨rfl, after⟩

theorem octetsInjective (smallF : ∀ f ∈ fs, f.Small) (smallG : ∀ g ∈ gs, g.Small)
    (same : fs.flatMap Framed.octets = gs.flatMap Framed.octets) : fs = gs := by
  have notNothing (f : Framed) (fs : List Framed) : (f :: fs).flatMap Framed.octets ≠ [] := by
    intro nothing
    have some := octetsLength f
    rw [List.flatMap_cons, List.append_eq_nil_iff] at nothing
    rw [nothing.1] at some
    exact Nat.not_succ_le_zero 1 some
  induction fs generalizing gs with
  | nil =>
    cases gs with
    | nil => rfl
    | cons g gs => exact absurd same.symm (notNothing g gs)
  | cons f fs ih =>
    cases gs with
    | nil => exact absurd same (notNothing f fs)
    | cons g gs =>
      rw [List.flatMap_cons, List.flatMap_cons] at same
      obtain ⟨rfl, rest⟩ := octetsSplit (smallF f List.mem_cons_self) (smallG g List.mem_cons_self)
        same
      rw [ih (fun h mem => smallF h (List.mem_cons_of_mem _ mem))
        (fun h mem => smallG h (List.mem_cons_of_mem _ mem)) rest]

theorem madeOfUnique {bytes : ByteArray} (left : MadeOf bytes fs) (right : MadeOf bytes gs) :
    fs = gs := by
  have same := left.bytes.symm.trans right.bytes
  have lists := congrArg (fun bytes : ByteArray => bytes.data.toList) same
  simp only [fileWith, Wire.toListOfBytes] at lists
  exact octetsInjective left.small right.small (List.append_cancel_left lists)

/-! ### Without an index -/

theorem saidRecordType {bytes : List UInt8} {type : MessageType} {r : Record}
    (spoken : said t bytes (some type) = (.ok (some r), t')) : r.messageType = type := by
  have kinds {α : Type} {read : Option (Except StoreError α)} {kind : α → Record}
      (ok : said.record read kind = .ok (some r)) : ∃ a, r = kind a := by
    unfold said.record at ok
    split at ok
    · cases ok
      exact ⟨_, rfl⟩
    · cases ok
    · cases ok
  cases type with
  | invalid => cases spoken
  | header => cases spoken
  | stringTable =>
    simp only [said] at spoken
    split at spoken <;> cases spoken
  | symbol =>
    obtain ⟨a, rfl⟩ := kinds (Prod.mk.inj spoken).1
    rfl
  | typeInfo =>
    obtain ⟨a, rfl⟩ := kinds (Prod.mk.inj spoken).1
    rfl
  | vtable =>
    obtain ⟨a, rfl⟩ := kinds (Prod.mk.inj spoken).1
    rfl
  | index =>
    obtain ⟨a, rfl⟩ := kinds (Prod.mk.inj spoken).1
    rfl

theorem saidTable {bytes : List UInt8} {type : MessageType} {x : Option Record}
    (spoken : said t bytes (some type) = (.ok x, t')) (other : type ≠ .stringTable) :
    t' = t ∧ x ≠ none := by
  have something {α : Type} {read : Option (Except StoreError α)} {kind : α → Record}
      (ok : said.record read kind = .ok x) : x ≠ none := by
    unfold said.record at ok
    split at ok
    · cases ok
      exact Option.some_ne_none _
    · cases ok
    · cases ok
  cases type with
  | invalid => cases spoken
  | header => cases spoken
  | stringTable => exact absurd rfl other
  | symbol => exact ⟨(Prod.mk.inj spoken).2.symm, something (Prod.mk.inj spoken).1⟩
  | typeInfo => exact ⟨(Prod.mk.inj spoken).2.symm, something (Prod.mk.inj spoken).1⟩
  | vtable => exact ⟨(Prod.mk.inj spoken).2.symm, something (Prod.mk.inj spoken).1⟩
  | index => exact ⟨(Prod.mk.inj spoken).2.symm, something (Prod.mk.inj spoken).1⟩

def withoutIndex (fs : List Framed) : List Framed := fs.filter fun f => f.type ≠ .index

theorem toldWithoutIndex {rs : List Record} (told : Told t fs rs t') :
    Told t (withoutIndex fs) (rs.filter fun r => r.messageType ≠ .index) t' := by
  induction told with
  | nil t => exact .nil t
  | @silent t t' t'' f fs rs spoken rest ih =>
    have kept : f.type ≠ .index := by
      intro index
      rw [index] at spoken
      exact (saidTable spoken (by decide)).2 rfl
    rw [withoutIndex, List.filter_cons, if_pos (decide_eq_true kept)]
    exact .silent spoken ih
  | @record t t' t'' f fs r rs spoken rest ih =>
    have type := saidRecordType spoken
    by_cases index : f.type = .index
    · have same := (saidTable spoken (by rw [index]; decide)).1
      rw [withoutIndex, List.filter_cons, List.filter_cons, type, if_neg (by simp [index]),
        if_neg (by simp [index]), ← same]
      exact ih
    · rw [withoutIndex, List.filter_cons, List.filter_cons, type, if_pos (decide_eq_true index),
        if_pos (decide_eq_true index)]
      exact .record spoken ih

theorem madeWithoutIndex {bytes : ByteArray} (made : MadeOf bytes fs) :
    MadeOf (fileWith (withoutIndex fs)) (withoutIndex fs) :=
  ⟨rfl, fun f mem => made.small f (List.mem_of_mem_filter mem)⟩

end CxxSymbols.Store.Reader
