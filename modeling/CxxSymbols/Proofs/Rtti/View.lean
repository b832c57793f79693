import CxxSymbols.Proofs.Text.Number
import CxxSymbols.Rtti.View
/-! Reading from a view. A number is read where all of its bytes lie in the view, and it is the one
that these bytes make up; elsewhere its address is reported. -/
namespace CxxSymbols.Rtti.View
open Text (littleEndian toLittleEndian)

def Holds (v : View) (address count : Nat) : Prop :=
  v.base.toNat ≤ address ∧ address + count ≤ v.base.toNat + v.bytes.size

def bytesAt (v : View) (address count : Nat) : List UInt8 :=
  (v.bytes.data.toList.drop (address - v.base.toNat)).take count

def numberAt (v : View) (address count : Nat) : Nat := littleEndian (v.bytesAt address count)

def wordAt (v : View) (address : Nat) : Nat := v.numberAt address v.width.bytes

variable {v : View} {address count n : Nat}

instance : Decidable (v.Holds address count) :=
  inferInstanceAs (Decidable (v.base.toNat ≤ address ∧ address + count ≤ v.base.toNat + v.bytes.size))

/-! ### Inside and outside -/

theorem sliceHeld (held : v.Holds address count) :
    v.slice address count = .ok (v.bytesAt address count) := by
  obtain ⟨above, below⟩ := held
  have within : v.base.toNat ≤ address ∧ address - v.base.toNat + count ≤ v.bytes.size := by omega
  simp only [slice, if_pos within, bytesAt]
  rw [ByteArray.data_extract, Array.toList_extract, List.extract_eq_take_drop,
    Nat.add_sub_cancel_left]

theorem sliceOutside (outside : ¬v.Holds address count) :
    v.slice address count = .error (.outOfBounds address) := by
  have apart : ¬(v.base.toNat ≤ address ∧ address - v.base.toNat + count ≤ v.bytes.size) := by
    rintro ⟨above, below⟩
    exact outside ⟨above, by omega⟩
  simp only [slice, if_neg apart]

theorem readU32Held (held : v.Holds address 4) : v.readU32 address = .ok (v.numberAt address 4) := by
  rw [readU32, sliceHeld held]
  rfl

theorem readU32Outside (outside : ¬v.Holds address 4) :
    v.readU32 address = .error (.outOfBounds address) := by
  rw [readU32, sliceOutside outside]
  rfl

theorem readWordHeld (held : v.Holds address v.width.bytes) :
    v.readWord address = .ok (v.wordAt address) := by
  rw [readWord, sliceHeld held]
  rfl

theorem readWordOutside (outside : ¬v.Holds address v.width.bytes) :
    v.readWord address = .error (.outOfBounds address) := by
  rw [readWord, sliceOutside outside]
  rfl

theorem readSignedHeld (held : v.Holds address v.width.bytes) :
    v.readSigned address = .ok (Text.signed v.width.bytes (v.wordAt address)) := by
  rw [readSigned, readWordHeld held]
  rfl

theorem readSignedOutside (outside : ¬v.Holds address v.width.bytes) :
    v.readSigned address = .error (.outOfBounds address) := by
  rw [readSigned, readWordOutside outside]
  rfl

theorem wordBelow (v : View) (address : Nat) : v.wordAt address < UInt64.size := by
  have short : (v.bytesAt address v.width.bytes).length ≤ 8 := by
    refine Nat.le_trans (List.length_take_le _ _) ?_
    cases v.width <;> decide
  calc v.wordAt address
    _ < Text.byteBound (v.bytesAt address v.width.bytes).length := Text.littleEndianBelow _
    _ ≤ Text.byteBound 8 := Text.byteBoundMono short
    _ = UInt64.size := by decide

/-! ### One field after the other -/

abbrev Field := Nat × Nat

/- What reading some fields answers: a result with a property, or the address of the first field that
does not lie in the view. -/
inductive Answers {α : Type} (v : View) (P : α → Prop) :
    List Field → Except RttiError α → Prop where
  | done {x : α} (holds : P x) : Answers v P [] (.ok x)
  | inside {f : Field} {fields : List Field} {answer : Except RttiError α}
      (held : v.Holds f.1 f.2) (rest : Answers v P fields answer) : Answers v P (f :: fields) answer
  | outside {f : Field} {fields : List Field} (missing : ¬v.Holds f.1 f.2) :
      Answers v P (f :: fields) (.error (.outOfBounds f.1))

section Answers
variable {α β : Type} {P : α → Prop} {Q : β → Prop} {f : Field} {fields : List Field}
  {answer : Except RttiError α}

theorem answersNext {read : Except RttiError β} {b : β}
    (held : v.Holds f.1 f.2 → read = .ok b)
    (outside : ¬v.Holds f.1 f.2 → read = .error (.outOfBounds f.1))
    {rest : β → Except RttiError α} (behind : Answers v P fields (rest b)) :
    Answers v P (f :: fields) (read >>= rest) := by
  by_cases here : v.Holds f.1 f.2
  · rw [held here]
    exact .inside here behind
  · rw [outside here]
    exact .outside here

theorem answersMap (answers : Answers v P fields answer) {g : α → β}
    (each : ∀ x, P x → Q (g x)) : Answers v Q fields (answer >>= fun x => pure (g x)) := by
  induction answers with
  | done holds => exact .done (each _ holds)
  | inside held _ ih => exact .inside held ih
  | outside missing => exact .outside missing

theorem answersHold (answers : Answers v P fields answer) {x : α} (ran : answer = .ok x) : P x := by
  induction answers with
  | done holds =>
    cases ran
    exact holds
  | inside _ _ ih => exact ih ran
  | outside => cases ran

theorem answersInside (answers : Answers v P fields answer)
    (held : ∀ f ∈ fields, v.Holds f.1 f.2) : ∃ x, answer = .ok x ∧ P x := by
  induction answers with
  | done holds => exact ⟨_, rfl, holds⟩
  | inside _ _ ih => exact ih (List.forall_mem_cons.mp held).2
  | outside missing => exact absurd (List.forall_mem_cons.mp held).1 missing

theorem answersOutside (answers : Answers v P fields answer) (mem : f ∈ fields)
    (missing : ¬v.Holds f.1 f.2) : ∃ place, answer = .error (.outOfBounds place) := by
  induction answers with
  | done => cases mem
  | inside held _ ih =>
    rcases List.mem_cons.mp mem with rfl | behind
    · exact absurd held missing
    · exact ih behind
  | outside => exact ⟨_, rfl⟩

theorem answersFail (answers : Answers v P fields answer) :
    (∃ place, answer = .error (.outOfBounds place)) ↔ ∃ f ∈ fields, ¬v.Holds f.1 f.2 := by
  refine ⟨fun ⟨place, failed⟩ => ?_, fun ⟨f, mem, missing⟩ => answersOutside answers mem missing⟩
  refine Decidable.byContradiction fun none => ?_
  obtain ⟨x, ok, _⟩ := answersInside answers fun f mem =>
    Decidable.not_not.mp fun missing => none ⟨f, mem, missing⟩
  rw [failed] at ok
  cases ok

end Answers

/-! ### Bytes that lie at an address -/

def Lies (v : View) (address : Nat) (bytes : List UInt8) : Prop :=
  ∃ before after, v.bytes.data.toList = before ++ bytes ++ after ∧
    address = v.base.toNat + before.length

variable {xs ys : List UInt8}

theorem liesFront (lies : v.Lies address (xs ++ ys)) : v.Lies address xs := by
  obtain ⟨before, after, bytes, place⟩ := lies
  exact ⟨before, ys ++ after, by simpa using bytes, place⟩

theorem liesBehind (lies : v.Lies address (xs ++ ys)) : v.Lies (address + xs.length) ys := by
  obtain ⟨before, after, bytes, place⟩ := lies
  refine ⟨before ++ xs, after, by simpa using bytes, ?_⟩
  rw [place, List.length_append, Nat.add_assoc]

theorem liesHeld (lies : v.Lies address xs) : v.Holds address xs.length := by
  obtain ⟨before, after, bytes, place⟩ := lies
  have size : v.bytes.size = before.length + xs.length + after.length := by
    rw [← ByteArray.size_data, ← Array.length_toList, bytes, List.length_append,
      List.length_append]
  exact ⟨by omega, by omega⟩

theorem liesBytes (lies : v.Lies address xs) : v.bytesAt address xs.length = xs := by
  obtain ⟨before, after, bytes, place⟩ := lies
  rw [bytesAt, bytes, place, Nat.add_sub_cancel_left, List.append_assoc, List.drop_left,
    List.take_left]

theorem sliceLies (lies : v.Lies address xs) : v.slice address xs.length = .ok xs := by
  rw [sliceHeld (liesHeld lies), liesBytes lies]

theorem sliceNumber (fits : n < Text.byteBound count)
    (lies : v.Lies address (toLittleEndian count n)) :
    (v.slice address count).map littleEndian = .ok n := by
  have sliced := sliceLies lies
  rw [Text.toLittleEndianLength] at sliced
  rw [sliced]
  exact congrArg Except.ok (Text.littleEndianReadsBack fits)

end CxxSymbols.Rtti.View
