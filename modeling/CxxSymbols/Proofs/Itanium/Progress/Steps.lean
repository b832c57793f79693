import CxxSymbols.Proofs.Itanium.Agree
/-! How far rules get. A rule that succeeds has moved on in its input, or has at least not gone
back, and one that fails has met a mismatch at some place of the input: it has neither run out of
rounds nor skipped past the end. Steps put together move on if one of them does, and a rule may
call whatever moves on from where fewer bytes are left. -/
namespace CxxSymbols.Itanium.Grammar
open Scanner

/- How a rule ends on an input: at a later place if it takes anything, else at a place that is not
before the first. -/
def Ends {α : Type} (takes : Bool) (input : List UInt8) :
    EStateM.Result Refusal (Cursor Memory) α → Prop
  | .ok _ t => t.rest <:+ input ∧ t.rest.length + takes.toNat ≤ input.length
  | .error e t => e = .mismatch ∧ t.rest <:+ input

section Ends
variable {α β : Type} {input : List UInt8} {x : Rule α} {f : α → Rule β} {s : Cursor Memory}

theorem Ends.further {takes : Bool} {r : EStateM.Result Refusal (Cursor Memory) α}
    (ends : Ends takes s.rest r) (within : s.rest <:+ input) : Ends takes input r := by
  cases r with
  | ok a t => exact ⟨ends.1.trans within, Nat.le_trans ends.2 within.length_le⟩
  | error e t => exact ⟨ends.1, ends.2.trans within⟩

theorem Ends.relax {takes : Bool} {r : EStateM.Result Refusal (Cursor Memory) α}
    (ends : Ends takes input r) : Ends false input r := by
  cases r with
  | ok a t => exact ⟨ends.1, ends.1.length_le⟩
  | error e t => exact ends

theorem Ends.shorter {takes : Bool} {a : α} {t : Cursor Memory} (within : t.rest <:+ input)
    (less : t.rest.length < input.length) : Ends takes input (.ok a t) :=
  ⟨within, Nat.le_trans (Nat.add_le_add_left (Bool.toNat_le takes) _) less⟩

theorem Ends.bind {first takes : Bool} (one : Ends first input (x s))
    (two : ∀ {a t}, x s = .ok a t → t.rest <:+ input →
      t.rest.length + first.toNat ≤ input.length → Ends takes input (f a t)) :
    Ends takes input ((x >>= f) s) := by
  cases ran : x s with
  | ok a t =>
    rw [ran] at one
    rw [Stateful.bindOk ran]
    exact two ran one.1 one.2
  | error e t =>
    rw [ran] at one
    rw [Stateful.bindError ran]
    exact one

end Ends

def Finds {α : Type} (input : List UInt8) :
    EStateM.Result Refusal (Cursor Memory) (Option α) → Prop
  | .ok none t => t.rest = input
  | .ok (some a) t => Ends true input (.ok a t)
  | .error e t => Ends true input (.error e t : EStateM.Result Refusal (Cursor Memory) α)

/- From wherever at most so many bytes are left, or fewer where something was taken before, and
some known ones come first, a rule ends well. -/
class Moves {α : Type} (most : Nat) (taken : Bool) (front : List Char) (takes : Bool)
    (x : Rule α) : Prop where
  ends : ∀ {s : Cursor Memory}, s.rest.length + taken.toNat ≤ most →
    front <+: s.rest.map Char.ofUInt8 → Ends takes s.rest (x s)

section Steps
variable {α β : Type} {most most' : Nat} {taken taken' takes : Bool} {front : List Char}
  {x y : Rule α} {f : α → Rule β}

theorem Ends.step {input : List UInt8} {s : Cursor Memory}
    (moves : Moves s.rest.length false [] false x) (within : s.rest <:+ input)
    (behind : ∀ {a t}, t.rest <:+ input → Ends false input (f a t)) :
    Ends false input ((x >>= f) s) :=
  ((moves.ends (Nat.le_refl _) List.nil_prefix).further within).bind fun _ within _ => behind within

theorem Moves.within (moves : Moves most taken [] takes x)
    (fewer : most' + taken.toNat ≤ most + taken'.toNat) : Moves most' taken' front takes x where
  ends near _ := moves.ends (by omega) List.nil_prefix

theorem Moves.anywhere (moves : Moves most taken [] takes x) : Moves most taken front takes x :=
  moves.within (Nat.le_refl _)

theorem Moves.relax (moves : Moves most taken front true x) :
    Moves most taken front takes x where
  ends near known := by
    cases takes with
    | true => exact moves.ends near known
    | false => exact (moves.ends near known).relax

theorem Moves.behindTaken {s t : Cursor Memory} (moves : Moves most true [] false x)
    (near : s.rest.length + taken.toNat ≤ most) (within : t.rest <:+ s.rest)
    (less : t.rest.length < s.rest.length) : Ends takes s.rest (x t) := by
  have nearer : t.rest.length + 1 ≤ most :=
    Nat.le_trans less (Nat.le_trans (Nat.le_add_right _ _) near)
  have ends := moves.ends (s := t) nearer List.nil_prefix
  cases ran : x t with
  | ok a u =>
    rw [ran] at ends
    exact .shorter (ends.1.trans within) (Nat.lt_of_le_of_lt ends.1.length_le less)
  | error e u =>
    rw [ran] at ends
    exact ⟨ends.1, ends.2.trans within⟩

theorem Moves.taking (first : Moves most taken front true x)
    (behind : ∀ a, Moves most true [] false (f a)) : Moves most taken front takes (x >>= f) where
  ends := by
    intro s near known
    exact (first.ends near known).bind fun _ within less => (behind _).behindTaken near within less

theorem Moves.bind (first : Moves most taken front false x)
    (behind : ∀ a, Moves most taken [] takes (f a)) : Moves most taken front takes (x >>= f) where
  ends := by
    intro s near known
    refine (first.ends near known).bind fun {a t} _ within less => ?_
    have less : t.rest.length ≤ s.rest.length := less
    exact ((behind a).ends (by omega) List.nil_prefix).further within

theorem Moves.bindFinds {x : Rule (Option α)} {f : Option α → Rule β}
    (finds : ∀ s, Finds s.rest (x s)) (found : ∀ a, Moves most true [] false (f (some a)))
    (nothing : Moves most taken front takes (f none)) :
    Moves most taken front takes (x >>= f) where
  ends := by
    intro s near known
    have finds := finds s
    cases ran : x s with
    | ok a t =>
      rw [ran] at finds
      rw [Stateful.bindOk ran]
      cases a with
      | some a => exact (found a).behindTaken near finds.1 finds.2
      | none =>
        have same : t.rest = s.rest := finds
        rw [← same]
        exact nothing.ends (same ▸ near) (same ▸ known)
    | error e t =>
      rw [ran] at finds
      rw [Stateful.bindError ran]
      exact finds

theorem Finds.ofMoves {found : α → β} {s : Cursor Memory}
    (moves : Moves s.rest.length false front true x) (known : front <+: s.rest.map Char.ofUInt8) :
    Finds s.rest ((x >>= fun a => pure (some (found a))) s) := by
  have ends := moves.ends (Nat.le_refl _) known
  cases ran : x s with
  | ok a t =>
    rw [ran] at ends
    rw [Stateful.bindOk ran]
    exact ends
  | error e t =>
    rw [ran] at ends
    rw [Stateful.bindError ran]
    exact ends

theorem Moves.ofFinds {x : Rule (Option α)} (finds : ∀ s, Finds s.rest (x s)) :
    Moves most taken front false x where
  ends := by
    intro s _ _
    have finds := finds s
    cases ran : x s with
    | ok a t =>
      rw [ran] at finds
      cases a with
      | some a => exact .shorter finds.1 finds.2
      | none =>
        have same : t.rest = s.rest := finds
        exact ⟨same ▸ List.suffix_rfl, same ▸ Nat.le_refl _⟩
    | error e t =>
      rw [ran] at finds
      exact finds

theorem Moves.bindLook {look : Cursor Memory → α} (looks : ∀ s, x s = .ok (look s) s)
    (behind : ∀ s : Cursor Memory, s.rest.length + taken.toNat ≤ most →
      front <+: s.rest.map Char.ofUInt8 → Ends takes s.rest (f (look s) s)) :
    Moves most taken front takes (x >>= f) where
  ends := by
    intro s near known
    rw [Stateful.bindOk (looks s)]
    exact behind s near known

/- Comes last: where the first step takes something it is no matter what the others do. -/
instance (priority := low) [first : Moves most taken front false x]
    [behind : ∀ a, Moves most taken [] takes (f a)] : Moves most taken front takes (x >>= f) :=
  .bind first behind

instance [first : Moves most taken front true x] [behind : ∀ a, Moves most true [] false (f a)] :
    Moves most taken front takes (x >>= f) := .taking first behind

instance [first : Moves most true front false x] [behind : ∀ a, Moves most true [] false (f a)] :
    Moves most true front false (x >>= f) := .bind first behind

instance (a : α) : Moves most taken front false (pure a : Rule α) :=
  ⟨fun _ _ => ⟨List.suffix_rfl, Nat.le_refl _⟩⟩

instance : Moves most taken front takes (throw .mismatch : Rule α) :=
  ⟨fun _ _ => ⟨rfl, List.suffix_rfl⟩⟩

instance : Moves most taken front takes (refuse : Rule α) := by unfold refuse; infer_instance

instance (f : α → Rule β) : Moves most taken front takes (refuse >>= f) :=
  ⟨fun _ _ => ⟨rfl, List.suffix_rfl⟩⟩

instance : Moves most taken front takes (ofOption none : Rule α) := by
  unfold ofOption; infer_instance

instance (f : α → Rule β) : Moves most taken front takes (ofOption none >>= f) :=
  ⟨fun _ _ => ⟨rfl, List.suffix_rfl⟩⟩

instance (o : Option α) : Moves most taken front false (ofOption o : Rule α) := by
  cases o <;> unfold ofOption <;> infer_instance

instance (o : Option α) [behind : ∀ a, Moves most taken front takes (f a)] :
    Moves most taken front takes (ofOption o >>= f) := by
  cases o with
  | none => infer_instance
  | some a => exact behind a

theorem Moves.bindSome {a : α} (behind : Moves most taken front takes (f a)) :
    Moves most taken front takes (ofOption (some a) >>= f) := behind

instance (a : α) [behind : Moves most taken front takes (f a)] :
    Moves most taken front takes (ofOption (some a) >>= f) := .bindSome behind

theorem Moves.branch {c : Prop} [Decidable c] (yes : Moves most taken front takes x)
    (no : Moves most taken front takes y) :
    Moves most taken front takes (if c then x else y) := by
  split
  · exact yes
  · exact no

instance {c : Prop} [Decidable c] [yes : Moves most taken front takes x]
    [no : Moves most taken front takes y] : Moves most taken front takes (if c then x else y) :=
  .branch yes no

theorem Moves.joined {c : Prop} [Decidable c] {x : Rule PUnit} {f : PUnit → Rule β}
    (step : Moves most taken front false x) (behind : ∀ a, Moves most taken [] takes (f a)) :
    Moves most taken front takes (if c then x >>= f else f ⟨⟩) := by
  split
  · exact .bind step behind
  · exact (behind ⟨⟩).anywhere

end Steps

/-! ### Looking ahead -/

section Ahead
variable {α : Type} {most : Nat} {taken takes : Bool} {front : List Char} {x : Rule α}

theorem Moves.bindMemory {f : Memory → Rule α} (behind : ∀ m, Moves most taken front takes (f m)) :
    Moves most taken front takes (memory >>= f) :=
  .bindLook memoryLooks fun s near known => (behind s.memory).ends near known

instance {f : Memory → Rule α} [behind : ∀ m, Moves most taken front takes (f m)] :
    Moves most taken front takes (memory >>= f) := .bindMemory behind

theorem Moves.bindRest {f : List UInt8 → Rule α}
    (behind : ∀ bytes, bytes.length + taken.toNat ≤ most →
      Moves (bytes.length + 1) true front takes (f bytes)) :
    Moves most taken front takes (rest >>= f) :=
  .bindLook restLooks fun s near known => (behind s.rest near).ends (Nat.le_refl _) known

theorem Moves.bindAhead {n : Nat} {x : Rule (Option Char)} {f : Option Char → Rule α}
    (looks : ∀ s, x s = .ok (s.rest[n]?.map Char.ofUInt8) s) (before : front.length = n)
    (seen : ∀ c, Moves most taken (front ++ [c]) takes (f (some c)))
    (nothing : Moves most taken front takes (f none)) :
    Moves most taken front takes (x >>= f) :=
  .bindLook looks fun s near known => by
    obtain ⟨behind, bytes⟩ := known
    have byte : s.rest[n]?.map Char.ofUInt8 = behind[0]? := by
      rw [← List.getElem?_map, ← bytes, List.getElem?_append_right (Nat.le_of_eq before), before,
        Nat.sub_self]
    rw [byte]
    cases behind with
    | nil => exact nothing.ends near ⟨[], bytes⟩
    | cons c behind => exact (seen c).ends near ⟨behind, by rw [← bytes, List.append_assoc]; rfl⟩

theorem Moves.bindPeek {f : Option Char → Rule α}
    (seen : ∀ c, Moves most taken [c] takes (f (some c)))
    (nothing : Moves most taken [] takes (f none)) : Moves most taken [] takes (peek >>= f) :=
  .bindAhead peekLooks rfl seen nothing

theorem Moves.bindSecond {c : Char} {f : Option Char → Rule α}
    (seen : ∀ d, Moves most taken [c, d] takes (f (some d)))
    (nothing : Moves most taken [c] takes (f none)) :
    Moves most taken [c] takes (peekAt 1 >>= f) :=
  .bindAhead (peekAtLooks 1) rfl seen nothing

theorem Moves.glance {n : Nat} {x : Rule (Option Char)} {f : Option Char → Rule α}
    (looks : ∀ s, x s = .ok (s.rest[n]?.map Char.ofUInt8) s)
    (behind : ∀ c, Moves most taken front takes (f c)) : Moves most taken front takes (x >>= f) :=
  .bindLook looks fun _ near known => (behind _).ends near known

end Ahead

/-! ### Scanners -/

section Scanners
variable {α β : Type} {most : Nat} {taken takes : Bool} {front : List Char} {x y : Rule α}

theorem Moves.bindCurrent {f : Char → Rule α} (behind : ∀ c, Moves most taken [c] takes (f c)) :
    Moves most taken [] takes (current >>= f) := by
  unfold current
  rw [bind_assoc]
  exact .bindPeek behind inferInstance

instance {f : Char → Rule α} [behind : ∀ c, Moves most taken [c] takes (f c)] :
    Moves most taken [] takes (current >>= f) := .bindCurrent behind

theorem Moves.skip {n : Nat} (positive : 0 < n) (within : n ≤ front.length) :
    Moves most taken front takes (skip n : Rule _) where
  ends := by
    intro s near known
    have there : n ≤ s.rest.length := by simpa using Nat.le_trans within known.length_le
    have less : (s.rest.drop n).length < s.rest.length := by
      rw [List.length_drop]
      omega
    rw [skipWithin there]
    exact .shorter (List.drop_suffix n s.rest) less

instance (c : Char) : Moves most taken (c :: front) takes (Scanner.skip 1 : Rule _) :=
  .skip (Nat.le_refl _) (Nat.succ_le_succ (Nat.zero_le _))

instance (c d : Char) : Moves most taken (c :: d :: front) takes (Scanner.skip 2 : Rule _) :=
  .skip (Nat.succ_pos _) (Nat.succ_le_succ (Nat.succ_le_succ (Nat.zero_le _)))

example : (Scanner.skip 1 : Rule Unit) ⟨[], {}⟩ = .error .overrun ⟨[], {}⟩ := rfl

instance : Moves most taken [] takes (next : Rule _) := by unfold next; infer_instance

instance (f : Memory → Memory) : Moves most taken front false (alter f : Rule _) :=
  ⟨fun _ _ => ⟨List.suffix_rfl, Nat.le_refl _⟩⟩

instance (test : UInt8 → Bool) : Moves most taken front false (takeWhile test : Rule _) where
  ends := by
    intro s _ _
    rw [takeWhileRun]
    exact ⟨List.dropWhile_suffix test, (List.dropWhile_suffix test).length_le⟩

theorem Moves.restoring (putBack : Memory → Memory → Memory)
    (inner : Moves most taken front takes x) :
    Moves most taken front takes (Scanner.restoring putBack x) where
  ends := by
    intro s near known
    have ends := inner.ends near known
    unfold Scanner.restoring
    cases ran : x s with
    | ok a t =>
      rw [ran] at ends
      exact ends
    | error e t =>
      rw [ran] at ends
      exact ends

instance (putBack : Memory → Memory → Memory) [inner : Moves most taken front takes x] :
    Moves most taken front takes (restoring putBack x) := .restoring putBack inner

instance [Moves most taken front takes x] : Moves most taken front takes (aside x) := by
  unfold aside; infer_instance

theorem Moves.nested (inner : Moves most taken front takes x) :
    Moves most taken front takes (Grammar.nested x) where
  ends := by
    intro s near known
    unfold Grammar.nested
    dsimp only
    split
    · exact (inner.restoring _).ends (s := { s with memory.nesting := s.memory.nesting + 1 })
        near known
    · exact ⟨rfl, List.suffix_rfl⟩

end Scanners

/-! ### Texts -/

theorem noneEmpty : ∀ text ∈ texts, text.toList ≠ [] := by decide

section Texts
variable {α : Type} {most : Nat} {taken takes : Bool} {front : List Char} {x y : Rule α}

theorem afterSource {cs : List Char} {bytes behind : List UInt8}
    (found : after? cs bytes = some behind) :
    behind <:+ bytes ∧ behind.length + cs.length = bytes.length := by
  induction cs generalizing bytes with
  | nil =>
    cases found
    exact ⟨List.suffix_rfl, rfl⟩
  | cons c cs ih =>
    cases bytes with
    | nil => cases found
    | cons b bytes =>
      rw [after?] at found
      split at found
      · obtain ⟨within, all⟩ := ih found
        refine ⟨within.trans (List.suffix_cons b bytes), ?_⟩
        rw [List.length_cons, List.length_cons, ← Nat.add_assoc, all]
      · cases found

theorem Moves.bindAccept {text : String} (nonempty : text.toList ≠ [])
    (found : Moves most true [] false x) (missing : Moves most taken front takes y) :
    Moves most taken front takes
      (accept text >>= fun isFound => if isFound = true then x else y) where
  ends := by
    intro s near known
    cases start : after? text.toList s.rest with
    | none =>
      rw [Stateful.bindOk (acceptMissing start s.memory)]
      exact missing.ends near known
    | some behind =>
      obtain ⟨within, all⟩ := afterSource start
      have less : behind.length < s.rest.length := by
        rw [← all]
        exact Nat.lt_add_of_pos_right (List.length_pos_iff.mpr nonempty)
      rw [Stateful.bindOk (acceptFound start s.memory)]
      exact found.behindTaken near within less

instance (text : String) [known : Among text texts] [found : Moves most true [] false x]
    [missing : Moves most taken front takes y] :
    Moves most taken front takes (accept text >>= fun isFound => if isFound = true then x else y) :=
  .bindAccept (noneEmpty text known.mem) found missing

theorem frontByte {c : Char} {bytes : List UInt8} (known : c :: front <+: bytes.map Char.ofUInt8) :
    ∃ b behind, bytes = b :: behind ∧ Char.ofUInt8 b = c := by
  cases bytes with
  | nil => exact absurd known.length_le (Nat.not_succ_le_zero _)
  | cons b behind => exact ⟨b, behind, rfl, (List.cons_prefix_cons.mp known).1.symm⟩

theorem Moves.bindSeen {text : String} {c : Char} {f : Bool → Rule α} (single : text.toList = [c])
    (found : Moves most true [] false (f true)) :
    Moves most taken (c :: front) takes (accept text >>= f) where
  ends := by
    rintro ⟨bytes, m⟩ near known
    obtain ⟨b, behind, rfl, same⟩ := frontByte known
    have start : after? text.toList (b :: behind) = some behind := by
      rw [single]
      exact afterSingle same behind
    rw [Stateful.bindOk (acceptFound start m)]
    exact found.behindTaken near (List.suffix_cons b behind) (Nat.lt_succ_self _)

theorem Moves.bindUnseen {text : String} {c d : Char} {f : Bool → Rule α}
    (single : text.toList = [d]) (other : c ≠ d)
    (missing : Moves most taken (c :: front) takes (f false)) :
    Moves most taken (c :: front) takes (accept text >>= f) where
  ends := by
    rintro ⟨bytes, m⟩ near known
    obtain ⟨b, behind, rfl, rfl⟩ := frontByte known
    have missed : accept text ⟨b :: behind, m⟩ = .ok false ⟨b :: behind, m⟩ :=
      acceptOther single (by rintro _ ⟨⟩; exact other) m
    rw [Stateful.bindOk missed]
    exact missing.ends near known

instance (text : String) : Moves most taken front false (accept text : Rule _) where
  ends := by
    intro s _ _
    cases start : after? text.toList s.rest with
    | none =>
      rw [acceptMissing start s.memory]
      exact ⟨List.suffix_rfl, Nat.le_refl _⟩
    | some behind =>
      rw [acceptFound start s.memory]
      exact ⟨(afterSource start).1, (afterSource start).1.length_le⟩

instance : Moves most taken front false (acceptAny [] : Rule _) := by
  unfold acceptAny; infer_instance

instance (text : String) (others : List String)
    [Moves most taken [] false (acceptAny others : Rule _)] :
    Moves most taken front false (acceptAny (text :: others) : Rule _) := by
  unfold acceptAny; infer_instance

instance (text : String) [Among text texts] :
    Moves most taken front takes (expect text : Rule _) := by
  unfold expect; infer_instance

end Texts

/-! ### Rounds -/

section Rounds
variable {α : Type} {most rounds : Nat} {taken : Bool} {front : List Char} {stop : Rule Bool}
  {item : Rule α}

theorem Moves.inRounds {ι : Type} {x : ι → Nat → Rule α} (enough : rounds ≤ most)
    (round : ∀ {fewer}, fewer < most → (∀ i, Moves fewer true [] false (x i fewer)) →
      ∀ i, Moves fewer false [] false (x i (fewer + 1))) (i : ι) :
    Moves rounds true front false (x i rounds) := by
  induction rounds generalizing i front with
  | zero => exact ⟨fun near _ => absurd near (Nat.not_succ_le_zero _)⟩
  | succ rounds ih =>
    have further : ∀ i, Moves rounds true [] false (x i rounds) := ih (Nat.le_of_succ_le enough)
    exact (round enough further i).within (Nat.le_refl _)

theorem Moves.manyUntilIn (stops : Moves most taken [] false stop)
    (items : Moves most taken [] true item) (enough : rounds + taken.toNat ≤ most + 1) :
    Moves rounds true front false (manyUntilIn stop item rounds) := by
  refine .inRounds (x := fun (_ : Unit) => Scanner.manyUntilIn stop item) (Nat.le_refl _)
    (fun {fewer} less further _ => ?_) ()
  have further := further ()
  have stops : Moves fewer false [] false stop := stops.within (by omega)
  have items : Moves fewer false [] true item := items.within (by omega)
  unfold Scanner.manyUntilIn; infer_instance

instance [stops : Moves most taken [] false stop] [items : Moves most taken [] true item] :
    Moves most taken front false (manyUntil stop item) := by
  unfold manyUntil
  exact .bindRest fun bytes near => .manyUntilIn stops items (by omega)

instance (text : String) [Moves most taken [] true item] :
    Moves most taken front false (manyTo text item) := by unfold manyTo; infer_instance

instance (text : String) [Moves most taken [] true item] :
    Moves most taken front false (manyAfter text item) := by unfold manyAfter; infer_instance

end Rounds
end CxxSymbols.Itanium.Grammar
