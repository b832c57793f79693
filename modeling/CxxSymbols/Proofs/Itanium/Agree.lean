import CxxSymbols.Itanium.Grammar.Encoding
import CxxSymbols.Proofs.Stateful
import CxxSymbols.Proofs.Text.Scanner
/-! Rules that do the same at one level of nesting. What one of them reads there the other reads
too, also where a compiler has added something behind the name, and both come back to the level. A
rule that is made of such rules in the same way as another does the same as the other. So two
grammars that differ only in calls which are never made read the same, and no grammar reads on
beyond a dot. -/
namespace CxxSymbols

def Cursor.followedBy {μ : Type} (s : Cursor μ) (tail : List UInt8) : Cursor μ :=
  { s with rest := s.rest ++ tail }

theorem Cursor.followedByNothing {μ : Type} (s : Cursor μ) : s.followedBy [] = s := by
  rw [followedBy, List.append_nil]

namespace Itanium.Grammar
open Scanner

class Appendix (tail : List UInt8) : Prop where
  dot : ∀ b ∈ tail.head?, b = 46

instance : Appendix [] := ⟨fun _ first => by cases first⟩

/- Whatever `x` reads at a level of nesting, with so many bytes left at least, `y` reads as well
where the tail is added, and the level is the same behind it. -/
class Agree {α : Type} (tail : List UInt8) (level left : Nat) (x y : Rule α) : Prop where
  ok : ∀ {s a t}, s.memory.nesting = level → left ≤ s.rest.length → x s = .ok a t →
    y (s.followedBy tail) = .ok a (t.followedBy tail) ∧ t.memory.nesting = level

section Steps
variable {α β : Type} {tail : List UInt8} {level left : Nat} {x y x' y' : Rule α} {f g : α → Rule β}

theorem Agree.weaken {more : Nat} (same : Agree tail level left x y) (above : left ≤ more) :
    Agree tail level more x y :=
  ⟨fun here enough ran => same.ok here (Nat.le_trans above enough) ran⟩

theorem Agree.keeps (same : ∀ {s a t}, x s = .ok a t →
    x (s.followedBy tail) = .ok a (t.followedBy tail) ∧ t.memory.nesting = s.memory.nesting) :
    Agree tail level left x x :=
  ⟨fun here _ ran => ⟨(same ran).1, (same ran).2.trans here⟩⟩

theorem Agree.bind (first : Agree tail level left x y)
    (behind : ∀ a, Agree tail level 0 (f a) (g a)) : Agree tail level left (x >>= f) (y >>= g) where
  ok := by
    intro s b t here enough ran
    obtain ⟨a, between, one, two⟩ := Stateful.bindOkSource ran
    obtain ⟨one, there⟩ := first.ok here enough one
    rw [Stateful.bindOk one]
    exact (behind a).ok there (Nat.zero_le _) two

theorem Agree.bindLook {look : Cursor Memory → α} (looks : ∀ s, x s = .ok (look s) s)
    (behind : ∀ s, s.memory.nesting = level → left ≤ s.rest.length → ∃ more ≤ s.rest.length,
      Agree tail level more (f (look s)) (g (look (s.followedBy tail)))) :
    Agree tail level left (x >>= f) (x >>= g) where
  ok := by
    intro s b t here enough ran
    rw [Stateful.bindOk (looks s)] at ran
    rw [Stateful.bindOk (looks _)]
    obtain ⟨more, there, same⟩ := behind s here enough
    exact same.ok here there ran

theorem Agree.bindUnread {x y : Rule (Option α)} {f g : Option α → Rule β}
    (first : Agree tail level left x y)
    (unread : ∀ {s t}, x s = .ok none t → t.rest = s.rest)
    (found : ∀ a, Agree tail level 0 (f (some a)) (g (some a)))
    (none : Agree tail level left (f none) (g none)) :
    Agree tail level left (x >>= f) (y >>= g) where
  ok := by
    intro s b t here enough ran
    obtain ⟨a, between, one, two⟩ := Stateful.bindOkSource ran
    obtain ⟨same, there⟩ := first.ok here enough one
    rw [Stateful.bindOk same]
    cases a with
    | some a => exact (found a).ok there (Nat.zero_le _) two
    | none => exact none.ok there (by rw [unread one]; exact enough) two

theorem Agree.set {s : Cursor Memory} (here : s.memory.nesting = level) :
    Agree tail level left (MonadStateOf.set s : Rule PUnit)
      (MonadStateOf.set (s.followedBy tail)) :=
  ⟨fun _ _ ran => by cases ran; exact ⟨rfl, here⟩⟩

instance [first : Agree tail level left x y] [behind : ∀ a, Agree tail level 0 (f a) (g a)] :
    Agree tail level left (x >>= f) (y >>= g) := .bind first behind

instance (a : α) : Agree tail level left (pure a) (pure a) :=
  .keeps fun ran => by cases ran; exact ⟨rfl, rfl⟩

instance (e : Refusal) (y : Rule α) : Agree tail level left (throw e) y :=
  ⟨fun _ _ ran => by cases ran⟩

theorem Agree.branch {c : Prop} [Decidable c] (yes : Agree tail level left x y)
    (no : Agree tail level left x' y') :
    Agree tail level left (if c then x else x') (if c then y else y') := by
  split
  · exact yes
  · exact no

instance {c : Prop} [Decidable c] [yes : Agree tail level left x y]
    [no : Agree tail level left x' y'] :
    Agree tail level left (if c then x else x') (if c then y else y') := .branch yes no

theorem Agree.joined {c : Prop} [Decidable c] {x y : Rule PUnit} {f g : PUnit → Rule β}
    (step : Agree tail level left x y) (behind : ∀ a, Agree tail level 0 (f a) (g a)) :
    Agree tail level left (if c then x >>= f else f ⟨⟩) (if c then y >>= g else g ⟨⟩) := by
  split
  · exact .bind step behind
  · exact (behind ⟨⟩).weaken (Nat.zero_le _)

end Steps

/-! ### Looking ahead -/

section Ahead
variable {α : Type} {tail : List UInt8} {level left : Nat}

theorem aheadOf (tail : List UInt8) [ends : Appendix tail] {n : Nat} {bytes : List UInt8}
    (within : n ≤ bytes.length) :
    (bytes ++ tail)[n]? = bytes[n]? ∨ bytes[n]? = none ∧ (bytes ++ tail)[n]? = some 46 := by
  by_cases inside : n < bytes.length
  · exact .inl (List.getElem?_append_left inside)
  · have last : n - bytes.length = 0 := by omega
    have nothing : bytes[n]? = none := List.getElem?_eq_none (by omega)
    rw [nothing, List.getElem?_append_right (by omega), last]
    cases tail with
    | nil => exact .inl rfl
    | cons b tail =>
      obtain rfl := ends.dot b rfl
      exact .inr ⟨rfl, rfl⟩

theorem peekAtLooks (n : Nat) (s : Cursor Memory) :
    (peekAt n : Rule _) s = .ok (s.rest[n]?.map Char.ofUInt8) s := rfl

theorem peekLooks (s : Cursor Memory) :
    (peek : Rule _) s = .ok (s.rest[0]?.map Char.ofUInt8) s := by
  rw [← List.head?_eq_getElem?]
  rfl

theorem memoryLooks (s : Cursor Memory) : (memory : Rule _) s = .ok s.memory s := rfl

theorem lookSwap (n : Nat) (f : Option Char → Option Char → Rule α) :
    (peekAt n >>= fun ahead => peek >>= fun first => f ahead first) =
      (peek >>= fun first => peekAt n >>= fun ahead => f ahead first) := rfl

theorem restLooks (s : Cursor Memory) : (rest : Rule _) s = .ok s.rest s := rfl

theorem getLooks (s : Cursor Memory) : (get : Rule _) s = .ok s s := rfl

theorem Agree.bindMemory {f g : Memory → Rule α}
    (behind : ∀ m, m.nesting = level → Agree tail level left (f m) (g m)) :
    Agree tail level left (memory >>= f) (memory >>= g) :=
  .bindLook memoryLooks fun s here enough => ⟨left, enough, behind s.memory here⟩

theorem Agree.bindGet {f g : Cursor Memory → Rule α}
    (behind : ∀ s, s.memory.nesting = level →
      Agree tail level left (f s) (g (s.followedBy tail))) :
    Agree tail level left (get >>= f) (get >>= g) :=
  .bindLook getLooks fun s here enough => ⟨left, enough, behind s here⟩

theorem Agree.bindRest {f g : List UInt8 → Rule α}
    (behind : ∀ bytes, left ≤ bytes.length →
      Agree tail level bytes.length (f bytes) (g (bytes ++ tail))) :
    Agree tail level left (rest >>= f) (rest >>= g) :=
  .bindLook restLooks fun s _ enough => ⟨_, Nat.le_refl _, behind s.rest enough⟩

variable [ends : Appendix tail] {n : Nat} {x : Rule (Option Char)} {f g : Option Char → Rule α}

theorem Agree.bindAhead (looks : ∀ s, x s = .ok (s.rest[n]?.map Char.ofUInt8) s)
    (within : n ≤ left)
    (seen : ∀ c, ∃ more ≤ max left (n + 1), Agree tail level more (f (some c)) (g (some c)))
    (nothing : Agree tail level left (f none) (g none))
    (dot : Agree tail level left (f none) (g (some '.'))) :
    Agree tail level left (x >>= f) (x >>= g) := by
  refine .bindLook looks fun s here enough => ?_
  have ahead := aheadOf tail (Nat.le_trans within enough)
  rw [Cursor.followedBy]
  cases byte : s.rest[n]? with
  | some b =>
    rw [byte] at ahead
    have same : (s.rest ++ tail)[n]? = some b := by simpa using ahead
    have inside := (List.getElem?_eq_some_iff.mp byte).1
    obtain ⟨more, below, agrees⟩ := seen (Char.ofUInt8 b)
    rw [same]
    exact ⟨more, by omega, agrees⟩
  | none =>
    refine ⟨left, enough, ?_⟩
    rw [byte] at ahead
    rcases ahead with same | ⟨-, begins⟩
    · rw [same]
      exact nothing
    · rw [begins]
      exact dot

theorem Agree.bindSeen (looks : ∀ s, x s = .ok (s.rest[n]?.map Char.ofUInt8) s)
    (within : n ≤ left) (blind : g (some '.') = g none)
    (seen : ∀ c, Agree tail level (n + 1) (f (some c)) (g (some c)))
    (nothing : Agree tail level left (f none) (g none)) :
    Agree tail level left (x >>= f) (x >>= g) :=
  .bindAhead looks within (fun c => ⟨n + 1, Nat.le_max_right _ _, seen c⟩) nothing
    (blind ▸ nothing)

theorem Agree.glance (looks : ∀ s, x s = .ok (s.rest[n]?.map Char.ofUInt8) s)
    (within : n ≤ left) (blind : g (some '.') = g none)
    (behind : ∀ c, Agree tail level left (f c) (g c)) :
    Agree tail level left (x >>= f) (x >>= g) :=
  .bindAhead looks within (fun _ => ⟨left, Nat.le_max_left _ _, behind _⟩) (behind none)
    (blind ▸ behind none)

omit ends in
theorem Agree.bindByte {f g : Char → Rule α}
    (looks : ∀ s, x s = .ok (s.rest[n]?.map Char.ofUInt8) s)
    (behind : ∀ c, Agree tail level (n + 1) (f c) (g c)) :
    Agree tail level left (x >>= fun c => ofOption c >>= f) (x >>= fun c => ofOption c >>= g) := by
  refine .bindLook looks fun s here enough => ?_
  cases byte : s.rest[n]? with
  | none => exact ⟨left, enough, ⟨fun _ _ ran => by cases ran⟩⟩
  | some b =>
    have inside := (List.getElem?_eq_some_iff.mp byte).1
    have same : (s.followedBy tail).rest[n]? = some b :=
      (List.getElem?_append_left inside).trans byte
    rw [same]
    exact ⟨n + 1, inside, behind (Char.ofUInt8 b)⟩

omit ends in
theorem Agree.bindCurrent {f g : Char → Rule α}
    (behind : ∀ c, Agree tail level 1 (f c) (g c)) :
    Agree tail level left (current >>= f) (current >>= g) := by
  unfold current
  rw [bind_assoc, bind_assoc]
  exact .bindByte peekLooks behind

end Ahead

/-! ### Scanners -/

section Scanners
variable {α β : Type} {tail : List UInt8} {level left n : Nat} {x y : Rule α}
  {stop stop' : Rule Bool}

instance {f g : Char → Rule α} [behind : ∀ c, Agree tail level 1 (f c) (g c)] :
    Agree tail level left (current >>= f) (current >>= g) := .bindCurrent behind

instance {f g : Char → Rule α} [behind : ∀ c, Agree tail level (n + 1) (f c) (g c)] :
    Agree tail level left (peekAt n >>= fun c => ofOption c >>= f)
      (peekAt n >>= fun c => ofOption c >>= g) := .bindByte (peekAtLooks n) behind

instance {f g : Memory → Rule α} [behind : ∀ m, Agree tail level left (f m) (g m)] :
    Agree tail level left (memory >>= f) (memory >>= g) := .bindMemory fun m _ => behind m

instance (bytes : List UInt8) :
    Agree tail level left (setRest bytes : Rule _) (setRest (bytes ++ tail)) :=
  ⟨fun here _ ran => by cases ran; exact ⟨rfl, here⟩⟩

instance {r : Memory → Reading} {c : Memory → Array Node} {a : Memory → List Node}
    {d p : Memory → Bool} {l : Memory → String} {b : Memory → Nat} : Agree tail level left
    (alter fun m : Memory => ⟨r m, c m, a m, d m, p m, l m, m.nesting, b m⟩)
    (alter fun m : Memory => ⟨r m, c m, a m, d m, p m, l m, m.nesting, b m⟩) :=
  .keeps fun ran => by cases ran; exact ⟨rfl, rfl⟩

instance (y : Rule α) : Agree tail level left (refuse : Rule α) y := by
  unfold refuse; infer_instance

instance (f : β → Rule α) (y : Rule α) : Agree tail level left (refuse >>= f) y :=
  ⟨fun _ _ ran => by cases ran⟩

instance (f : β → Rule α) (y : Rule α) : Agree tail level left (ofOption none >>= f) y :=
  ⟨fun _ _ ran => by cases ran⟩

instance (o : Option α) : Agree tail level left (ofOption o : Rule α) (ofOption o) := by
  cases o <;> unfold ofOption <;> infer_instance

instance (o : Option β) {f g : β → Rule α} [behind : ∀ b, Agree tail level left (f b) (g b)] :
    Agree tail level left (ofOption o >>= f) (ofOption o >>= g) := by
  cases o with
  | none => exact ⟨fun _ _ ran => by cases ran⟩
  | some b => exact behind b

theorem skipWithin {s : Cursor Memory} (within : n ≤ s.rest.length) :
    (skip n : Rule _) s = .ok () { s with rest := s.rest.drop n } := by
  unfold skip
  rw [Stateful.bindOk (restLooks s), if_pos within]
  rfl

theorem Agree.skip (within : n ≤ left) : Agree tail level left (skip n : Rule _) (skip n) where
  ok := by
    intro s a t here enough ran
    have there : n ≤ s.rest.length := Nat.le_trans within enough
    have longer : n ≤ (s.followedBy tail).rest.length :=
      Nat.le_trans there (List.prefix_append s.rest tail).length_le
    rw [skipWithin there] at ran
    cases ran
    rw [skipWithin longer]
    refine ⟨?_, here⟩
    show EStateM.Result.ok () { s with rest := (s.rest ++ tail).drop n } = _
    rw [List.drop_append_of_le_length there]
    rfl

instance : Agree tail level (left + 1) (skip 1 : Rule _) (skip 1) :=
  .skip (Nat.le_add_left _ _)

instance : Agree tail level (left + 2) (skip 2 : Rule _) (skip 2) :=
  .skip (Nat.le_add_left _ _)

instance : Agree tail level left (next : Rule _) next := by unfold next; infer_instance

end Scanners

/-! ### Texts -/

abbrev texts : List String := ["_", "_Z", "A", "B", "C", "CI", "D", "DO", "Do", "Dw", "Dx", "E",
  "F", "I", "K", "L", "M", "N", "O", "OE", "R", "RE", "S", "St", "T", "Ua9enable_if", "Ul", "Ut",
  "V", "X", "Y", "Z", "d", "dX", "di", "dn", "dx", "fL", "fp", "gs", "h", "il", "n", "on", "p",
  "pi", "r", "s", "sr", "srN", "t", "v"]

class Among (text : String) (others : List String) : Prop where
  mem : text ∈ others

instance (text : String) (others : List String) : Among text (text :: others) :=
  ⟨List.mem_cons_self⟩

instance (text other : String) (others : List String) [behind : Among text others] :
    Among text (other :: others) := ⟨List.mem_cons_of_mem _ behind.mem⟩

theorem noDots : ∀ text ∈ texts, '.' ∉ text.toList := by decide

section Texts
variable {α : Type} {tail : List UInt8} {level left : Nat} {x y : Rule α} {stop stop' : Rule Bool}
  [ends : Appendix tail]

theorem afterBefore {cs : List Char} (plain : '.' ∉ cs)
    (bytes : List UInt8) : after? cs (bytes ++ tail) = (after? cs bytes).map (· ++ tail) := by
  induction cs generalizing bytes with
  | nil => rfl
  | cons c cs ih =>
    obtain ⟨first, others⟩ := not_or.mp fun mem => plain (List.mem_cons.mpr mem)
    cases bytes with
    | nil =>
      refine afterMissing fun b start => ?_
      rw [ends.dot b start]
      exact first
    | cons b bytes =>
      rw [List.cons_append, after?, after?]
      split
      · exact ih others bytes
      · rfl

instance (text : String) [known : Among text texts] :
    Agree tail level left (accept text : Rule _) (accept text) := by
  unfold accept
  refine .bindRest fun bytes _ => ?_
  rw [afterBefore (noDots text known.mem)]
  cases after? text.toList bytes with
  | none =>
    rw [Option.map_none]
    infer_instance
  | some behind =>
    rw [Option.map_some]
    infer_instance

instance acceptNone : Agree tail level left (acceptAny [] : Rule _) (acceptAny []) := by
  unfold acceptAny; infer_instance

instance (text : String) (others : List String) [Among text texts]
    [Agree tail level 0 (acceptAny others : Rule _) (acceptAny others)] :
    Agree tail level left (acceptAny (text :: others) : Rule _) (acceptAny (text :: others)) := by
  unfold acceptAny; infer_instance

instance (text : String) [Among text texts] :
    Agree tail level left (expect text : Rule _) (expect text) := by
  unfold expect; infer_instance

theorem appendixStops {test : UInt8 → Bool} (stops : test 46 = false) :
    ∀ b ∈ tail.head?, test b = false := by
  intro b first
  rw [ends.dot b first]
  exact stops

theorem Agree.takeWhile {test : UInt8 → Bool} (stops : test 46 = false) :
    Agree tail level left (takeWhile test : Rule _) (takeWhile test) := by
  unfold Scanner.takeWhile
  refine .bindRest fun bytes _ => ?_
  have stop : ∀ b ∈ tail.head?, test b = false := appendixStops stops
  obtain ⟨taken, behind⟩ := stretchBefore stop bytes
  rw [taken, behind]
  infer_instance

theorem takeWhileRun (test : UInt8 → Bool) (s : Cursor Memory) :
    (Scanner.takeWhile test : Rule _) s =
      .ok (s.rest.takeWhile test) { s with rest := s.rest.dropWhile test } := rfl

/- A stretch up to an `E` that has to follow. Without one nothing is read, so the tail is no part of
the stretch, although it may pass the test. -/
theorem Agree.stretchTo {f g : List UInt8 → Rule α}
    (behind : ∀ value, Agree tail level 0 (f value) (g value)) : Agree tail level left
      (Scanner.takeWhile (· ≠ 69) >>= fun value => expect "E" >>= fun _ => f value)
      (Scanner.takeWhile (· ≠ 69) >>= fun value => expect "E" >>= fun _ => g value) where
  ok := by
    intro s a t here enough ran
    rw [Stateful.bindOk (takeWhileRun _ s)] at ran
    by_cases closed : 69 ∈ s.rest
    · obtain ⟨taken, left⟩ := @stretchWithin _ (fun b => decide (b ≠ 69)) _ _ closed rfl tail
      have step : Agree tail level 0 (expect "E" : Rule _) (expect "E") := inferInstance
      rw [Stateful.bindOk (takeWhileRun _ _), Cursor.followedBy, taken, left]
      exact (Agree.bind step fun _ => behind _).ok
        (s := { s with rest := s.rest.dropWhile fun b => decide (b ≠ 69) }) here (Nat.zero_le _) ran
    · have all : ∀ b ∈ s.rest, decide (b ≠ 69) = true := fun b mem =>
        decide_eq_true fun same => closed (same ▸ mem)
      have nothing : s.rest.dropWhile (fun b => decide (b ≠ 69)) = [] := by
        rw [← List.append_nil s.rest]
        exact (takeStretch all (by rintro _ ⟨⟩)).2
      rw [nothing] at ran
      cases ran

section Rounds
variable [∀ left, Agree tail level left stop stop'] [∀ left, Agree tail level left x y]

omit ends in
theorem Agree.manyUntilIn {rounds more : Nat} (enough : rounds ≤ more) :
    Agree tail level left (manyUntilIn stop x rounds) (manyUntilIn stop' y more) := by
  induction rounds generalizing more left with
  | zero => unfold manyUntilIn; infer_instance
  | succ rounds ih =>
    obtain ⟨more, rfl⟩ := Nat.exists_eq_add_one_of_ne_zero (Nat.ne_zero_of_lt enough)
    have further (left : Nat) : Agree tail level left (manyUntilIn stop x rounds)
        (manyUntilIn stop' y more) := ih (Nat.le_of_succ_le_succ enough)
    unfold manyUntilIn; infer_instance

omit ends in
instance : Agree tail level left (manyUntil stop x) (manyUntil stop' y) := by
  unfold manyUntil
  exact .bindRest fun bytes _ =>
    .manyUntilIn (Nat.succ_le_succ (List.prefix_append bytes tail).length_le)

instance (text : String) [Among text texts] :
    Agree tail level left (manyTo text x) (manyTo text y) := by unfold manyTo; infer_instance

instance (text : String) [Among text texts] :
    Agree tail level left (manyAfter text x) (manyAfter text y) := by
  unfold manyAfter; infer_instance

end Rounds

end Texts

/-! ### Memory that is put back -/

section Memories
variable {α : Type} {tail : List UInt8} {level left : Nat} {x y : Rule α}

theorem Agree.restoring {r : Memory → Memory → Reading} {c : Memory → Memory → Array Node}
    {a : Memory → Memory → List Node} {d p : Memory → Memory → Bool} {l : Memory → Memory → String}
    {b : Memory → Memory → Nat} (same : Agree tail level left x y) : Agree tail level left
    (Scanner.restoring
      (fun m n : Memory => ⟨r m n, c m n, a m n, d m n, p m n, l m n, n.nesting, b m n⟩) x)
    (Scanner.restoring
      (fun m n : Memory => ⟨r m n, c m n, a m n, d m n, p m n, l m n, n.nesting, b m n⟩) y) where
  ok := by
    intro s a t here enough ran
    unfold Scanner.restoring at ran ⊢
    split at ran
    · rename_i b between inner
      cases ran
      obtain ⟨done, level⟩ := same.ok here enough inner
      rw [done]
      exact ⟨rfl, level⟩
    · cases ran

instance {r : Memory → Memory → Reading} {c : Memory → Memory → Array Node}
    {a : Memory → Memory → List Node} {d p : Memory → Memory → Bool} {l : Memory → Memory → String}
    {b : Memory → Memory → Nat} [same : Agree tail level left x y] : Agree tail level left
    (restoring (fun m n : Memory => ⟨r m n, c m n, a m n, d m n, p m n, l m n, n.nesting, b m n⟩) x)
    (restoring (fun m n : Memory => ⟨r m n, c m n, a m n, d m n, p m n, l m n, n.nesting, b m n⟩)
      y) :=
  .restoring same

instance [Agree tail level left x y] : Agree tail level left (aside x) (aside y) := by
  unfold aside; infer_instance

theorem nestedOkSource {s t : Cursor Memory} {a : α} (ran : nested x s = .ok a t) :
    s.memory.nesting + 1 ≤ maxNesting ∧ ∃ between : Cursor Memory,
      x { s with memory.nesting := s.memory.nesting + 1 } = .ok a between ∧
        t = { between with memory.nesting := between.memory.nesting - 1 } := by
  simp only [nested, restoring] at ran
  split at ran
  · rename_i within
    split at ran
    · rename_i b between inner
      cases ran
      exact ⟨within, between, inner, rfl⟩
    · cases ran
  · cases ran

theorem Agree.nested (same : Agree tail (level + 1) left x y) :
    Agree tail level left (Grammar.nested x) (Grammar.nested y) where
  ok := by
    intro s a t here enough ran
    obtain ⟨within, between, inner, rfl⟩ := nestedOkSource ran
    obtain ⟨done, below⟩ := same.ok (s := { s with memory.nesting := s.memory.nesting + 1 })
      (congrArg (· + 1) here) enough inner
    rw [Cursor.followedBy] at done
    refine ⟨by simp only [Grammar.nested, Scanner.restoring, Cursor.followedBy, if_pos within,
      done], ?_⟩
    show between.memory.nesting - 1 = level
    rw [below]
    rfl

theorem Agree.nowhere (deep : maxNesting ≤ level) : Agree tail level left (Grammar.nested x) y where
  ok := by
    intro s a t here _ ran
    have within := (nestedOkSource ran).1
    omega

end Memories
end Itanium.Grammar
end CxxSymbols
