import CxxSymbols.Host.Memory
import CxxSymbols.Proofs.Host.FileSystem
import Mathlib.Data.List.Nodup
import Mathlib.Data.List.Perm.Subperm
import Mathlib.Data.String.Basic
import Std.Data.String.ToNat
/-! A host in memory keeps its files as a file system does. The place of a file is the parts of its
path, and the parts of a path that is put together from parts are these. -/
namespace CxxSymbols.Host

/-! ### Parts of paths -/

namespace Path
open String (ofList splitOnAux)

theorem splitAtSlash (l m r : List Char) (acc : List String) :
    splitOnAux (ofList (l ++ m ++ r)) "/" ⟨String.utf8Len l⟩ ⟨String.utf8Len (l ++ m)⟩ 0 acc =
      acc.reverse ++ (List.splitOnPPrepend (· == '/') r m.reverse).map ofList := by
  have slash : String.Pos.Raw.get "/" 0 = '/' ∧ String.Pos.Raw.next "/" 0 = ⟨1⟩ ∧
      String.Pos.Raw.atEnd "/" ⟨1⟩ = true := by decide
  unfold splitOnAux
  cases r with
  | nil =>
    rw [if_pos ((String.atEnd_of_valid (l ++ m) []).mpr rfl), String.utf8Len_append,
      String.extract_of_valid]
    simp
  | cons c r =>
    have inside := mt (String.atEnd_of_valid (l ++ m) (c :: r)).mp (List.cons_ne_nil c r)
    rw [if_neg inside, String.get_of_valid, slash.1, slash.2.1, if_pos slash.2.2]
    by_cases same : c = '/'
    · subst same
      have back : String.Pos.Raw.unoffsetBy ⟨String.utf8Len (l ++ m) + '/'.utf8Size⟩ ⟨1⟩ =
          ⟨String.utf8Len l + String.utf8Len m⟩ := by
        rw [String.utf8Len_append]
        rfl
      rw [if_pos (by rfl), String.next_of_valid (l ++ m) '/' r, back, String.extract_of_valid]
      have rest := splitAtSlash (l ++ m ++ ['/']) [] r (ofList m :: acc)
      rw [List.append_nil, String.utf8Len_append, ← List.append_cons] at rest
      simpa [List.splitOnPPrepend_cons_eq_if] using rest
    · have start : String.Pos.Raw.unoffsetBy ⟨String.utf8Len (l ++ m)⟩ 0 =
          ⟨String.utf8Len (l ++ m)⟩ := rfl
      rw [if_neg (by simpa using same), start, String.next_of_valid (l ++ m) c r]
      have rest := splitAtSlash l (m ++ [c]) r acc
      rw [← List.append_assoc, String.utf8Len_append, ← List.append_cons] at rest
      simpa [List.splitOnPPrepend_cons_eq_if, same] using rest

theorem splitOnSlash (s : String) : s.splitOn "/" = (s.toList.splitOn '/').map ofList := by
  have whole := splitAtSlash [] [] s.toList []
  simpa [String.splitOn, List.splitOn_eq_splitOnP] using whole

theorem splitOffSeparator {α : Type} [BEq α] [LawfulBEq α] {x : α} :
    (xs : List α) → ∀ part ∈ xs.splitOn x, x ∉ part
  | [], part, member => by
    obtain rfl := List.mem_singleton.mp member
    exact List.not_mem_nil
  | y :: ys, part, member => by
    obtain ⟨first, rest, split⟩ := List.exists_cons_of_ne_nil (List.splitOn_ne_nil x ys)
    have later : ∀ part ∈ ys.splitOn x, x ∉ part := splitOffSeparator ys
    rw [split] at later
    rw [List.splitOn_cons_eq_if_modifyHead, split] at member
    by_cases same : (y == x) = true
    · rw [if_pos same] at member
      rcases List.mem_cons.mp member with rfl | behind
      · exact List.not_mem_nil
      · exact later part behind
    · rw [if_neg same] at member
      rcases List.mem_cons.mp member with rfl | behind
      · exact List.not_mem_cons_of_ne_of_not_mem (fun own => same (beq_iff_eq.mpr own.symm))
          (later first List.mem_cons_self)
      · exact later part (List.mem_cons_of_mem _ behind)

structure IsPart (part : String) : Prop where
  slashless : '/' ∉ part.toList
  named : part.isEmpty = false
  apart : part ≠ "."

theorem partsAreParts {path part : String} (member : part ∈ parts path) : IsPart part := by
  rw [parts, splitOnSlash, List.mem_filter, List.mem_map] at member
  obtain ⟨⟨chars, among, rfl⟩, kept⟩ := member
  simp only [ne_eq, decide_not, Bool.and_eq_true, Bool.not_eq_true', decide_eq_false_iff_not] at kept
  exact ⟨by rw [String.toList_ofList]; exact splitOffSeparator _ chars among, kept.1, kept.2⟩

theorem partsOfJoined {ps : List String} (each : ∀ part ∈ ps, IsPart part) :
    parts ("/".intercalate ps) = ps := by
  have kept : ps.filter (fun part => !part.isEmpty && part ≠ ".") = ps := by
    rw [List.filter_eq_self]
    intro part member
    simp [(each part member).named, (each part member).apart]
  rw [parts, splitOnSlash, String.toList_intercalate]
  cases ps with
  | nil => rfl
  | cons first rest =>
    have slash : "/".toList = ['/'] := rfl
    have slashless : ∀ chars ∈ (first :: rest).map String.toList, '/' ∉ chars := by
      intro chars member
      obtain ⟨part, among, rfl⟩ := List.mem_map.mp member
      exact (each part among).slashless
    rw [slash, List.splitOn_intercalate '/' slashless (by simp)]
    simpa using kept

end Path

namespace Memory

theorem lookupOfErased (files : List (List String × ByteArray)) (parts q : List String) :
    (files.filter fun (name, _) => name ≠ parts).lookup q =
      if q = parts then none else files.lookup q := by
  induction files with
  | nil => simp
  | cons file files ih =>
    obtain ⟨name, bytes⟩ := file
    by_cases other : name = parts
    · rw [List.filter_cons_of_neg (by simpa using other), ih, List.lookup_cons]
      by_cases same : q = name
      · rw [if_pos (same.trans other), if_pos (same.trans other)]
      · rw [beq_false_of_ne same]
    · rw [List.filter_cons_of_pos (by simpa using other), List.lookup_cons, List.lookup_cons, ih]
      by_cases same : q = name
      · simp [same, other]
      · rw [beq_false_of_ne same]

theorem fileOfErase (s : Memory) (parts : List String) :
    (s.erase parts).file? = Function.update s.file? parts none := by
  funext q
  rw [file?, erase, lookupOfErased, Function.update_apply, file?]

theorem fileOfPut (s : Memory) (parts : List String) (bytes : ByteArray) :
    (s.put parts bytes).file? = Function.update s.file? parts (some bytes) := by
  funext q
  rw [file?, put, List.lookup_cons, lookupOfErased, Function.update_apply, file?]
  by_cases same : q = parts
  · simp [same]
  · rw [if_neg same, beq_false_of_ne same, if_neg same]

/-! ### Names that are new -/

def nameIn (directory : List String) (n : Nat) : List String := directory ++ [".tmp" ++ toString n]

theorem numberOfName {directory : List String} {n m : Nat}
    (same : nameIn directory n = nameIn directory m) : n = m := by
  have numbers := List.append_cancel_left same
  simp only [List.cons.injEq, and_true] at numbers
  exact Nat.repr_injective (String.append_right_inj _ |>.mp numbers)

theorem nameIsPart (n : Nat) : Path.IsPart (".tmp" ++ toString n) where
  slashless member := by
    rw [String.toList_append, List.mem_append] at member
    rcases member with front | digits
    · exact absurd front (by decide)
    · have chars : (toString n).toList = Nat.toDigits 10 n := by
        rw [Nat.toString_eq_repr, Nat.repr, String.toList_ofList]
      rw [chars] at digits
      exact absurd (Nat.isDigit_of_mem_toDigits (by decide) (by decide) digits) (by decide)
  named := by
    rw [Bool.eq_false_iff]
    intro empty
    have shorter := congrArg String.length (String.isEmpty_iff.mp empty)
    rw [String.length_append] at shorter
    exact absurd shorter (by simp)
  apart same := by
    have shorter := congrArg String.length same
    rw [String.length_append, show ".tmp".length = 4 by rfl, show ".".length = 1 by rfl] at shorter
    omega

theorem nameFree (s : Memory) (directory : List String) :
    ∃ n < s.files.length + 1, ∀ file ∈ s.files, ¬(nameIn directory n).isPrefixOf file.1 := by
  -- each file stands in the way of one name at most, and there is one more name than files
  by_contra none
  push Not at none
  choose! taken among inFront using none
  have apart : ((List.range (s.files.length + 1)).map taken).Nodup := by
    refine List.Nodup.map_on ?_ List.nodup_range
    intro n below m below' same
    have first := List.isPrefixOf_iff_prefix.mp (inFront n (List.mem_range.mp below))
    have second := List.isPrefixOf_iff_prefix.mp (inFront m (List.mem_range.mp below'))
    rw [← same] at second
    exact numberOfName (List.prefix_of_prefix_length_le first second (by simp [nameIn])
      |>.eq_of_length (by simp [nameIn]))
  have within : (List.range (s.files.length + 1)).map taken ⊆ s.files := by
    intro file member
    obtain ⟨n, below, rfl⟩ := List.mem_map.mp member
    exact among n (List.mem_range.mp below)
  have fewer := (apart.subperm within).length_le
  rw [List.length_map, List.length_range] at fewer
  omega

theorem freshUnused (s : Memory) (directory : List String) :
    ∃ n, s.freshName directory = nameIn directory n ∧ s.file? (nameIn directory n) = none := by
  let free (n : Nat) : Bool := !s.files.any fun file => (nameIn directory n).isPrefixOf file.1
  have fresh : s.freshName directory =
      nameIn directory (((List.range (s.files.length + 1)).find? free).getD s.files.length) := rfl
  cases found : (List.range (s.files.length + 1)).find? free with
  | none =>
    obtain ⟨n, below, unused⟩ := s.nameFree directory
    have used := List.find?_eq_none.mp found n (List.mem_range.mpr below)
    simp only [free, Bool.not_eq_true', Bool.not_eq_false, List.any_eq_true] at used
    obtain ⟨file, member, inFront⟩ := used
    exact (unused file member inFront).elim
  | some n =>
    have unused := List.find?_some found
    simp only [free, Bool.not_eq_true', List.any_eq_false] at unused
    refine ⟨n, by rw [fresh, found, Option.getD_some], ?_⟩
    rw [file?, List.lookup_eq_none_iff]
    intro file member
    rw [bne_iff_ne]
    rintro same
    exact unused file member (List.isPrefixOf_iff_prefix.mpr (same ▸ List.prefix_refl _))

/-! ### What the steps do -/

theorem placeOfFresh (s : Memory) {directory : String} :
    Path.parts ("/".intercalate (s.freshName (Path.parts directory))) =
      s.freshName (Path.parts directory) := by
  obtain ⟨n, fresh, -⟩ := s.freshUnused (Path.parts directory)
  rw [fresh]
  refine Path.partsOfJoined fun part member => ?_
  rcases List.mem_append.mp member with above | last
  · exact Path.partsAreParts above
  · rw [List.mem_singleton.mp last]
    exact nameIsPart n

theorem readSource {s : Memory} {path : String} {bytes : ByteArray}
    (ok : s.read path = .ok bytes) : s.file? (Path.parts path) = some bytes := by
  unfold Memory.read at ok
  dsimp only at ok
  split at ok
  · cases ok
  · split at ok
    · rename_i found
      split at ok
      · cases ok
      · obtain rfl := Except.ok.inj ok
        exact found
    · cases ok

theorem runCreateIn (s : Memory) (directory : String) :
    (createIn directory : StateM Memory _).run s =
      if s.hasDirectory (Path.parts directory) then
        (.ok ("/".intercalate (s.freshName (Path.parts directory))),
          s.put (s.freshName (Path.parts directory)) ByteArray.empty)
      else (.error (s.whyAbsent (Path.parts directory)), s) := by
  by_cases there : s.hasDirectory (Path.parts directory) = true <;> simp [createIn, there] <;> rfl

theorem runWrite (s : Memory) (path : String) (bytes : ByteArray) :
    (write path bytes : StateM Memory _).run s =
      match s.obstacle? path with
      | some e => (.error e, s)
      | none => (.ok (), s.put (Path.parts path) bytes) := by
  cases obstacle : s.obstacle? path <;> simp [write, obstacle] <;> rfl

theorem runRename (s : Memory) (source path : String) :
    (rename source path : StateM Memory _).run s =
      match s.obstacle? path, s.file? (Path.parts source) with
      | some e, _ => (.error e, s)
      | none, none => (.error .notFound, s)
      | none, some bytes => (.ok (), (s.erase (Path.parts source)).put (Path.parts path) bytes) := by
  cases obstacle : s.obstacle? path <;> cases found : s.file? (Path.parts source) <;>
    simp [rename, obstacle, found] <;> rfl

def fileSystem : FileSystem Memory (List String) where
  place := Path.parts
  content := file?
  complained ran := by
    cases ran
    rfl
  looked ran := by
    cases ran
    rfl
  readThere ran := readSource (congrArg Prod.fst ran)
  created {s t directory file} ran := by
    rw [runCreateIn] at ran
    split at ran
    · cases ran
      obtain ⟨n, fresh, unused⟩ := s.freshUnused (Path.parts directory)
      rw [placeOfFresh]
      exact ⟨fresh ▸ unused, fileOfPut ..⟩
    · cases ran
  notCreated ran := by
    rw [runCreateIn] at ran
    split at ran
    · cases ran
    · cases ran
      rfl
  written ran := by
    rw [runWrite] at ran
    split at ran
    · cases ran
    · cases ran
      exact fileOfPut ..
  notWritten ran p _ := by
    rw [runWrite] at ran
    split at ran
    · cases ran
      rfl
    · cases ran
  renamed {s t source path} ran := by
    rw [runRename] at ran
    split at ran
    · cases ran
    · cases ran
    · rename_i found
      cases ran
      rw [fileOfPut, fileOfErase, found]
  notRenamed ran := by
    rw [runRename] at ran
    split at ran
    · cases ran
      rfl
    · cases ran
      rfl
    · cases ran
  removed ran := by
    cases ran
    exact fileOfErase ..

end Memory

end CxxSymbols.Host
