/-!
Files as the program meets them: why one cannot be read or written, and the parts of a path.
-/
namespace CxxSymbols.Host

inductive FileError where
  | notFound
  | notDirectory
  | isDirectory
  | noPermission
  | other (reason : String)
  deriving DecidableEq, Repr, Inhabited

def FileError.message : FileError → String
  | notFound => "No such file or directory (os error 2)"
  | notDirectory => "Not a directory (os error 20)"
  | isDirectory => "Is a directory (os error 21)"
  | noPermission => "Permission denied (os error 13)"
  | other reason => reason

namespace Path

def parts (path : String) : List String :=
  (path.splitOn "/").filter fun part => !part.isEmpty && part ≠ "."

def parent (path : String) : String :=
  match (parts path).dropLast with
  | [] => if path.startsWith "/" then "/" else "."
  | above => (if path.startsWith "/" then "/" else "") ++ "/".intercalate above

def extension? (path : String) : Option String :=
  match (parts path).getLast? with
  | none | some ".." => none
  | some name =>
    match (name.splitOn ".").reverse with
    | last :: _ :: rest => if rest.isEmpty ∧ name.startsWith "." then none else some last
    | _ => none

end Path

end CxxSymbols.Host
