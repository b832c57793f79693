import CxxSymbols.Canonical.Key
/-!
Short names for common spellings of the standard library: the strings, and containers and smart
pointers whose last template argument is the default. Arguments are compared by their printed
form, so that all schemes share the rules. What does not match exactly stays as it is.
-/
namespace CxxSymbols.Canonical

def stringAlias? (args : List Ty) : Option String :=
  match args with
  | [char, traits, alloc] =>
    let c := char.text
    let alias? :=
      if c = "char" then some "string"
      else if c = "wchar_t" ∨ c = "wchar" then some "wstring"
      else none
    if traits.text = "std::char_traits<" ++ c ++ ">" ∧ alloc.text = "std::allocator<" ++ c ++ ">"
      then alias? else none
  | _ => none

def Ty.isStdOver (t : Ty) (helper : String) (base : Ty) : Bool :=
  match t with
  | .named ⟨[⟨"std", none⟩, ⟨spelling, some [arg]⟩]⟩ => spelling = helper && arg.text = base.text
  | _ => false

def dropDefaulted (helper : String) : List Ty → List Ty
  | [base, second] => if second.isStdOver helper base then [base] else [base, second]
  | args => args

def Piece.stdAlias (p : Piece) : Piece :=
  match p.args with
  | none => p
  | some args =>
    if p.spelling = "basic_string" then
      match stringAlias? args with
      | some short => .plain short
      | none => p
    else if p.spelling = "vector" ∨ p.spelling = "initializer_list" then
      .template p.spelling (dropDefaulted "allocator" args)
    else if p.spelling = "unique_ptr" then
      .template p.spelling (dropDefaulted "default_delete" args)
    else p

/- Shortens what follows `std`, after the inline namespace `__cxx11` has been taken out. -/
def Name.stdAlias (n : Name) : Name :=
  match n.pieces with
  | ⟨"std", none⟩ :: ⟨"__cxx11", none⟩ :: p :: rest => ⟨.plain "std" :: p.stdAlias :: rest⟩
  | ⟨"std", none⟩ :: ⟨"__cxx11", none⟩ :: [] => ⟨[.plain "std"]⟩
  | ⟨"std", none⟩ :: p :: rest => ⟨.plain "std" :: p.stdAlias :: rest⟩
  | _ => n

end CxxSymbols.Canonical
