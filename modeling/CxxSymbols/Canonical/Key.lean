import CxxSymbols.Canonical.Basic
/-!
The printed form of the canonical model. Qualifiers and pointers stand in front of what they
apply to and the return type behind an arrow, so that a key reads from left to right without
parentheses around declarators.
-/
namespace CxxSymbols.Canonical

namespace Qualifiers

def text (q : Qualifiers) : String :=
  (if q.isConst then "const " else "") ++ (if q.isVolatile then "volatile " else "") ++
    (if q.isRestrict then "restrict " else "")

def label (q : Qualifiers) : String :=
  " ".intercalate ((if q.isConst then ["const"] else []) ++
    (if q.isVolatile then ["volatile"] else []) ++ (if q.isRestrict then ["restrict"] else []))

end Qualifiers

def Indirection.text : Indirection → String
  | pointer => "* "
  | reference => "& "
  | rvalueReference => "&& "

def RefQualifier.text : RefQualifier → String
  | none => ""
  | lvalue => "& "
  | rvalue => "&& "

def SpecialKind.text (type : String) : SpecialKind → String
  | vtable => type ++ "::$vtable"
  | completeObjectLocator => type ++ "::$complete_object_locator"
  | typeInfo => type ++ " <- $type_info"
  | typeInfoName => type ++ " <- $type_info_name"

mutual

def Ty.text : Ty → String
  | .skipped => "$SKIP_TYPE"
  | .special tag => "$$" ++ tag
  | .named name => name.text
  | .qualified child quals => quals.text ++ child.text
  | .indirect child kind => kind.text ++ child.text
  | .function signature => signature.text
  | .nested entity => entity.text

def Name.text : Name → String
  | ⟨pieces⟩ => "::".intercalate (Piece.texts pieces)

def Piece.texts : List Piece → List String
  | [] => []
  | p :: rest => p.text :: Piece.texts rest

def Piece.text : Piece → String
  | ⟨spelling, args⟩ => spelling ++ Piece.argsText args

def Piece.argsText : Option (List Ty) → String
  | none => ""
  | some args => "<" ++ ", ".intercalate (Ty.texts args) ++ ">"

def Ty.texts : List Ty → List String
  | [] => []
  | t :: rest => t.text :: Ty.texts rest

def Ty.textOr (unknown : String) : Option Ty → String
  | none => unknown
  | some t => t.text

def Signature.text : Signature → String
  | ⟨params, ret, quals, refQual⟩ =>
    "(" ++ ", ".intercalate (Ty.texts params) ++ ") " ++ quals.text ++ refQual.text ++ "-> " ++
      Ty.textOr "unknown" ret

def LocalEntity.text : LocalEntity → String
  | ⟨root, name, type⟩ => root.key ++ " | " ++ name.text ++ " -> " ++ Ty.textOr "$unknown" type

def Root.key : Root → String
  | .unknown => "$SKIP_ROOT"
  | .data name type => name.text ++ " -> " ++ Ty.textOr "$unknown" type
  | .function name signature => name.text ++ signature.text
  | .special kind type => kind.text type.text
  | .nested entity => entity.text

end

end CxxSymbols.Canonical
