import CxxSymbols.Microsoft.Symbol
import CxxSymbols.Text.Utf8
/-!
The usual spelling of Microsoft symbols. A type is spelled in two halves, one in front of what it
declares and one behind it. Blanks are set where a letter or one of a few signs would touch what
follows; a digit or an underscore at the end of a name gets none.
-/
namespace CxxSymbols.Microsoft

def joined (signs : List Char) (first second : String) : String :=
  match first.toList.getLast? with
  | none => second
  | some c => if c.isAlpha || signs.contains c then first ++ " " ++ second else first ++ second

def spaced (type word : String) : String := joined ['*', '&', '>'] type word

def declared (type name : String) : String := joined ['>'] type name

def quoted (text : String) : String := "`" ++ text ++ "'"

def Convention.keyword : Convention → String
  | cdecl => "__cdecl"
  | pascal => "__pascal"
  | thiscall => "__thiscall"
  | stdcall => "__stdcall"
  | fastcall => "__fastcall"

def Primitive.keyword : Primitive → String
  | void => "void"
  | bool => "bool"
  | char => "char"
  | schar => "signed char"
  | uchar => "unsigned char"
  | short => "short"
  | ushort => "unsigned short"
  | int => "int"
  | uint => "unsigned int"
  | long => "long"
  | ulong => "unsigned long"
  | int64 => "int64_t"
  | uint64 => "uint64_t"
  | int128 => "int128_t"
  | uint128 => "uint128_t"
  | wchar => "wchar_t"
  | char8 => "char8_t"
  | char16 => "char16_t"
  | char32 => "char32_t"
  | float => "float"
  | double => "double"
  | ldouble => "long double"

def TagKind.keyword : TagKind → String
  | typeAlias => ""
  | struct => "struct "
  | union => "union "
  | «class» => "class "
  | enum => "enum "

def Indirection.sign : Indirection → String
  | pointer => "*"
  | reference => "&"
  | rvalueReference => "&&"

def Access.label : Access → String
  | none => ""
  | «private» => "private: "
  | «protected» => "protected: "
  | «public» => "public: "

def Membership.label (m : Membership) : String :=
  (if m.isThunk then "[thunk]: " else "") ++ m.access.label ++
    (if m.isStatic then "static " else "") ++ (if m.isVirtual then "virtual " else "")

def VariableKind.label : VariableKind → String
  | privateStatic => "private: static "
  | protectedStatic => "protected: static "
  | publicStatic => "public: static "
  | global | functionStatic => ""

def Storage.behind (s : Storage) (type : String) : String :=
  let type := if s.isConst then spaced type "const" else type
  if s.isVolatile then spaced type "volatile" else type

def Storage.trailer (s : Storage) : String :=
  (if s.isConst then " const" else "") ++ (if s.isVolatile then " volatile" else "") ++
    (if s.isLvalue then " &" else "") ++ (if s.isRvalue then " &&" else "")

def Convention.behind (c : Convention) (ret : String) : String := spaced ret c.keyword ++ " "

/- The names that are the same in every scope. Constructors, destructors and conversions are named
so only where they are the base of a template. -/
def Intrinsic.text : Intrinsic → String
  | ctor => "ctor"
  | dtor => "dtor"
  | dynamicInitializer => quoted "dynamic initializer"
  | dynamicAtexitDtor => quoted "dynamic atexit destructor"
  | new => "operator new"
  | delete => "operator delete"
  | equal => "operator="
  | rshift => "operator>>"
  | lshift => "operator<<"
  | bang => "operator!"
  | equalEqual => "operator=="
  | bangEqual => "operator!="
  | subscript => "operator[]"
  | conversion => "operatorcast"
  | arrow => "operator->"
  | star => "operator*"
  | plusPlus => "operator++"
  | minusMinus => "operator--"
  | minus => "operator-"
  | plus => "operator+"
  | amp => "operator&"
  | arrowStar => "operator->*"
  | slash => "operator/"
  | percent => "operator%"
  | less => "operator<"
  | lessEqual => "operator<="
  | greater => "operator>"
  | greaterEqual => "operator>="
  | comma => "operator,"
  | call => "operator()"
  | tilde => "operator~"
  | caret => "operator^"
  | pipe => "operator|"
  | ampAmp => "operator&&"
  | pipePipe => "operator||"
  | starEqual => "operator*="
  | plusEqual => "operator+="
  | minusEqual => "operator-="
  | slashEqual => "operator/="
  | percentEqual => "operator%="
  | rshiftEqual => "operator>>="
  | lshiftEqual => "operator<<="
  | ampEqual => "operator&="
  | pipeEqual => "operator|="
  | caretEqual => "operator^="
  | vftable => quoted "vftable"
  | vbtable => quoted "vbtable"
  | vcall => quoted "vcall"
  | typeof => quoted "typeof"
  | string => quoted "string"
  | vbaseDtor => quoted "vbase destructor"
  | vectorDeletingDtor => quoted "vector deleting destructor"
  | defaultCtorClosure => quoted "default constructor closure"
  | scalarDeletingDtor => quoted "scalar deleting destructor"
  | vectorCtorIterator => quoted "vector constructor iterator"
  | vectorDtorIterator => quoted "vector destructor iterator"
  | vectorVBaseCtorIterator => quoted "vector vbase constructor iterator"
  | virtualDisplacementMap => quoted "virtual displacement map"
  | ehVectorCtorIterator => quoted "eh vector constructor iterator"
  | ehVectorDtorIterator => quoted "eh vector destructor iterator"
  | ehVectorVBaseCtorIterator => quoted "eh vector vbase constructor iterator"
  | copyCtorClosure => quoted "copy constructor closure"
  | baseClassArray => quoted "RTTI Base Class Array"
  | classHierarchyDescriptor => quoted "RTTI Class Hierarchy Descriptor"
  | completeObjectLocator => quoted "RTTI Complete Object Locator"
  | localVFTable => quoted "local vftable"
  | localVFTableCtorClosure => quoted "local vftable constructor closure"
  | arrayNew => "operator new[]"
  | arrayDelete => "operator delete[]"
  | placementDeleteClosure => quoted "placement delete closure"
  | placementArrayDeleteClosure => quoted "placement delete[] closure"
  | coroutineAwait => "operator co_await"
  | literalOperator => "operator \"\""

def guardText (name : String) (number : Option Int) : String :=
  quoted name ++ number.elim "" fun n => "\x7b" ++ toString n ++ "\x7d"

mutual

def Name.text : Name → String
  | .hashed digits => "??@" ++ Text.decodeLossy digits ++ "@"
  | .plain spelling => Text.decodeLossy spelling
  | .interface spelling => "[" ++ Text.decodeLossy spelling ++ "]"
  | .template base args =>
    let inner := Ty.texts args
    base.text ++ "<" ++ inner ++ (if inner.endsWith ">" then " >" else ">")
  | .discriminator number => quoted (toString number)
  | .symbol inner => quoted inner.text
  | .anonymousNamespace _ => quoted "anonymous namespace"
  | .intrinsic which => which.text
  | .typeDescriptor _ type => type.before ++ type.behind ++ "::" ++ quoted "RTTI Type Descriptor"
  | .baseClassDescriptor offsets =>
    quoted ("RTTI Base Class Descriptor at (" ++ ",".intercalate (offsets.map toString) ++ ")")
  | .localStaticGuard number => guardText "local static guard" number
  | .localStaticThreadGuard number => guardText "local static thread guard" number

def Name.innermost : List Name → String
  | [] => ""
  | n :: _ => n.text

def Name.scopeText : List Name → String
  | [] => ""
  | n :: outer => Name.scopeText outer ++ n.text ++ "::"

def ScopedName.text : ScopedName → String
  | ⟨.intrinsic .ctor, scope⟩ => Name.scopeText scope ++ Name.innermost scope
  | ⟨.intrinsic .dtor, scope⟩ => Name.scopeText scope ++ "~" ++ Name.innermost scope
  | ⟨.intrinsic .literalOperator, scope⟩ =>
    Intrinsic.literalOperator.text ++ ((Name.scopeText scope).dropEnd 2).toString
  | ⟨name, scope⟩ => Name.scopeText scope ++ name.text

def Symbol.text : Symbol → String
  | ⟨⟨.intrinsic .conversion, scope⟩, .memberFunction m convention params storage ret⟩ =>
    convention.behind (m.label ++ ret.before) ++ Name.scopeText scope ++ "operator " ++ ret.before ++
      ret.behind ++ "(" ++ Ty.texts params ++ ")" ++ storage.trailer ++ ret.behind
  | ⟨path, type⟩ => declared type.before path.text ++ type.behind

def Ty.before : Ty → String
  | .absent | .emptyPack | .rttiType => ""
  | .memberFunction m convention _ _ ret => convention.behind (m.label ++ ret.before)
  | .function convention _ _ ret => convention.behind ret.before
  | .memberFunctionPointer cls convention _ _ ret =>
    convention.behind (ret.before ++ " (") ++ cls.text ++ "::*"
  | .vbtable _ storage | .vftable _ storage => storage.behind ""
  | .vcallThunk _ convention => convention.behind "[thunk]: "
  | .templateParam index => quoted ("template-parameter" ++ toString index)
  | .threadSafeStaticGuard number => "TSS" ++ toString number
  | .constant value => toString value
  | .constantString _ => ""
  | .indirect kind (.memberFunction _ convention _ _ ret) storage
  | .indirect kind (.function convention _ _ ret) storage =>
    storage.behind (convention.behind (ret.before ++ " (") ++ kind.sign)
  | .indirect kind (.array _ element _) storage =>
    storage.behind (element.before ++ " (" ++ kind.sign)
  | .indirect kind child storage => storage.behind (spaced child.before kind.sign)
  | .array _ element storage => storage.behind element.before
  | .variableOf kind type storage => storage.behind (kind.label ++ type.before)
  | .tagged kind path storage => storage.behind (kind.keyword ++ path.text)
  | .primitive which storage => storage.behind which.keyword
  | .varArgs => "..."
  | .nullptr => "std::nullptr_t"

def Ty.behind : Ty → String
  | .memberFunction _ _ params storage ret | .function _ params storage ret =>
    "(" ++ Ty.texts params ++ ")" ++ storage.trailer ++ ret.behind
  | .memberFunctionPointer _ _ params storage ret =>
    ")(" ++ Ty.texts params ++ ")" ++ storage.trailer ++ ret.behind
  | .vbtable scope _ => "\x7bfor " ++ quoted ((Name.scopeText scope).dropEnd 2).toString ++ "\x7d"
  | .vftable scope _ =>
    if scope.isEmpty then ""
    else "\x7bfor " ++ quoted ((Name.scopeText scope).dropEnd 2).toString ++ "\x7d"
  | .vcallThunk offset _ => "\x7b" ++ toString offset ++ ",\x7bflat\x7d\x7d"
  | .indirect .rvalueReference _ _ => ""
  | .indirect _ (.memberFunction _ _ params storage ret) _
  | .indirect _ (.function _ params storage ret) _ =>
    ")(" ++ Ty.texts params ++ ")" ++ storage.trailer ++ ret.behind
  | .indirect _ (.array length element _) _ => ")[" ++ toString length ++ "]" ++ element.behind
  | .indirect _ child _ => child.behind
  | .array length element _ => "[" ++ toString length ++ "]" ++ element.behind
  | .variableOf _ type _ => type.behind
  | _ => ""

/- Parameters or arguments. A comma follows each that is spelled at all, up to the last one. -/
def Ty.texts : List Ty → String
  | [] => ""
  | [t] => t.before ++ t.behind
  | t :: ts =>
    let first := t.before ++ t.behind
    (if first.isEmpty then "" else first ++ ",") ++ Ty.texts ts

end

def ScopedName.isNamed : ScopedName → Bool
  | ⟨.intrinsic .ctor, scope⟩ | ⟨.intrinsic .dtor, scope⟩ => !scope.isEmpty
  | _ => true

def Symbol.spelling? (symbol : Symbol) : Option String :=
  if symbol.path.isNamed then some symbol.text else none

end CxxSymbols.Microsoft
