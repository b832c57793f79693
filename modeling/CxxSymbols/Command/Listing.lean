import CxxSymbols.Command.Invocation
import CxxSymbols.Text.Lines
/-!
What the commands print, as lines.
-/
namespace CxxSymbols.Command
open Image (Elf SectionSummary)
open Store (Database SymbolRow)
open Text (alignLeft alignRight hex hexWide)

def Style.show (style : Style) (raw : String) : Except DecodeError String :=
  match style with
  | .key => (Mangled.decodeKey raw).map Prod.fst
  | .spelling => Mangled.demangle raw

/-! ### Symbols -/

/- A line of the input with the symbol on it shown. A line that is no symbol stays as it is, and if
it begins like one, there is a complaint about it. -/
def shownLine (style : Style) (line : String) : String × Option String :=
  let raw := Text.trim line
  match Mangled.scheme? raw with
  | none => (line, none)
  | some _ =>
    match style.show raw with
    | .ok text => (text, none)
    | .error e => (line, some (raw ++ ": " ++ e.message))

def listedText (style : Option Style) (raw : String) : String :=
  match style with
  | none => raw
  | some .key =>
    match Mangled.decodeKey raw with
    | .ok (key, kind) => alignLeft 8 kind.label ++ " " ++ key
    | .error _ => raw
  | some .spelling =>
    match Mangled.demangle raw with
    | .ok text => text
    | .error _ => raw

def symbolLine (style : Option Style) (raw : String) (address : Address) : String :=
  hexWide 18 address.toNat ++ " " ++ listedText style raw

/-! ### Sections -/

def sectionColumns (name address size offset : String) : String :=
  " ".intercalate [alignLeft 24 name, address, alignRight 12 size, alignRight 12 offset]

def sectionLine (s : SectionSummary) : String :=
  sectionColumns s.name (hexWide 18 s.address.toNat) (hex s.size.toNat) (hex s.offset.toNat)

def sectionLines (elf : Elf) : List String :=
  sectionColumns "name" (alignRight 18 "address") "size" "offset" :: elf.sections.map sectionLine

/-! ### Stores -/

def rowLine (r : SymbolRow) : String :=
  " ".intercalate
    [hexWide 18 r.address.toNat, alignLeft 8 r.kind.label, alignLeft 3 r.origin.label, r.key]

def searchLines (db : Database) (words : List String) : List String :=
  (db.searchGrouped (" ".intercalate words)).flatMap fun g =>
    (g.name ++ " (" ++ toString g.members.size ++ ")") ::
      g.members.toList.map fun r => "  " ++ rowLine r

def labels (db : Database) (address : Address) : String :=
  match db.symbolsAt address with
  | [] => "?"
  | rows => " / ".intercalate (rows.map SymbolRow.key)

def labelled (db : Database) (address : Address) : String :=
  hex address.toNat ++ " " ++ labels db address

def entryLine (db : Database) (target : Address) (place : Nat) : String :=
  "  [" ++ toString place ++ "] " ++ hexWide 18 target.toNat ++ " " ++
    (if target = 0 then Rtti.Runtime.pureVirtual else labels db target)

def vtableLines? (db : Database) (address : Address) : Option (List String) :=
  (db.vtable? address).map fun table =>
    labelled db address :: table.entries.zipIdx.map fun (target, place) => entryLine db target place

def baseLine (db : Database) (b : Rtti.Base) : String :=
  "  base:    " ++ hex b.address.toNat ++ " offset=" ++ toString b.offset.toInt ++ " flags=" ++
    hex b.flags.toNat ++ " " ++ labels db b.address

def typeInfoLines? (db : Database) (address : Address) : Option (List String) :=
  (db.typeInfo? address).map fun info =>
    [labelled db address, "  kind:  " ++ info.kind.label, "  flags: " ++ hex info.flags.toNat] ++
      info.bases.map (baseLine db) ++
      (db.derivedFrom address).map fun derived => "  derived: " ++ labelled db derived

/-! ### Failures -/

def failureLines : List String → List String
  | [] => []
  | message :: causes => ("error: " ++ message) :: causes.map ("  caused by: " ++ ·)

end CxxSymbols.Command
