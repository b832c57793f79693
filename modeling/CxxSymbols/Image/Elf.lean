import CxxSymbols.Compression.Zlib
import CxxSymbols.Compression.Zstandard.Frame
import CxxSymbols.Image.Bytes
import CxxSymbols.Image.Dynamic
import CxxSymbols.Image.Section
import CxxSymbols.Text.Utf8
/-!
Images in the executable and linkable format, of both widths and byte orders: their sections, and
what they say to the loader. A file whose tables do not fit together is refused as a whole, also
where a fault lies in a table that nothing is read from.
-/
namespace CxxSymbols.Image

inductive ImageError where
  | malformed
  | io
  deriving DecidableEq, Repr, Inhabited

def ioMessage : String := "IO error"

def ImageError.message? : ImageError → Option String
  | malformed => none
  | io => some ioMessage

def ImageError.messages : ImageError → List String
  | malformed => ["the image is not well formed"]
  | io => [ioMessage, "corrupt deflate stream"]

namespace Elf

/-! ### Records -/

namespace SectionType

def symbols : Nat := 2
def strings : Nat := 3
def addedRelocations : Nat := 4
def empty : Nat := 8
def relocations : Nat := 9
def dynamicSymbols : Nat := 11
def symbolSections : Nat := 18

end SectionType

structure Layout where
  width : PointerWidth
  order : ByteOrder
  deriving DecidableEq, Repr, Inhabited

structure Header where
  machine : Nat
  programsAt : Nat
  sectionsAt : Nat
  programSize : Nat
  programCount : Nat
  sectionSize : Nat
  sectionCount : Nat
  namesIndex : Nat
  deriving DecidableEq, Repr, Inhabited

structure SectionHeader where
  name : Nat
  type : Nat
  flags : Nat
  address : Nat
  offset : Nat
  size : Nat
  link : Nat
  info : Nat
  deriving DecidableEq, Repr, Inhabited

namespace Layout

def read? (l : Layout) (file : ByteArray) (start : Nat) (widths : List Nat) :
    Option (List Nat) :=
  record? l.order file start widths

def identSize : Nat := 16

def header? (l : Layout) (file : ByteArray) : Option Header := do
  let w := l.width.bytes
  match ← l.read? file identSize [2, 2, 4, w, w, w, 4, 2, 2, 2, 2, 2, 2] with
  | [_, machine, _, _, programsAt, sectionsAt, _, _, programSize, programCount, sectionSize,
      sectionCount, namesIndex] =>
    some ⟨machine, programsAt, sectionsAt, programSize, programCount, sectionSize, sectionCount,
      namesIndex⟩
  | _ => none

def sectionWidths (l : Layout) : List Nat :=
  let w := l.width.bytes
  [4, 4, w, w, w, w, 4, 4, w, w]

def sectionHeader? (l : Layout) (file : ByteArray) (start : Nat) : Option SectionHeader := do
  match ← l.read? file start l.sectionWidths with
  | [name, type, flags, address, offset, size, link, info, _, _] =>
    some ⟨name, type, flags, address, offset, size, link, info⟩
  | _ => none

def programHeaderSize (l : Layout) : Nat :=
  match l.width with
  | .bits32 => 32
  | .bits64 => 56

def symbolWidths (l : Layout) : List Nat :=
  match l.width with
  | .bits32 => [4, 4, 4, 1, 1, 2]
  | .bits64 => [4, 1, 1, 2, 8, 8]

def symbolOfFields (l : Layout) (fields : List Nat) : Nat × Nat :=
  (fields.headD 0, fields.getD (match l.width with
    | .bits32 => 1
    | .bits64 => 4) 0)

/- A machine that orders the parts of the information on a relocation in its own way: the symbol
comes first, and then four bytes of types in big-endian order. Only tables with an addend are read
so. -/
def mips : Nat := 8

def swapsInfo (l : Layout) (machine : Nat) (hasAddend : Bool) : Bool :=
  l.width = .bits64 && l.order = .little && machine = mips && hasAddend

def relocationInfo (l : Layout) (machine : Nat) (hasAddend : Bool) (info : Nat) : Nat × Nat :=
  match l.width with
  | .bits32 => (info / 256, info % 256)
  | .bits64 =>
    if l.swapsInfo machine hasAddend then
      (info % UInt32.size, Text.bigEndian (Text.toLittleEndian 4 (info / UInt32.size)))
    else (info / UInt32.size, info % UInt32.size)

def relocationOfFields (l : Layout) (machine : Nat) (fields : List Nat) : Relocation :=
  let (symbol, type) := l.relocationInfo machine (fields.length = 3) (fields.getD 1 0)
  ⟨.ofNat (fields.headD 0), .ofNat type, if symbol = 0 then none else some symbol⟩

end Layout

namespace SectionHeader

def range? (s : SectionHeader) : Option (Nat × Nat) :=
  if s.type = SectionType.empty then none else some (s.offset, s.size)

def data? (s : SectionHeader) (file : ByteArray) : Option ByteArray :=
  match s.range? with
  | some (offset, size) => slice? file offset size
  | none => some ByteArray.empty

end SectionHeader

structure Names where
  start : Nat
  stop : Nat
  deriving DecidableEq, Repr, Inhabited

def name? (file : ByteArray) (names : Option Names) (offset : Nat) : Option ByteArray := do
  let n ← names
  terminated? file (n.start + offset) n.stop

def SectionHeader.names? (s : SectionHeader) : Option Names :=
  if s.offset + s.size < UInt64.size then some ⟨s.offset, s.offset + s.size⟩ else none

/-! ### Tables -/

def ident : List UInt8 := [0x7f, 0x45, 0x4c, 0x46]

def layout? (file : ByteArray) : Option Layout := do
  let bytes ← slice? file 0 Layout.identSize
  match bytes.data.toList with
  | m0 :: m1 :: m2 :: m3 :: width :: order :: version :: _ =>
    guard ([m0, m1, m2, m3] = ident ∧ version = 1)
    let width ← match width.toNat with
      | 1 => some .bits32
      | 2 => some .bits64
      | _ => none
    let order ← match order.toNat with
      | 1 => some .little
      | 2 => some .big
      | _ => none
    return ⟨width, order⟩
  | _ => none

/- The first section, which holds numbers that do not fit the header. -/
def firstSection? (l : Layout) (h : Header) (file : ByteArray) : Option (Option SectionHeader) :=
  if h.sectionsAt = 0 then some none
  else do
    guard (h.sectionSize = Text.total l.sectionWidths)
    return some (← l.sectionHeader? file h.sectionsAt)

def overflowing? (l : Layout) (h : Header) (file : ByteArray) (value mark : Nat)
    (field : SectionHeader → Nat) : Option Nat :=
  if value ≠ mark then some value
  else do return field (← (← firstSection? l h file))

def programsFit? (l : Layout) (h : Header) (file : ByteArray) : Option Unit := do
  if h.programsAt = 0 then return
  let count ← overflowing? l h file h.programCount 0xffff SectionHeader.info
  if count = 0 then return
  guard (h.programSize = l.programHeaderSize)
  guard (h.programsAt + count * l.programHeaderSize ≤ file.size)

/- Where the header has zero, the first section tells how many there are, if there is one. -/
def sectionCount? (l : Layout) (h : Header) (file : ByteArray) : Option Nat :=
  if h.sectionCount ≠ 0 then some h.sectionCount
  else (firstSection? l h file).map fun first => (first.map SectionHeader.size).getD 0

def sectionHeaders? (l : Layout) (h : Header) (file : ByteArray) : Option (List SectionHeader) := do
  if h.sectionsAt = 0 then return []
  let count ← sectionCount? l h file
  if count = 0 then return []
  let size := Text.total l.sectionWidths
  guard (h.sectionSize = size ∧ h.sectionsAt + count * size ≤ file.size)
  (List.range count).mapM fun i => l.sectionHeader? file (h.sectionsAt + i * size)

def sectionNames? (l : Layout) (h : Header) (file : ByteArray) (sections : List SectionHeader) :
    Option (Option Names) := do
  if sections.isEmpty then return none
  let index ← overflowing? l h file h.namesIndex 0xffff SectionHeader.link
  guard (index ≠ 0)
  let s ← sections[index]?
  match s.range? with
  | some _ => return some (← s.names?)
  | none => return none

structure SymbolTable where
  index : Nat := 0
  entries : List (Nat × Nat) := []
  names : Option Names := none
  deriving DecidableEq, Repr, Inhabited

def linkedNames? (sections : List SectionHeader) (link : Nat) : Option (Option Names) := do
  if link = 0 then return none
  let strings ← sections[link]?
  guard (strings.type = SectionType.strings)
  return some (← strings.names?)

def symbolTableAt? (l : Layout) (file : ByteArray) (sections : List SectionHeader) (index : Nat)
    (s : SectionHeader) : Option SymbolTable := do
  let entries ← records? l.order (← s.data? file) l.symbolWidths
  let names ← linkedNames? sections s.link
  (sections.filter fun x => x.type = SectionType.symbolSections ∧ x.link = index).forM fun x => do
    let data ← x.data? file
    guard (data.size % 4 = 0)
  return ⟨index, entries.map l.symbolOfFields, names⟩

def symbolTable? (l : Layout) (file : ByteArray) (sections : List SectionHeader) (type : Nat) :
    Option SymbolTable :=
  match sections.zipIdx.find? fun entry => entry.1.type = type with
  | some (s, index) => symbolTableAt? l file sections index s
  | none => some {}

def isRelocations (s : SectionHeader) : Bool :=
  s.type = SectionType.relocations || s.type = SectionType.addedRelocations

def relocationsFit (sections : List SectionHeader) (symbols : Nat) (s : SectionHeader) : Bool :=
  !isRelocations s || s.link ≠ symbols || s.info = 0 ||
    match sections[s.info]? with
    | some target => !isRelocations target
    | none => false

end Elf

/-! ### Images -/

structure Elf where
  file : ByteArray
  layout : Elf.Layout
  machine : Nat
  headers : List Elf.SectionHeader
  names : Option Elf.Names
  dynamic : Elf.SymbolTable

structure SectionSummary where
  name : String
  address : Address
  size : UInt64
  offset : UInt64
  deriving DecidableEq, Repr, Inhabited

namespace Elf

def ofBytes? (file : ByteArray) : Option Elf := do
  let l ← layout? file
  let h ← l.header? file
  programsFit? l h file
  let sections ← sectionHeaders? l h file
  let names ← sectionNames? l h file sections
  let symbols ← symbolTable? l file sections SectionType.symbols
  let dynamic ← symbolTable? l file sections SectionType.dynamicSymbols
  guard (sections.all (relocationsFit sections symbols.index))
  return ⟨file, l, h.machine, sections, names, dynamic⟩

def sectionName? (elf : Elf) (s : SectionHeader) : Option ByteArray := name? elf.file elf.names s.name

def sections (elf : Elf) : List SectionSummary :=
  elf.headers.tail.map fun s =>
    ⟨Text.decodeLossy ((elf.sectionName? s).getD ByteArray.empty).data.toList, .ofNat s.address,
      .ofNat s.size, .ofNat ((s.range?.map Prod.fst).getD 0)⟩

def dynamicSymbols (elf : Elf) : Except ImageError (List DynamicSymbol) := do
  let real ← (elf.dynamic.entries.zipIdx.drop 1).mapM fun ((place, value), index) =>
    match name? elf.file elf.dynamic.names place with
    | some name => .ok ⟨index, name, .ofNat value⟩
    | none => .error .malformed
  return if real.isEmpty then [] else ⟨0, ByteArray.empty, 0⟩ :: real

def relocationsOf (elf : Elf) (s : SectionHeader) : List Relocation :=
  let w := elf.layout.width.bytes
  let widths := if s.type = SectionType.addedRelocations then [w, w, w] else [w, w]
  match s.data? elf.file >>= fun data => records? elf.layout.order data widths with
  | some records => records.map (elf.layout.relocationOfFields elf.machine)
  | none => []

def dynamicRelocations (elf : Elf) : List Relocation :=
  (elf.headers.tail.filter fun s => isRelocations s && s.link = elf.dynamic.index).flatMap
    elf.relocationsOf

/-! ### Data of sections -/

inductive Packing where
  | stored
  | zlib
  | zstandard
  deriving DecidableEq, Repr, Inhabited

structure Packed where
  packing : Packing
  offset : Nat
  size : Nat
  unpacked : Nat
  deriving DecidableEq, Repr, Inhabited

def compressedFlag : Nat := 0x800

def flaggedPacking? (elf : Elf) (s : SectionHeader) : Option Packed := do
  let (offset, size) ← s.range?
  let widths := match elf.layout.width with
    | .bits32 => [4, 4, 4]
    | .bits64 => [4, 4, 8, 8]
  let fields ← elf.layout.read? elf.file offset widths
  guard (Text.total widths ≤ size)
  let packing ← match fields.headD 0 with
    | 1 => some .zlib
    | 2 => some .zstandard
    | _ => none
  let unpacked := fields.getD (widths.length - 2) 0
  return ⟨packing, offset + Text.total widths, size - Text.total widths, unpacked⟩

def olderMark : String := ".zdebug_"

def olderPacking? (elf : Elf) (s : SectionHeader) : Option Packed := do
  let (offset, size) ← s.range?
  let head ← slice? elf.file offset 12
  guard ((head.extract 0 8).data.toList = [0x5a, 0x4c, 0x49, 0x42, 0, 0, 0, 0] ∧ 12 ≤ size)
  return ⟨.zlib, offset + 12, size - 12, Text.bigEndian (head.extract 8 12).data.toList⟩

def hasOlderName (elf : Elf) (s : SectionHeader) : Bool :=
  match elf.sectionName? s with
  | some name =>
    (Text.decode? name.data.toList).any fun text => olderMark.toList.isPrefixOf text.toList
  | none => false

def packed? (elf : Elf) (s : SectionHeader) : Option Packed :=
  if s.flags / compressedFlag % 2 = 1 then elf.flaggedPacking? s
  else if elf.hasOlderName s then elf.olderPacking? s
  else
    let (offset, size) := s.range?.getD (0, 0)
    some ⟨.stored, offset, size, size⟩

def unpack (p : Packed) (data : ByteArray) : Option ByteArray :=
  match p.packing with
  | .stored => some data
  | .zlib => Compression.Zlib.decode? p.unpacked data
  | .zstandard => Compression.Zstandard.decode? p.unpacked data

def loadData (elf : Elf) (s : SectionHeader) : Except ImageError ByteArray :=
  match elf.packed? s with
  | none => .error .malformed
  | some p =>
    match slice? elf.file p.offset p.size with
    | none => .error .malformed
    | some data =>
      match unpack p data with
      | some bytes => .ok bytes
      | none => .error .io

def loadSection (elf : Elf) (name : ByteArray) : Except ImageError (Option Section) :=
  match elf.headers.find? fun s => (elf.sectionName? s).any (· == name) with
  | none => .ok none
  | some s => do
    return some ⟨.ofNat s.address, .ofNat s.size, elf.layout.width, ← elf.loadData s⟩

end Elf

end CxxSymbols.Image
