import CxxSymbols.Rtti.View
/-!
The records that describe classes at run time. All begin with two words, the pointer to the table
of their own class and that to their name. A single base is one word. In the general form two
numbers of 32 bits follow, the flags and the count of bases, and then two words for each base: its
address, and its offset above eight bits of flags.
-/
namespace CxxSymbols.Rtti

inductive TypeInfoKind where
  | noInherit
  | singleInherit
  | virtualMultiInherit
  deriving DecidableEq, Repr, Inhabited

namespace TypeInfoKind

def code : TypeInfoKind → UInt32
  | noInherit => 0
  | singleInherit => 1
  | virtualMultiInherit => 2

def label : TypeInfoKind → String
  | noInherit => "NoInherit"
  | singleInherit => "SingleInherit"
  | virtualMultiInherit => "VirtualMultiInherit"

def ofCode? (code : UInt32) : Option TypeInfoKind :=
  match code.toNat with
  | 0 => some noInherit
  | 1 => some singleInherit
  | 2 => some virtualMultiInherit
  | _ => none

theorem ofCode?Code (k : TypeInfoKind) : ofCode? k.code = some k := by
  cases k <;> rfl

end TypeInfoKind

structure Base where
  address : Address
  /- of the base in the object, or of the place that tells it for a virtual base -/
  offset : Int64
  /- 1 for a virtual base, 2 for a public one -/
  flags : UInt32
  deriving DecidableEq, Repr, Inhabited

structure TypeInfo where
  address : Address
  kind : TypeInfoKind
  /- zero unless the record has the general form -/
  flags : UInt64
  bases : List Base
  deriving DecidableEq, Repr, Inhabited

def Base.ofWords (address : Nat) (word : Int) : Base :=
  ⟨.ofNat address, .ofInt (word / 256), .ofNat (word % 256).toNat⟩

def readBases (v : View) (address : Nat) : Nat → Except RttiError (List Base)
  | 0 => .ok []
  | count + 1 => do
    let base ← v.readWord address
    let word ← v.readSigned (address + v.width.bytes)
    let rest ← readBases v (address + 2 * v.width.bytes) count
    return .ofWords base word :: rest

def TypeInfo.read (v : View) (address : Address) (kind : TypeInfoKind) :
    Except RttiError TypeInfo := do
  let body := address.toNat + 2 * v.width.bytes
  match kind with
  | .noInherit => return ⟨address, kind, 0, []⟩
  | .singleInherit =>
    let base ← v.readWord body
    return ⟨address, kind, 0, [⟨.ofNat base, 0, 0⟩]⟩
  | .virtualMultiInherit =>
    let flags ← v.readU32 body
    let count ← v.readU32 (body + 4)
    let bases ← readBases v (body + 8) count
    return ⟨address, kind, .ofNat flags, bases⟩

end CxxSymbols.Rtti
