/-!
What can go wrong when a store is written, read or searched.
-/
namespace CxxSymbols.Store

inductive MessageType where
  | invalid
  | header
  | stringTable
  | symbol
  | typeInfo
  | vtable
  | index
  deriving DecidableEq, Repr, Inhabited

namespace MessageType

def code : MessageType → Nat
  | invalid => 0
  | header => 1
  | stringTable => 2
  | symbol => 3
  | typeInfo => 4
  | vtable => 5
  | index => 6

def ofCode? : Nat → Option MessageType
  | 0 => some invalid
  | 1 => some header
  | 2 => some stringTable
  | 3 => some symbol
  | 4 => some typeInfo
  | 5 => some vtable
  | 6 => some index
  | _ => none

def label : MessageType → String
  | invalid => "MtInvalid"
  | header => "MtHeader"
  | stringTable => "MtStringTable"
  | symbol => "MtSymbol"
  | typeInfo => "MtTypeInfo"
  | vtable => "MtVTable"
  | index => "MtIndex"

theorem ofCode?Code (t : MessageType) : ofCode? t.code = some t := by
  cases t <;> rfl

end MessageType

def maxMessageSize : Nat := 16 * 1024 * 1024

inductive StoreError where
  | invalidMagic
  | unsupportedVersion (version : UInt32)
  | unexpectedType (expected : MessageType) (actual : Option MessageType)
  | invalidMessageType
  | invalidStringTableIndex
  | missingRequiredField (name : String)
  | invalidEnumValue (field : String) (value : UInt32)
  | truncatedMessage
  | varintTooLong
  | maximumSizeExceeded (size : Nat)
  | postingsNotSorted
  | postingOutOfRange (ordinal : UInt32) (count : Nat)
  | symbolsNotSorted
  | io
  | decoding
  deriving DecidableEq, Repr, Inhabited

def StoreError.message : StoreError → String
  | invalidMagic => "File does not start with the expected magic"
  | unsupportedVersion version =>
    "Store version " ++ toString version.toNat ++ " is unsupported by this implementation"
  | unexpectedType expected actual =>
    "Expected message type " ++ expected.label ++ " but got " ++
      (match actual with
        | some t => "Some(" ++ t.label ++ ")"
        | none => "None")
  | invalidMessageType => "Message type value is invalid"
  | invalidStringTableIndex => "Message contains an invalid string table reference"
  | missingRequiredField name => "Message is missing a required field `" ++ name ++ "`"
  | invalidEnumValue field value =>
    "Field `" ++ field ++ "` holds unknown value " ++ toString value.toNat
  | truncatedMessage => "File ended prematurely in the middle of a message"
  | varintTooLong => "Variable-length integer is too big"
  | maximumSizeExceeded size =>
    "Message of size " ++ toString size ++ " exceeds maximum of " ++ toString maxMessageSize
  | postingsNotSorted => "Index posting list is not strictly ascending"
  | postingOutOfRange ordinal count =>
    "Index references symbol #" ++ toString ordinal.toNat ++ " but the store holds " ++
      toString count ++ " symbols"
  | symbolsNotSorted => "Symbols are not sorted by canonical key"
  | io => "IO error"
  | decoding => "Decoding error"

def StoreError.messages (e : StoreError) : List String :=
  e.message ::
    match e with
    | io => ["failed to fill whole buffer"]
    | decoding => ["failed to decode Protobuf message"]
    | _ => []

end CxxSymbols.Store
