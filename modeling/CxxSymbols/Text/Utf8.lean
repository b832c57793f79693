/-!
Reading bytes as UTF-8. `decodeLossy` never fails: each maximal piece that cannot begin or go on
with a well-formed sequence is read as one replacement character. `decode?` accepts well-formed
text only.
-/
namespace CxxSymbols.Text

/- A sequence that has begun: how many bytes are missing, the bits so far and the range that the
next byte must lie in. Only the second byte of a sequence has a range of its own; it keeps out
overlong forms, surrogates and values past the last code point. -/
structure Pending where
  missing : Nat
  bits : Nat
  low : Nat
  high : Nat
  deriving DecidableEq, Repr

inductive Lead where
  | whole (c : Char)
  | more (p : Pending)
  | invalid
  deriving DecidableEq, Repr

def replacement : Char := '\uFFFD'

def lead (b : UInt8) : Lead :=
  let n := b.toNat
  if n < 0x80 then .whole (Char.ofNat n)
  else if n < 0xC2 then .invalid
  else if n < 0xE0 then .more ⟨1, n - 0xC0, 0x80, 0xBF⟩
  else if n < 0xF0 then
    .more ⟨2, n - 0xE0, if n = 0xE0 then 0xA0 else 0x80, if n = 0xED then 0x9F else 0xBF⟩
  else if n < 0xF5 then
    .more ⟨3, n - 0xF0, if n = 0xF0 then 0x90 else 0x80, if n = 0xF4 then 0x8F else 0xBF⟩
  else .invalid

def Pending.admits (p : Pending) (b : UInt8) : Bool :=
  p.low ≤ b.toNat && b.toNat ≤ p.high

def Pending.extend (p : Pending) (b : UInt8) : Pending :=
  ⟨p.missing - 1, p.bits * 64 + (b.toNat - 0x80), 0x80, 0xBF⟩

/- Reads on from an unfinished sequence, or from none. A byte that the sequence does not admit
ends it as one replacement and is then read as the start of the next. -/
def decodeFrom : Option Pending → List UInt8 → List Char
  | none, [] => []
  | some _, [] => [replacement]
  | some p, b :: rest =>
    if p.admits b then
      if p.missing ≤ 1 then Char.ofNat (p.extend b).bits :: decodeFrom none rest
      else decodeFrom (some (p.extend b)) rest
    else
      match lead b with
      | .whole c => replacement :: c :: decodeFrom none rest
      | .more q => replacement :: decodeFrom (some q) rest
      | .invalid => replacement :: replacement :: decodeFrom none rest
  | none, b :: rest =>
    match lead b with
    | .whole c => c :: decodeFrom none rest
    | .more q => decodeFrom (some q) rest
    | .invalid => replacement :: decodeFrom none rest

def decodeLossy (bytes : List UInt8) : String :=
  String.ofList (decodeFrom none bytes)

def decode? (bytes : List UInt8) : Option String :=
  String.fromUTF8? ⟨bytes.toArray⟩

def encode (text : String) : List UInt8 :=
  text.toUTF8.data.toList

end CxxSymbols.Text
