import CxxSymbols.Text.Number
/-!
A hash of 64 bits. Four lanes take up stripes of 32 bytes; what is left over is mixed in by words
of eight and four bytes and by bytes.
-/
namespace CxxSymbols.Compression.XxHash

def prime1 : UInt64 := 0x9E3779B185EBCA87
def prime2 : UInt64 := 0xC2B2AE3D27D4EB4F
def prime3 : UInt64 := 0x165667B19E3779F9
def prime4 : UInt64 := 0x85EBCA77C2B2AE63
def prime5 : UInt64 := 0x27D4EB2F165667C5

def rotate (x : UInt64) (count : UInt64) : UInt64 := x <<< count ||| x >>> (64 - count)

def round (lane input : UInt64) : UInt64 := rotate (lane + input * prime2) 31 * prime1

def word (bytes : List UInt8) : UInt64 := .ofNat (Text.littleEndian bytes)

structure Lanes where
  a : UInt64
  b : UInt64
  c : UInt64
  d : UInt64
  deriving DecidableEq, Repr, Inhabited

namespace Lanes

def initial : Lanes := ⟨prime1 + prime2, prime2, 0, 0 - prime1⟩

def stripe (s : Lanes) (bytes : List UInt8) : Lanes :=
  let lane (i : Nat) := word ((bytes.drop (8 * i)).take 8)
  ⟨round s.a (lane 0), round s.b (lane 1), round s.c (lane 2), round s.d (lane 3)⟩

def merge (hash lane : UInt64) : UInt64 := (hash ^^^ round 0 lane) * prime1 + prime4

def joined (s : Lanes) : UInt64 :=
  let hash := rotate s.a 1 + rotate s.b 7 + rotate s.c 12 + rotate s.d 18
  merge (merge (merge (merge hash s.a) s.b) s.c) s.d

end Lanes

def stripes (s : Lanes) (bytes : ByteArray) (start : Nat) : Nat → Lanes
  | 0 => s
  | count + 1 =>
    stripes (s.stripe (bytes.extract start (start + 32)).data.toList) bytes (start + 32) count

def tail (hash : UInt64) (bytes : List UInt8) : UInt64 :=
  match bytes with
  | b0 :: b1 :: b2 :: b3 :: b4 :: b5 :: b6 :: b7 :: rest =>
    let lane := round 0 (word [b0, b1, b2, b3, b4, b5, b6, b7])
    tail (rotate (hash ^^^ lane) 27 * prime1 + prime4) rest
  | b0 :: b1 :: b2 :: b3 :: rest =>
    tail (rotate (hash ^^^ word [b0, b1, b2, b3] * prime1) 23 * prime2 + prime3) rest
  | b :: rest => tail (rotate (hash ^^^ b.toUInt64 * prime5) 11 * prime1) rest
  | [] => hash

def avalanche (hash : UInt64) : UInt64 :=
  let hash := (hash ^^^ hash >>> 33) * prime2
  let hash := (hash ^^^ hash >>> 29) * prime3
  hash ^^^ hash >>> 32

def hash (bytes : ByteArray) : UInt64 :=
  let count := bytes.size / 32
  let start :=
    if count = 0 then prime5 else (stripes Lanes.initial bytes 0 count).joined
  let rest := (bytes.extract (32 * count) bytes.size).data.toList
  avalanche (tail (start + .ofNat bytes.size) rest)

end CxxSymbols.Compression.XxHash
