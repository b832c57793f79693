/-!
Numbers as text and as bytes.
-/
namespace CxxSymbols.Text

def hexDigits (n : Nat) : String := String.ofList (Nat.toDigits 16 n)

def hex (n : Nat) : String := "0x" ++ hexDigits n

def padding (width : Nat) (text : String) (c : Char) : String :=
  "".pushn c (width - text.length)

def alignRight (width : Nat) (text : String) : String := padding width text ' ' ++ text

def alignLeft (width : Nat) (text : String) : String := text ++ padding width text ' '

def hexWide (width : Nat) (n : Nat) : String :=
  "0x" ++ padding (width - 2) (hexDigits n) '0' ++ hexDigits n

def digit? (base : Nat) (c : Char) : Option Nat :=
  let value :=
    if '0' ≤ c ∧ c ≤ '9' then some (c.toNat - '0'.toNat)
    else if 'a' ≤ c ∧ c ≤ 'f' then some (c.toNat - 'a'.toNat + 10)
    else if 'A' ≤ c ∧ c ≤ 'F' then some (c.toNat - 'A'.toNat + 10)
    else none
  value.filter (· < base)

def ofDigits? (base : Nat) : List Char → Option Nat
  | [] => none
  | digits => digits.foldlM (fun n c => (digit? base c).map (n * base + ·)) 0

def total : List Nat → Nat
  | [] => 0
  | n :: rest => n + total rest

def littleEndian : List UInt8 → Nat
  | [] => 0
  | b :: rest => b.toNat + 256 * littleEndian rest

def bigEndian (bytes : List UInt8) : Nat := littleEndian bytes.reverse

def toLittleEndian : Nat → Nat → List UInt8
  | 0, _ => []
  | count + 1, n => UInt8.ofNat n :: toLittleEndian count (n / 256)

theorem toLittleEndianLength (count n : Nat) : (toLittleEndian count n).length = count := by
  induction count generalizing n with
  | zero => rfl
  | succ count ih => simp [toLittleEndian, ih]

def signed (width : Nat) (n : Nat) : Int := Int.bmod n (1 <<< (8 * width))

end CxxSymbols.Text
