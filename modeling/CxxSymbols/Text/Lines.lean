/-!
Lines of a text, and blanks at their ends.
-/
namespace CxxSymbols.Text

def dropReturn : List UInt8 → List UInt8
  | 13 :: rest => rest
  | line => line

/- The lines that end with a line feed, which may follow a carriage return, and what stands behind
the last of them if that is not empty. -/
def lines (bytes : List UInt8) : List (List UInt8) :=
  let (done, current) := bytes.foldl
    (fun (done, current) b =>
      if b = 10 then (done.push (dropReturn current).reverse, []) else (done, b :: current))
    ((#[] : Array (List UInt8)), ([] : List UInt8))
  (if current.isEmpty then done else done.push current.reverse).toList

def isBlank (c : Char) : Bool :=
  let n := c.toNat
  (9 ≤ n && n ≤ 13) || n = 0x20 || n = 0x85 || n = 0xA0 || n = 0x1680 ||
    (0x2000 ≤ n && n ≤ 0x200A) || n = 0x2028 || n = 0x2029 || n = 0x202F || n = 0x205F || n = 0x3000

def trim (text : String) : String :=
  String.ofList (((text.toList.dropWhile isBlank).reverse.dropWhile isBlank).reverse)

end CxxSymbols.Text
