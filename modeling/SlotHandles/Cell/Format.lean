import SlotHandles.Cell
import SlotHandles.Datum

/-!
# What the bits of a cell mean

A format fixes the width of a cell, which datum its bits stand for and which bits a datum asks for.  Numbers are
taken modulo the width; the words of 64 bits are shown as decimal text, floating-point values as their bit
pattern in hexadecimal.
-/

namespace SlotHandles

/-- The meaning of a cell's bits. -/
inductive CellFormat
  | flag
  | signed (w : Nat)
  | unsigned (w : Nat)
  | wideSigned
  | wideUnsigned
  | pattern (digits : Nat)
  | pair
  deriving DecidableEq, Repr

namespace CellFormat

def width : CellFormat → Nat
  | .flag => 8
  | .signed w => w
  | .unsigned w => w
  | .wideSigned | .wideUnsigned | .pair => 64
  | .pattern digits => 4 * digits

def hexDigit? (c : Char) : Option Nat :=
  if c.isDigit then some (c.toNat - '0'.toNat)
  else if 'a' ≤ c ∧ c ≤ 'f' then some (c.toNat - 'a'.toNat + 10)
  else if 'A' ≤ c ∧ c ≤ 'F' then some (c.toNat - 'A'.toNat + 10)
  else none

def ofHex? (s : String) : Option Nat :=
  let digits := match s.toList with
    | '0' :: 'x' :: rest => rest
    | cs => cs
  digits.foldl (fun n c => return 16 * (← n) + (← hexDigit? c)) (some 0)

/-- A number in hexadecimal with a leading `0x` and at least the given number of digits. -/
def toHex (digits n : Nat) : String :=
  let ds := Nat.toDigits 16 n
  String.ofList ('0' :: 'x' :: List.replicate (digits - ds.length) '0' ++ ds)

/-- The two 32-bit halves of a pair, the first one low. -/
def joinPair (a b : Int) : Nat := (BitVec.ofInt 32 a).toNat + 0x100000000 * (BitVec.ofInt 32 b).toNat

/-- The bits a datum asks for. -/
def encode? (f : CellFormat) (d : Datum) : Option (BitVec f.width) :=
  match f, d with
  | .pattern _, .text s => (ofHex? s).map (BitVec.ofNat _ ·)
  | .pair, .list [a, b] => do return BitVec.ofNat _ (joinPair (← a.int?) (← b.int?))
  | .flag, d => d.bool?.map fun b => if b then 1 else 0
  | _, d => d.int?.map (BitVec.ofInt _ ·)

/-- The datum that bits stand for. -/
def decode (f : CellFormat) (bits : BitVec f.width) : Datum :=
  match f with
  | .flag => .bool (bits ≠ 0)
  | .signed _ => .int bits.toInt
  | .unsigned _ => .int bits.toNat
  | .wideSigned => .text (toString bits.toInt)
  | .wideUnsigned => .text (toString bits.toNat)
  | .pattern digits => .text (toHex digits bits.toNat)
  | .pair => .list [.int (bits.setWidth 32).toInt, .int ((bits >>> 32).setWidth 32).toInt]

end CellFormat

inductive CellRequest (w : Nat)
  | read
  | write (value : BitVec w)
  | exchange (value : BitVec w)
  | compareAndSwap (expected desired : BitVec w)
  deriving DecidableEq, Repr

inductive CellAnswer (w : Nat)
  | value (bits : BitVec w)
  | written
  | swapped (swap : Cell.Swap w)
  deriving DecidableEq, Repr

def Cell.serve {w : Nat} (c : Cell w) : CellRequest w → CellAnswer w × Cell w
  | .read => (.value c.read, c)
  | .write value => (.written, c.write value)
  | .exchange value => let (previous, c') := c.exchange value; (.value previous, c')
  | .compareAndSwap expected desired =>
    let (swap, c') := c.compareAndSwap expected desired; (.swapped swap, c')

end SlotHandles
