/-!
# Reports of violated contracts

The report of a violation is one line of text, assembled in three pieces in a buffer of fixed size.  Each piece is
cut to the space that is left, and the last byte kept is overwritten with a newline.
-/

namespace SlotHandles

structure Location where
  file : String
  line : Nat
  function : String
  deriving Repr

namespace Report

def limit : Nat := 511

def newline : UInt8 := 10

def bytes (s : String) : List UInt8 := s.toUTF8.toList

def opening (place : Location) : List UInt8 :=
  bytes s!"{place.file}:{place.line}: np::pointer contract violation: "

def closing (place : Location) (expression : String) : List UInt8 :=
  bytes s!" [{expression}] in {place.function}\n"

/-- Write a piece behind what the buffer holds, as far as there is space. -/
def append (buffer piece : List UInt8) : List UInt8 := buffer ++ piece.take (limit - buffer.length)

theorem length_append_le {buffer : List UInt8} (piece : List UInt8) (h : buffer.length ≤ limit) :
    (append buffer piece).length ≤ limit := by
  simp only [append, List.length_append, List.length_take]
  omega

/-- Overwrite the last byte with a newline. -/
def terminate (buffer : List UInt8) : List UInt8 := buffer.dropLast ++ [newline]

/-- The bytes that are reported. -/
def render (place : Location) (message : List UInt8) (expression : String) : List UInt8 :=
  terminate (([opening place, message, closing place expression]).foldl append [])

/-- A message that names a number twice: as a signed 32-bit word, and as an unsigned 64-bit word. -/
def counted (message : String) (n : Int) : String :=
  s!"{message} {(Int32.ofInt n).toInt} of {(UInt64.ofInt n).toNat}"

/-- Bytes as text that is safe to show: the ones that are not ASCII in hexadecimal. -/
def display (bs : List UInt8) : String :=
  let hex (n : Nat) : Char := (Nat.digitChar n)
  String.ofList <| bs.flatMap fun b =>
    if b < 0x80 then [Char.ofNat b.toNat]
    else ['\\', 'x', hex (b.toNat / 16), hex (b.toNat % 16)]

end Report

end SlotHandles
