import Dwarf.Bytes.Order
/-!
# The parameters that fix the width of a field

DWARF comes in a 32-bit and a 64-bit format, which differ in the width of
offsets and in the length field that opens a unit. A unit header adds the byte
order, the size of an address and the version; together these decide how every
later field of the unit is laid out.
-/

namespace Dwarf

/-- The 32-bit or the 64-bit DWARF format. -/
inductive Format where
  /-- Offsets have four bytes, an initial length has four. -/
  | dwarf32
  /-- Offsets have eight bytes, an initial length has an escape of four and then eight. -/
  | dwarf64
  deriving DecidableEq, Repr, Inhabited

namespace Format

/-- The width in bytes of an offset into a section. -/
def wordSize : Format → Nat
  | dwarf32 => 4
  | dwarf64 => 8

/-- The number of bytes that an initial length field occupies. -/
def initialLengthSize : Format → Nat
  | dwarf32 => 4
  | dwarf64 => 12

/-- The number that names the format: the bits in an offset. -/
def bits (format : Format) : Nat := 8 * format.wordSize

end Format

/-- What a unit header says about the fields that follow it. -/
structure Encoding where
  /-- The order of the bytes in an integer. -/
  order : ByteOrder
  /-- The width in bytes of a target address. -/
  addressSize : Nat
  /-- The format, which gives the width of an offset. -/
  format : Format
  /-- The DWARF version. -/
  version : Nat
  deriving DecidableEq, Repr, Inhabited

end Dwarf
