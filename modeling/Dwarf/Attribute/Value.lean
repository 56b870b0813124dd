import Dwarf.Bytes.Order
/-!
# Attribute values

A value is what an attribute says about its entry once the form has been undone:
a constant, a block, a flag, or a reference into some section. A constant of
fixed width keeps its width, since only the attribute decides whether it is to
be read with or without a sign.
-/

namespace Dwarf

/-- The value of an attribute. -/
inductive Value where
  /-- An address of the target program. -/
  | addr (address : Nat)
  /-- Uninterpreted bytes. -/
  | block (bytes : Bytes)
  /-- A constant of `size` bytes, signed or not. -/
  | data (size value : Nat)
  /-- A signed constant. -/
  | sdata (value : Int)
  /-- An unsigned constant. -/
  | udata (value : Nat)
  /-- An expression or location description. -/
  | exprloc (bytes : Bytes)
  /-- Presence or absence of a property. -/
  | flag (set : Bool)
  /-- An offset into a section that the attribute decides. -/
  | secOffset (offset : Nat)
  /-- The entry at this distance from the start of the unit. -/
  | unitRef (offset : Nat)
  /-- The entry at this offset into the section of units. -/
  | infoRef (offset : Nat)
  /-- The entry at this offset into the units of the supplementary file. -/
  | supInfoRef (offset : Nat)
  /-- The type with this signature. -/
  | typeRef (signature : Nat)
  /-- The string at this offset into the string section. -/
  | strRef (offset : Nat)
  /-- The string at this offset into the strings of the supplementary file. -/
  | supStrRef (offset : Nat)
  /-- The string at this offset into the section of line strings. -/
  | lineStrRef (offset : Nat)
  /-- The string at this index of the string offsets. -/
  | strIndex (index : Nat)
  /-- The address at this index of the address table. -/
  | addrIndex (index : Nat)
  /-- The location list at this index. -/
  | locListIndex (index : Nat)
  /-- The range list at this index. -/
  | rngListIndex (index : Nat)
  /-- A string stored in place, without its zero byte. -/
  | string (bytes : Bytes)
  deriving DecidableEq, Repr, Inhabited

namespace Value

/-- The value as an unsigned constant. A negative number is none. -/
def unsigned? : Value → Option Nat
  | data _ value => some value
  | udata value => some value
  | sdata value => if value < 0 then none else some value.toNat
  | _ => none

/-- The value as a signed constant of 64 bits. A constant of fixed width is read
as two's complement; an unsigned one that does not fit is none. -/
def signed? : Value → Option Int
  | data size value => some ((value : Int).bmod (placeValue 256 size))
  | sdata value => some value
  | udata value => if value < 0x8000000000000000 then some value else none
  | _ => none

/-- The value as an offset into a section. Before version 4 such offsets had no
form of their own and were stored as constants of four or eight bytes. -/
def offset? : Value → Option Nat
  | data 4 value => some value
  | data 8 value => some value
  | secOffset offset => some offset
  | _ => none

end Value

end Dwarf
