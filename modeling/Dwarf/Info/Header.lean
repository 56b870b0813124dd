import Dwarf.Bytes.Sequence
/-!
# Unit headers

A unit opens with its length, which also fixes its format and bounds everything
that follows: the rest of the header and all of its entries are read from these
bytes alone. The length is followed by the version, which decides the order of
the fields after it, and from version 5 on by the type of the unit, which decides
whether further fields follow.

> `UnitHeader.consuming_decode`: a unit takes at least the bytes of its length,
> so a section holds finitely many.
-/

namespace Dwarf

/-- The type of a unit, with the fields that its header has for that type. -/
inductive UnitKind where
  /-- A compilation unit, which every unit before version 5 is. -/
  | compilation
  /-- A unit that describes one type. -/
  | typeUnit (signature offset : Nat)
  /-- A unit that other units import. -/
  | partialUnit
  /-- What is left of a unit whose entries are in another file. -/
  | skeleton (id : Nat)
  /-- The unit that a skeleton stands for. -/
  | splitCompilation (id : Nat)
  /-- A unit that describes one type, in another file. -/
  | splitType (signature offset : Nat)
  deriving DecidableEq, Repr, Inhabited

namespace UnitKind

/-- The code of a unit type. -/
def code : UnitKind → Nat
  | compilation => 1
  | typeUnit _ _ => 2
  | partialUnit => 3
  | skeleton _ => 4
  | splitCompilation _ => 5
  | splitType _ _ => 6

/-- Read the fields that belong to the unit type with this code. -/
def decode (order : ByteOrder) (format : Format) (code : Nat) : Decoder UnitKind :=
  match code with
  | 1 => return compilation
  | 2 => do
    let signature ← Decoder.uint order 8
    let offset ← Decoder.offset order format
    return typeUnit signature offset
  | 3 => return partialUnit
  | 4 => do
    let id ← Decoder.uint order 8
    return skeleton id
  | 5 => do
    let id ← Decoder.uint order 8
    return splitCompilation id
  | 6 => do
    let signature ← Decoder.uint order 8
    let offset ← Decoder.offset order format
    return splitType signature offset
  | _ => Decoder.fail (.unknownUnitType code)

/-- Write the fields that belong to a unit type. -/
def encode (order : ByteOrder) (format : Format) : UnitKind → Bytes
  | compilation | partialUnit => []
  | typeUnit signature offset | splitType signature offset =>
    order.encode 8 signature ++ order.encode format.wordSize offset
  | skeleton id | splitCompilation id => order.encode 8 id

end UnitKind

/-- The fields of a header after the length. -/
structure UnitFields where
  /-- The DWARF version. -/
  version : Nat
  /-- The width in bytes of a target address. -/
  addressSize : Nat
  /-- Where the table of the unit starts in the section of abbreviations. -/
  abbrevOffset : Nat
  /-- The type of the unit. -/
  kind : UnitKind
  deriving DecidableEq, Repr, Inhabited

namespace UnitFields

/-- The type code, the address size and the offset of the table, in the order
that the version gives them. Before version 5 there is no type code. -/
def decodeSizes (order : ByteOrder) (format : Format) (version : Nat) :
    Decoder (Nat × Nat × Nat) :=
  if 5 ≤ version then do
    let code ← Decoder.byte
    let addressSize ← Decoder.byte
    let abbrevOffset ← Decoder.offset order format
    return (code, addressSize, abbrevOffset)
  else do
    let abbrevOffset ← Decoder.offset order format
    let addressSize ← Decoder.byte
    return (UnitKind.compilation.code, addressSize, abbrevOffset)

/-- Read the fields. The version is checked as soon as it is read, the address
size before the fields of the unit type. -/
def decode (order : ByteOrder) (format : Format) : Decoder UnitFields := do
  let version ← Decoder.uint order 2
  if version < 2 ∨ 5 < version then Decoder.fail (.unknownVersion version)
  else
    let (code, addressSize, abbrevOffset) ← decodeSizes order format version
    if addressSize ≠ 4 ∧ addressSize ≠ 8 then Decoder.fail (.addressSize addressSize)
    else
      let kind ← UnitKind.decode order format code
      return { version, addressSize, abbrevOffset, kind }

/-- Write the fields. -/
def encode (order : ByteOrder) (format : Format) (f : UnitFields) : Bytes :=
  let abbrevOffset := order.encode format.wordSize f.abbrevOffset
  order.encode 2 f.version
    ++ (if 5 ≤ f.version then
        [UInt8.ofNat f.kind.code, UInt8.ofNat f.addressSize] ++ abbrevOffset
      else abbrevOffset ++ [UInt8.ofNat f.addressSize])
    ++ f.kind.encode order format

end UnitFields

/-- The header of a unit, and the bytes of the entries after it. -/
structure UnitHeader where
  /-- Where the unit starts in its section. -/
  offset : Nat
  /-- The number of bytes after the length field. -/
  length : Nat
  /-- The format that the length field chose. -/
  format : Format
  /-- The order of the bytes in an integer. -/
  order : ByteOrder
  /-- The fields after the length. -/
  fields : UnitFields
  /-- The number of bytes before the first entry. -/
  headerSize : Nat
  /-- The bytes of the entries. -/
  entries : Bytes
  deriving DecidableEq, Repr, Inhabited

namespace UnitHeader

/-- The parameters that the header sets for the fields of entries. -/
def encoding (h : UnitHeader) : Encoding where
  order := h.order
  addressSize := h.fields.addressSize
  format := h.format
  version := h.fields.version

/-- The number of bytes of the whole unit. -/
def totalLength (h : UnitHeader) : Nat := h.format.initialLengthSize + h.length

/-- Where the entries of the unit start in its section. -/
def entriesOffset (h : UnitHeader) : Nat := h.offset + h.headerSize

/-- Where the unit ends in its section. -/
def endOffset (h : UnitHeader) : Nat := h.entriesOffset + h.entries.length

/-- Read the unit that starts at `offset`. All of it has to be there. -/
def decode (order : ByteOrder) (offset : Nat) : Decoder UnitHeader := do
  let (length, format) ← Decoder.initialLength order
  let body ← Decoder.reporting (.unitTooLong length) (Decoder.take length)
  let (fields, entries) ← Decoder.within body (UnitFields.decode order format)
  return {
    offset, length, format, order, fields, entries
    headerSize := format.initialLengthSize + (body.length - entries.length) }

/-- Write a length field. -/
def encodeLength (order : ByteOrder) (format : Format) (length : Nat) : Bytes :=
  match format with
  | .dwarf32 => order.encode 4 length
  | .dwarf64 => order.encode 4 0xffffffff ++ order.encode 8 length

/-- Write a header. -/
def encode (h : UnitHeader) : Bytes :=
  encodeLength h.order h.format h.length ++ h.fields.encode h.order h.format

/-- A unit takes at least the bytes of its length. -/
theorem consuming_decode (order : ByteOrder) (offset : Nat) :
    Decoder.Consuming (decode order offset) := by
  refine (Decoder.consuming_initialLength order).bind fun _ => ?_
  refine ((Decoder.forward_take _).reporting _).bind fun _ => ?_
  exact (Decoder.forward_within _ _).bind fun _ => .pure _

/-- Read the unit at `offset` in a section. -/
def atOffset (order : ByteOrder) (info : Bytes) (offset : Nat) : Except Fault UnitHeader :=
  if info.length < offset then .error .offsetBounds
  else (decode order offset).value (info.drop offset)

/-- A unit as an item of its section. -/
def item (order : ByteOrder) : Item UnitHeader where
  decode := decode order
  consuming := consuming_decode order

/-- The headers of the units in a section, from its start on. -/
def all (order : ByteOrder) (info : Bytes) : Progress UnitHeader :=
  (Cursor.atStart info).run (item order)

end UnitHeader

end Dwarf
