/-!
# Forms

The form of an attribute says how its value is stored. A form has a code, which
is what an abbreviation table holds. One code, `indirectCode`, is no `Form`: it
says that the entry itself gives the form, so no value is ever stored in it.

> `ofCode?_eq_some`: a form is found by its code and by no other.
-/

namespace Dwarf

/-- How the value of an attribute is stored. -/
inductive Form where
  /-- A target address. -/
  | addr
  /-- A block after a two-byte length. -/
  | block2
  /-- A block after a four-byte length. -/
  | block4
  /-- A two-byte constant. -/
  | data2
  /-- A four-byte constant. -/
  | data4
  /-- An eight-byte constant. -/
  | data8
  /-- A string, up to its zero byte. -/
  | string
  /-- A block after a LEB128 length. -/
  | block
  /-- A block after a one-byte length. -/
  | block1
  /-- A one-byte constant. -/
  | data1
  /-- A flag of one byte. -/
  | flag
  /-- A signed LEB128 constant. -/
  | sdata
  /-- An offset into the string section. -/
  | strp
  /-- An unsigned LEB128 constant. -/
  | udata
  /-- An offset into the section of units. -/
  | refAddr
  /-- A one-byte offset into the unit. -/
  | ref1
  /-- A two-byte offset into the unit. -/
  | ref2
  /-- A four-byte offset into the unit. -/
  | ref4
  /-- An eight-byte offset into the unit. -/
  | ref8
  /-- A LEB128 offset into the unit. -/
  | refUdata
  /-- An offset into a section that the attribute decides. -/
  | secOffset
  /-- An expression after a LEB128 length. -/
  | exprloc
  /-- A flag that is set and takes no bytes. -/
  | flagPresent
  /-- A LEB128 index of a string. -/
  | strx
  /-- A LEB128 index of an address. -/
  | addrx
  /-- A four-byte offset into the units of the supplementary file. -/
  | refSup4
  /-- An offset into the strings of the supplementary file. -/
  | strpSup
  /-- A constant of sixteen bytes. -/
  | data16
  /-- An offset into the section of line strings. -/
  | lineStrp
  /-- The signature of a type. -/
  | refSig8
  /-- A constant that the abbreviation holds. -/
  | implicitConst
  /-- A LEB128 index of a location list. -/
  | loclistx
  /-- A LEB128 index of a range list. -/
  | rnglistx
  /-- An eight-byte offset into the units of the supplementary file. -/
  | refSup8
  /-- A one-byte index of a string. -/
  | strx1
  /-- A two-byte index of a string. -/
  | strx2
  /-- A three-byte index of a string. -/
  | strx3
  /-- A four-byte index of a string. -/
  | strx4
  /-- A one-byte index of an address. -/
  | addrx1
  /-- A two-byte index of an address. -/
  | addrx2
  /-- A three-byte index of an address. -/
  | addrx3
  /-- A four-byte index of an address. -/
  | addrx4
  /-- A LEB128 index of an address, as GNU tools wrote it before version 5. -/
  | gnuAddrIndex
  /-- A LEB128 index of a string, as GNU tools wrote it before version 5. -/
  | gnuStrIndex
  /-- An offset into the units of the supplementary file, as GNU tools write it. -/
  | gnuRefAlt
  /-- An offset into the strings of the supplementary file, as GNU tools write it. -/
  | gnuStrpAlt
  deriving DecidableEq, Repr, Inhabited

namespace Form

/-- The code of the pseudo-form whose values start with the code of their real form. -/
def indirectCode : Nat := 0x16

/-- The code that stands for a form in an abbreviation table. -/
def code : Form → Nat
  | addr => 0x01
  | block2 => 0x03
  | block4 => 0x04
  | data2 => 0x05
  | data4 => 0x06
  | data8 => 0x07
  | string => 0x08
  | block => 0x09
  | block1 => 0x0a
  | data1 => 0x0b
  | flag => 0x0c
  | sdata => 0x0d
  | strp => 0x0e
  | udata => 0x0f
  | refAddr => 0x10
  | ref1 => 0x11
  | ref2 => 0x12
  | ref4 => 0x13
  | ref8 => 0x14
  | refUdata => 0x15
  | secOffset => 0x17
  | exprloc => 0x18
  | flagPresent => 0x19
  | strx => 0x1a
  | addrx => 0x1b
  | refSup4 => 0x1c
  | strpSup => 0x1d
  | data16 => 0x1e
  | lineStrp => 0x1f
  | refSig8 => 0x20
  | implicitConst => 0x21
  | loclistx => 0x22
  | rnglistx => 0x23
  | refSup8 => 0x24
  | strx1 => 0x25
  | strx2 => 0x26
  | strx3 => 0x27
  | strx4 => 0x28
  | addrx1 => 0x29
  | addrx2 => 0x2a
  | addrx3 => 0x2b
  | addrx4 => 0x2c
  | gnuAddrIndex => 0x1f01
  | gnuStrIndex => 0x1f02
  | gnuRefAlt => 0x1f20
  | gnuStrpAlt => 0x1f21

/-- The form that a code stands for. -/
def ofCode? : Nat → Option Form
  | 0x01 => some addr
  | 0x03 => some block2
  | 0x04 => some block4
  | 0x05 => some data2
  | 0x06 => some data4
  | 0x07 => some data8
  | 0x08 => some string
  | 0x09 => some block
  | 0x0a => some block1
  | 0x0b => some data1
  | 0x0c => some flag
  | 0x0d => some sdata
  | 0x0e => some strp
  | 0x0f => some udata
  | 0x10 => some refAddr
  | 0x11 => some ref1
  | 0x12 => some ref2
  | 0x13 => some ref4
  | 0x14 => some ref8
  | 0x15 => some refUdata
  | 0x17 => some secOffset
  | 0x18 => some exprloc
  | 0x19 => some flagPresent
  | 0x1a => some strx
  | 0x1b => some addrx
  | 0x1c => some refSup4
  | 0x1d => some strpSup
  | 0x1e => some data16
  | 0x1f => some lineStrp
  | 0x20 => some refSig8
  | 0x21 => some implicitConst
  | 0x22 => some loclistx
  | 0x23 => some rnglistx
  | 0x24 => some refSup8
  | 0x25 => some strx1
  | 0x26 => some strx2
  | 0x27 => some strx3
  | 0x28 => some strx4
  | 0x29 => some addrx1
  | 0x2a => some addrx2
  | 0x2b => some addrx3
  | 0x2c => some addrx4
  | 0x1f01 => some gnuAddrIndex
  | 0x1f02 => some gnuStrIndex
  | 0x1f20 => some gnuRefAlt
  | 0x1f21 => some gnuStrpAlt
  | _ => none

@[simp] theorem ofCode?_code (form : Form) : ofCode? form.code = some form := by
  cases form <;> rfl

theorem ofCode?_eq_some {code : Nat} {form : Form} : ofCode? code = some form ↔ form.code = code := by
  constructor
  · intro h
    unfold ofCode? at h
    split at h <;> cases h <;> rfl
  · intro h
    rw [← h, ofCode?_code]

theorem ofCode?_indirectCode : ofCode? indirectCode = none := rfl

end Form

end Dwarf
