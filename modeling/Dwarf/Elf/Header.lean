import Dwarf.Bytes.Decoder
/-!
# ELF file headers

An ELF file comes in two classes, which differ in the width of most fields, and
in two byte orders. Both are said by single bytes at its start, so these are
looked at first; the rest of the header says where the section headers are.

The identification is checked byte by byte from the front, after the length of
the file: which of two faults is reported does not depend on anything behind the
header.
-/

namespace Dwarf

/-- The class of an ELF file. -/
inductive ElfClass where
  /-- Offsets and sizes have four bytes. -/
  | elf32
  /-- Offsets and sizes have eight bytes. -/
  | elf64
  deriving DecidableEq, Repr, Inhabited

namespace ElfClass

/-- The width of an offset or a size. -/
def wordSize : ElfClass → Nat
  | elf32 => 4
  | elf64 => 8

/-- The size of a file header. -/
def headerSize : ElfClass → Nat
  | elf32 => 52
  | elf64 => 64

/-- The size of a section header. -/
def sectionHeaderSize : ElfClass → Nat
  | elf32 => 40
  | elf64 => 64

end ElfClass

namespace Elf

/-- The bytes with which every ELF file starts. -/
def magic : Bytes := [0x7f, 0x45, 0x4c, 0x46]

/-- The fields of a file header that lead to the sections. -/
structure FileHeader where
  /-- Where the section headers are. Zero means that there are none. -/
  tableOffset : Nat
  /-- The size that the header gives itself. -/
  headerSize : Nat
  /-- The size of a section header. -/
  entrySize : Nat
  /-- The number of sections, or zero if section 0 has to be asked. -/
  count : Nat
  /-- The index of the name table, or `0xffff` if section 0 has to be asked. -/
  nameTableIndex : Nat
  deriving DecidableEq, Repr, Inhabited

/-- The class that the class byte says. -/
def classOfByte : Nat → Except Fault ElfClass
  | 1 => .ok .elf32
  | 2 => .ok .elf64
  | value => .error (.fileClass value)

/-- The byte order that the data byte says. -/
def orderOfByte : Nat → Except Fault ByteOrder
  | 1 => .ok .little
  | 2 => .ok .big
  | value => .error (.fileDataEncoding value)

/-- Check the identification, which the file starts with, and find its class and
byte order. A file that says it is of the longer class has to be long enough for
that before anything else is looked at. -/
def identify (file : Bytes) : Except Fault (ElfClass × ByteOrder) :=
  let byteAt (i : Nat) : Nat := (file.getD i 0).toNat
  if file.length < ElfClass.elf32.headerSize then .error .fileTooSmall
  else if byteAt 4 = 2 ∧ file.length < ElfClass.elf64.headerSize then .error .fileTooSmall
  else if file.take 4 ≠ magic then .error .fileMagic
  else do
    let fileClass ← classOfByte (byteAt 4)
    let order ← orderOfByte (byteAt 5)
    if byteAt 6 ≠ 1 then .error (.fileVersion (byteAt 6)) else return (fileClass, order)

namespace FileHeader

/-- Read a file header. Type, machine, version, entry point, program headers and
flags are passed over. -/
def decode (fileClass : ElfClass) (order : ByteOrder) : Decoder FileHeader := do
  Decoder.skip 24
  Decoder.skip (2 * fileClass.wordSize)
  let tableOffset ← Decoder.uint order fileClass.wordSize
  Decoder.skip 4
  let headerSize ← Decoder.uint order 2
  Decoder.skip 4
  let entrySize ← Decoder.uint order 2
  let count ← Decoder.uint order 2
  let nameTableIndex ← Decoder.uint order 2
  return { tableOffset, headerSize, entrySize, count, nameTableIndex }

end FileHeader

end Elf

end Dwarf
