import Dwarf.Elf.Header
/-!
# Section headers

A section header names a section, says of what type it is, and where in the file
its bytes are. All headers of a file lie together, one after another.

> `Elf.stretch?`: a stretch of a file is there only if all of it is. A stretch of
> no bytes is there wherever it is said to start.
-/

namespace Dwarf

namespace Elf

/-- The header of a section. -/
structure SectionHeader where
  /-- The position of the section in the table. -/
  index : Nat
  /-- Where the name of the section starts in the name table. -/
  name : Nat
  /-- The type of the section. -/
  type : Nat
  /-- The flags of the section. -/
  flags : Nat
  /-- Where the bytes of the section start in the file. -/
  offset : Nat
  /-- The number of bytes of the section. -/
  size : Nat
  /-- The index of a section that goes with this one. -/
  link : Nat
  /-- The size of the entries of a section that is a table. -/
  entrySize : Nat
  deriving DecidableEq, Repr, Inhabited

/-- The type of a string table. -/
def stringTableType : Nat := 3

/-- The type of a section that has a size but no bytes in the file. -/
def noBitsType : Nat := 8

/-- `size` bytes of a file from `offset` on. -/
def stretch? (file : Bytes) (offset size : Nat) : Option Bytes :=
  if size = 0 then some []
  else if offset + size ≤ file.length then some ((file.drop offset).take size)
  else none

namespace SectionHeader

/-- Read the header of the section at `index`. Address, information and alignment
are passed over. -/
def decode (fileClass : ElfClass) (order : ByteOrder) (index : Nat) : Decoder SectionHeader := do
  let name ← Decoder.uint order 4
  let type ← Decoder.uint order 4
  let flags ← Decoder.uint order fileClass.wordSize
  Decoder.skip fileClass.wordSize
  let offset ← Decoder.uint order fileClass.wordSize
  let size ← Decoder.uint order fileClass.wordSize
  let link ← Decoder.uint order 4
  Decoder.skip 4
  Decoder.skip fileClass.wordSize
  let entrySize ← Decoder.uint order fileClass.wordSize
  return { index, name, type, flags, offset, size, link, entrySize }

/-- Write a header. What reading passes over is written as zero. -/
def encode (fileClass : ElfClass) (order : ByteOrder) (h : SectionHeader) : Bytes :=
  let word := order.encode fileClass.wordSize
  order.encode 4 h.name ++ order.encode 4 h.type ++ word h.flags ++ word 0 ++ word h.offset
    ++ word h.size ++ order.encode 4 h.link ++ order.encode 4 0 ++ word 0 ++ word h.entrySize

/-- Read `count` headers, the first of them at `index`. -/
def decodeMany (fileClass : ElfClass) (order : ByteOrder) (index : Nat) :
    (count : Nat) → Decoder (List SectionHeader)
  | 0 => pure []
  | count + 1 => do
    let first ← decode fileClass order index
    let others ← decodeMany fileClass order (index + 1) count
    return first :: others

/-- The bytes of the section in its file. -/
def contents? (file : Bytes) (h : SectionHeader) : Option Bytes :=
  if h.type = noBitsType then some [] else stretch? file h.offset h.size

end SectionHeader

end Elf

end Dwarf
