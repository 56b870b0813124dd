import Dwarf.Elf.Section
/-!
# ELF files

An `ElfFile` is a file whose header, section headers and name table have been
checked. Its sections can be found by name and their bytes read; the bytes of a
section are checked against the file only when they are asked for, so that a
section which is nowhere in the file spoils nothing but itself.

> A section is found by its name alone: `sectionNamed?` takes the first in table
> order, and only that one is read.
-/

namespace Dwarf

/-- An ELF file with a section table and a name table. -/
structure ElfFile where
  /-- All bytes of the file. -/
  bytes : Bytes
  /-- The class of the file. -/
  fileClass : ElfClass
  /-- The byte order of the file. -/
  order : ByteOrder
  /-- The headers of the sections, in table order. -/
  sections : List Elf.SectionHeader
  /-- The header of the section that holds the names. -/
  nameTable : Elf.SectionHeader
  deriving Repr, Inhabited

namespace Elf

/-- The number of sections. A count of zero in the header means that section 0
has it, as its size. -/
def sectionCount (fileClass : ElfClass) (order : ByteOrder) (header : FileHeader) (file : Bytes) :
    Except Fault Nat :=
  if header.count ≠ 0 then .ok header.count
  -- Section 0 can only be asked if its header has the expected size.
  else if header.entrySize ≠ fileClass.sectionHeaderSize then .error .sectionTable
  else
    let first := Decoder.reporting .sectionTable (SectionHeader.decode fileClass order 0)
    (first.value (file.drop header.tableOffset)).map (·.size)

/-- The section headers of a file. A table of no sections is fine whatever else is
said about it; otherwise all of it has to lie in the file. -/
def readSections (fileClass : ElfClass) (order : ByteOrder) (header : FileHeader) (file : Bytes) :
    Except Fault (List SectionHeader) :=
  if header.tableOffset = 0 then .ok []
  else match sectionCount fileClass order header file with
    | .error e => .error e
    -- Without sections the size of their headers does not matter.
    | .ok 0 => .ok []
    | .ok count =>
      if header.entrySize ≠ fileClass.sectionHeaderSize then .error .sectionTable
      else if file.length < header.tableOffset + count * header.entrySize then .error .sectionTable
      else
        let table := Decoder.reporting .sectionTable
          (SectionHeader.decodeMany fileClass order 0 count)
        table.value (file.drop header.tableOffset)

/-- The header of the section that holds the names. An index of `0xffff` means
that section 0 has it, as its link. Index zero is no name table. -/
def findNameTable (header : FileHeader) (sections : List SectionHeader) :
    Except Fault SectionHeader :=
  let index? :=
    if header.nameTableIndex = 0xffff then sections.head?.map (·.link)
    else some header.nameTableIndex
  match index? with
  | none | some 0 => .error (.nameTableIndex header.nameTableIndex)
  | some index =>
    match sections[index]? with
    | some table => .ok table
    | none => .error (.nameTableIndex header.nameTableIndex)

end Elf

namespace ElfFile

open Elf

/-- Check a file and find its sections. -/
def ofBytes (file : Bytes) : Except Fault ElfFile := do
  let (fileClass, order) ← identify file
  let header ← (Decoder.reporting .fileHeader (FileHeader.decode fileClass order)).value file
  if header.headerSize < fileClass.headerSize then .error (.fileHeaderSize header.headerSize)
  else
    let sections ← readSections fileClass order header file
    let nameTable ← findNameTable header sections
    if nameTable.type ≠ stringTableType then .error (.nameTableType nameTable.type)
    else if nameTable.contents? file = none then
      .error (.sectionBounds nameTable.offset nameTable.size)
    else return { bytes := file, fileClass, order, sections, nameTable }

/-- The string at `offset` in the name table, which has to end inside the table. -/
def nameAt? (f : ElfFile) (offset : Nat) : Option Bytes :=
  if f.nameTable.offset + f.nameTable.size ≤ f.bytes.length ∧ offset ≤ f.nameTable.size then
    let names := (f.bytes.drop f.nameTable.offset).take f.nameTable.size
    (Decoder.terminated.value (names.drop offset)).toOption
  else none

/-- The name of the section at an index. -/
def sectionName? (f : ElfFile) (index : Nat) : Option Bytes :=
  match f.sections[index]? with
  | none => none
  | some h => f.nameAt? h.name

/-- The first section with this name. A section whose link leads nowhere is
passed over. -/
def sectionNamed? (f : ElfFile) (name : Bytes) : Option SectionHeader :=
  f.sections.find? fun h => h.link < f.sections.length && f.sectionName? h.index == some name

/-- The bytes of the section at the index that `h` gives. If they do not lie in
the file, the fault says where `h` has them. -/
def sectionData (f : ElfFile) (h : SectionHeader) : Except Fault Bytes :=
  match f.sections[h.index]? with
  | none => .error (.sectionBounds h.offset h.size)
  | some real =>
    match real.contents? f.bytes with
    | none => .error (.sectionBounds h.offset h.size)
    | some bytes => .ok bytes

/-- The bytes of a section of debugging information. -/
def debugSection (f : ElfFile) (id : SectionId) : Except Fault Bytes :=
  match f.sectionNamed? id.nameBytes with
  | none => .error (.missingSection id)
  | some h => f.sectionData h

/-- As `debugSection`, but a section that is missing is empty. -/
def debugSectionOrEmpty (f : ElfFile) (id : SectionId) : Except Fault Bytes :=
  match f.debugSection id with
  | .error (.missingSection _) => .ok []
  | result => result

/-- All sections of debugging information, where missing ones are empty. -/
def load (f : ElfFile) : Except Fault Sections := Sections.load f.order f.debugSectionOrEmpty

end ElfFile

end Dwarf
