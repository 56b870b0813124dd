import Dwarf.Proofs.Bytes.Raising
import Dwarf.Proofs.Elf.Accepted
/-!
# Why a file is refused

A file is checked in two steps. The first reads the file header and nothing behind it; if it
fails, this is no file to be read at all. The second looks for the section headers and for the
name table, and if it fails these are not where the header says.

> `Elf.checkHeader_headerBytes`: the first step ends in the same way on the bytes of the header
> alone. So files that have these bytes in common pass it all, or fail it for one cause.

> `ElfFile.ofBytes_eq_error`: each cause for which a file is refused belongs to one of the two
> steps.
-/

namespace Dwarf

namespace Fault

/-- The faults of a file header. -/
inductive OfFileHeader : Fault → Prop where
  | fileTooSmall : OfFileHeader .fileTooSmall
  | fileMagic : OfFileHeader .fileMagic
  | fileClass (value : Nat) : OfFileHeader (.fileClass value)
  | fileDataEncoding (value : Nat) : OfFileHeader (.fileDataEncoding value)
  | fileVersion (value : Nat) : OfFileHeader (.fileVersion value)
  | fileHeaderSize (size : Nat) : OfFileHeader (.fileHeaderSize size)

/-- The faults of the section headers and of the name table. -/
inductive OfSectionTable : Fault → Prop where
  | sectionTable : OfSectionTable .sectionTable
  | nameTableIndex (index : Nat) : OfSectionTable (.nameTableIndex index)
  | nameTableType (sectionType : Nat) : OfSectionTable (.nameTableType sectionType)
  | sectionBounds (offset size : Nat) : OfSectionTable (.sectionBounds offset size)

theorem OfFileHeader.kind_eq {cause : Fault} (h : cause.OfFileHeader) : cause.kind = .format := by
  cases h <;> rfl

theorem OfSectionTable.kind_eq {cause : Fault} (h : cause.OfSectionTable) :
    cause.kind = .structural := by
  cases h <;> rfl

end Fault

namespace Elf

open Decoder

variable {fileClass : ElfClass} {order : ByteOrder} {file : Bytes} {cause : Fault}

/-! ### The file header -/

/-- A file header has a fixed size, so a file that is long enough for one has one. -/
theorem FileHeader.fixed_decode (fileClass : ElfClass) (order : ByteOrder) :
    (decode fileClass order).Fixed fileClass.headerSize := by
  have hfields := (fixed_skip 24).bind fun _ => (fixed_skip (2 * fileClass.wordSize)).bind fun _ =>
    (fixed_uint order fileClass.wordSize).bind fun tableOffset => (fixed_skip 4).bind fun _ =>
    (fixed_uint order 2).bind fun headerSize => (fixed_skip 4).bind fun _ =>
    (fixed_uint order 2).bind fun entrySize => (fixed_uint order 2).bind fun count =>
    (fixed_uint order 2).bind fun nameTableIndex =>
    fixed_pure (FileHeader.mk tableOffset headerSize entrySize count nameTableIndex)
  -- In either class the widths add up to the size of the header.
  cases fileClass <;> exact hfields

/-- The first step: what the header says of the class, of the byte order and of the sections. -/
def checkHeader (file : Bytes) : Except Fault (ElfClass × ByteOrder × FileHeader) := do
  let (fileClass, order) ← identify file
  let header ← (reporting .fileHeader (FileHeader.decode fileClass order)).value file
  if header.headerSize < fileClass.headerSize then .error (.fileHeaderSize header.headerSize)
  else return (fileClass, order, header)

/-- The second step: the section headers and the name table. -/
def checkSections (fileClass : ElfClass) (order : ByteOrder) (header : FileHeader)
    (file : Bytes) : Except Fault ElfFile := do
  let sections ← readSections fileClass order header file
  let nameTable ← findNameTable header sections
  if nameTable.type ≠ stringTableType then .error (.nameTableType nameTable.type)
  else if nameTable.contents? file = none then
    .error (.sectionBounds nameTable.offset nameTable.size)
  else return { bytes := file, fileClass, order, sections, nameTable }

theorem ofBytes_eq_bind (file : Bytes) : ElfFile.ofBytes file =
    checkHeader file >>= fun (fileClass, order, header) =>
      checkSections fileClass order header file := by
  unfold ElfFile.ofBytes checkHeader
  rw [bind_assoc]
  congr 1
  funext identified
  obtain ⟨fileClass, order⟩ := identified
  simp only [bind_assoc]
  congr 1
  funext header
  split <;> rfl

theorem ofFileHeader_of_identify (h : identify file = .error cause) : cause.OfFileHeader := by
  unfold identify at h
  simp only at h
  split at h
  · cases h
    exact .fileTooSmall
  · split at h
    · cases h
      exact .fileTooSmall
    · split at h
      · cases h
        exact .fileMagic
      · rcases Fallible.bind_eq_error.mp h with hclass | ⟨fileClass, -, h⟩
        · unfold classOfByte at hclass
          split at hclass <;> cases hclass
          exact .fileClass _
        · rcases Fallible.bind_eq_error.mp h with horder | ⟨order, -, h⟩
          · unfold orderOfByte at horder
            split at horder <;> cases horder
            exact .fileDataEncoding _
          · split at h <;> cases h
            exact .fileVersion _

/-- That the header could not be read is never a cause: the file was seen to be long enough. -/
theorem ofFileHeader_of_checkHeader (h : checkHeader file = .error cause) :
    cause.OfFileHeader := by
  rcases Fallible.bind_eq_error.mp h with hidentify | ⟨⟨fileClass, order⟩, hidentify, h⟩
  · exact ofFileHeader_of_identify hidentify
  · have hlen := (identified_of_identify hidentify).length
    obtain ⟨header, hread, -⟩ := (FileHeader.fixed_decode fileClass order).value_take hlen
    rcases Fallible.bind_eq_error.mp h with hheader | ⟨header, -, h⟩
    · rw [value_reporting hread] at hheader
      cases hheader
    · split at h <;> cases h
      exact .fileHeaderSize _

/-! ### The bytes of the file header -/

/-- The size of the header that the class byte asks for. -/
def headerLength (file : Bytes) : Nat :=
  if (file.getD 4 0).toNat = 2 then ElfClass.elf64.headerSize else ElfClass.elf32.headerSize

/-- The bytes of the header. -/
def headerBytes (file : Bytes) : Bytes := file.take (headerLength file)

theorem headerLength_of_identify (hidentify : identify file = .ok (fileClass, order)) :
    headerLength file = fileClass.headerSize := by
  unfold headerLength
  rw [List.getD_eq_getElem?_getD, (identified_of_identify hidentify).classByte]
  cases fileClass <;> rfl

/-- What identifies the file is in the header, and so is all that its length is needed for. -/
theorem identify_headerBytes (hlen : headerLength file ≤ file.length) :
    identify (headerBytes file) = identify file := by
  have htaken : (headerBytes file).length = headerLength file := List.length_take_of_le hlen
  have hshortest : 52 ≤ headerLength file := by
    unfold headerLength
    split <;> decide
  have hbyte : ∀ i < 52, (headerBytes file).getD i 0 = file.getD i 0 := by
    intro i hi
    rw [List.getD_eq_getElem?_getD, List.getD_eq_getElem?_getD, headerBytes,
      List.getElem?_take_of_lt (Nat.lt_of_lt_of_le hi hshortest)]
  have hmagic : (headerBytes file).take 4 = file.take 4 := by
    rw [headerBytes, List.take_take, Nat.min_eq_left (by omega)]
  -- Of the lengths only this is asked, and it holds of both.
  have hlong : ∀ bs : Bytes, headerLength file ≤ bs.length →
      ¬ bs.length < ElfClass.elf32.headerSize ∧
      ¬ ((file.getD 4 0).toNat = 2 ∧ bs.length < ElfClass.elf64.headerSize) := by
    intro bs hbs
    refine ⟨Nat.not_lt.mpr (Nat.le_trans hshortest hbs), ?_⟩
    rintro ⟨hclass, hshort⟩
    rw [headerLength, if_pos hclass] at hbs
    omega
  obtain ⟨hsmall, hlarge⟩ := hlong file hlen
  obtain ⟨hsmall', hlarge'⟩ := hlong (headerBytes file) (Nat.le_of_eq htaken.symm)
  unfold identify
  simp only [hbyte 4 (by decide), hbyte 5 (by decide), hbyte 6 (by decide), hmagic, if_neg hsmall,
    if_neg hlarge, if_neg hsmall', if_neg hlarge']

/-- **The header is checked by its own bytes.** -/
theorem checkHeader_headerBytes (hlen : headerLength file ≤ file.length) :
    checkHeader (headerBytes file) = checkHeader file := by
  unfold checkHeader
  rw [identify_headerBytes hlen]
  cases hidentify : identify file with
  | error cause => rfl
  | ok identified =>
    obtain ⟨fileClass, order⟩ := identified
    have hsize := headerLength_of_identify hidentify
    rw [hsize] at hlen
    obtain ⟨header, hfile, htaken⟩ := (FileHeader.fixed_decode fileClass order).value_take hlen
    let decoder := reporting .fileHeader (FileHeader.decode fileClass order)
    show decoder.value (headerBytes file) >>= _ = decoder.value file >>= _
    rw [value_reporting hfile, headerBytes, hsize, value_reporting htaken]

/-- Each file is long enough for the header of its class, and the headers are the same. -/
structure SameHeader (file file' : Bytes) : Prop where
  length : headerLength file ≤ file.length
  length' : headerLength file' ≤ file'.length
  header : headerBytes file = headerBytes file'

theorem SameHeader.checkHeader_eq {file' : Bytes} (h : SameHeader file file') :
    checkHeader file = checkHeader file' := by
  rw [← checkHeader_headerBytes h.length, h.header, checkHeader_headerBytes h.length']

/-! ### The sections -/

theorem ofSectionTable_of_sectionCount {header : FileHeader}
    (h : sectionCount fileClass order header file = .error cause) : cause.OfSectionTable := by
  unfold sectionCount at h
  split at h
  · cases h
  · split at h
    · cases h
      exact .sectionTable
    · cases hfirst : (reporting .sectionTable (SectionHeader.decode fileClass order 0)).value
          (file.drop header.tableOffset) with
      | ok first =>
        simp only [hfirst] at h
        cases h
      | error cause' =>
        simp only [hfirst] at h
        cases h
        exact (Raises.reporting Fault.OfSectionTable.sectionTable).of_value hfirst

theorem ofSectionTable_of_readSections {header : FileHeader}
    (h : readSections fileClass order header file = .error cause) : cause.OfSectionTable := by
  unfold readSections at h
  split at h
  · cases h
  · split at h
    · next hcount =>
      cases h
      exact ofSectionTable_of_sectionCount hcount
    · cases h
    · split at h
      · cases h
        exact .sectionTable
      · split at h
        · cases h
          exact .sectionTable
        · exact (Raises.reporting Fault.OfSectionTable.sectionTable).of_value h

theorem ofSectionTable_of_findNameTable {header : FileHeader} {sections : List SectionHeader}
    (h : findNameTable header sections = .error cause) : cause.OfSectionTable := by
  unfold findNameTable at h
  simp only at h
  split at h
  · cases h
    exact .nameTableIndex _
  · cases h
    exact .nameTableIndex _
  · split at h <;> cases h
    exact .nameTableIndex _

theorem ofSectionTable_of_checkSections {header : FileHeader}
    (h : checkSections fileClass order header file = .error cause) : cause.OfSectionTable := by
  rcases Fallible.bind_eq_error.mp h with hsections | ⟨sections, -, h⟩
  · exact ofSectionTable_of_readSections hsections
  · rcases Fallible.bind_eq_error.mp h with hfind | ⟨nameTable, -, h⟩
    · exact ofSectionTable_of_findNameTable hfind
    · split at h
      · cases h
        exact .nameTableType _
      · split at h <;> cases h
        exact .sectionBounds _ _

end Elf

namespace ElfFile

open Elf

variable {file : Bytes} {cause : Fault}

/-- A file is refused by the first of the two steps that fails. -/
theorem ofBytes_eq_error (h : ofBytes file = .error cause) :
    checkHeader file = .error cause ∧ cause.OfFileHeader ∨
      (∃ found, checkHeader file = .ok found) ∧ cause.OfSectionTable := by
  rw [ofBytes_eq_bind] at h
  rcases Fallible.bind_eq_error.mp h with hheader | ⟨found, hheader, hsections⟩
  · exact .inl ⟨hheader, ofFileHeader_of_checkHeader hheader⟩
  · exact .inr ⟨⟨found, hheader⟩, ofSectionTable_of_checkSections hsections⟩

/-- The file is no file that can be read exactly if its header is not one. -/
theorem ofBytes_eq_format (hkind : cause.kind = .format) :
    ofBytes file = .error cause ↔ checkHeader file = .error cause := by
  constructor
  · intro h
    rcases ofBytes_eq_error h with ⟨hheader, -⟩ | ⟨-, htable⟩
    · exact hheader
    · rw [htable.kind_eq] at hkind
      cases hkind
  · intro hheader
    rw [ofBytes_eq_bind, hheader]
    rfl

end ElfFile

end Dwarf
