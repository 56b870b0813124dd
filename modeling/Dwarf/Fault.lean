import Dwarf.Section
import Dwarf.Text.Numeral
/-!
# Why reading stopped

Every failure in the library is a `Fault`: a cause, with the number or the
section that it concerns. `Fault.message` words the cause for a reader and
`Fault.kind` says how much work it spoils: the whole file, the work that needs
one section, or one unit or table of a section.
-/

namespace Dwarf

/-- How much work a fault spoils. -/
inductive FaultKind where
  /-- The file is not one that can be read at all. -/
  | format
  /-- The sections do not fit the file, or one is missing. -/
  | structural
  /-- The bytes of a section end early or contradict themselves. -/
  | stream
  deriving DecidableEq, Repr, Inhabited

/-- The causes of failure. -/
inductive Fault where
  /-- Bytes could not be had from their source. -/
  | inputFailure
  /-- An unsigned LEB128 number does not fit in 64 bits. -/
  | unsignedOverflow
  /-- A signed LEB128 number does not fit in 64 bits. -/
  | signedOverflow
  /-- An abbreviation has tag zero. -/
  | zeroTag
  /-- An attribute has a form but no name. -/
  | zeroAttributeName
  /-- An attribute has a name but no form. -/
  | zeroForm
  /-- The children flag of an abbreviation is neither 0 nor 1. -/
  | childrenFlag (value : Nat)
  /-- A second abbreviation of a table uses this code. -/
  | duplicateCode (code : Nat)
  /-- No such form is known. -/
  | unknownForm (form : Nat)
  /-- A tag above 16 bits. -/
  | tagRange (tag : Nat)
  /-- An attribute name above 16 bits. -/
  | attributeNameRange (name : Nat)
  /-- A form above 16 bits. -/
  | formRange (form : Nat)
  /-- An entry names the form whose value only an abbreviation can give. -/
  | indirectConstant
  /-- An initial length in the reserved range. -/
  | reservedLength (value : Nat)
  /-- A DWARF version outside 2 to 5. -/
  | unknownVersion (version : Nat)
  /-- A unit type that no header layout is known for. -/
  | unknownUnitType (unitType : Nat)
  /-- A width that no address or length has. -/
  | addressSize (size : Nat)
  /-- A unit is longer than what is left of its section. -/
  | unitTooLong (length : Nat)
  /-- An entry uses a code that its table lacks. -/
  | unknownCode (code : Nat)
  /-- A null entry where no scope is open. -/
  | nullWithoutScope
  /-- Bytes follow the null entry that closed the outermost scope. -/
  | trailingEntries
  /-- The unit ends with this many scopes open. -/
  | openScopes (count : Nat)
  /-- The bytes end in the middle of a value. -/
  | unexpectedEnd
  /-- An integer of a width that no offset has. -/
  | offsetWidth
  /-- Bytes that are not UTF-8. -/
  | notUtf8
  /-- An offset past the end of its section. -/
  | offsetBounds
  /-- An attribute value that refers to no string. -/
  | notAString
  /-- The file is shorter than a file header. -/
  | fileTooSmall
  /-- The file does not start with the ELF magic bytes. -/
  | fileMagic
  /-- The class byte is neither 32-bit nor 64-bit. -/
  | fileClass (value : Nat)
  /-- The data byte names no byte order. -/
  | fileDataEncoding (value : Nat)
  /-- The identification has a version other than 1. -/
  | fileVersion (value : Nat)
  /-- The file header could not be read. -/
  | fileHeader
  /-- The file header gives itself a size smaller than it has. -/
  | fileHeaderSize (size : Nat)
  /-- The section headers do not lie in the file, or have the wrong size. -/
  | sectionTable
  /-- The index of the name table names no section. -/
  | nameTableIndex (index : Nat)
  /-- The name table is not a string table. -/
  | nameTableType (sectionType : Nat)
  /-- The bytes of a section do not lie in the file. -/
  | sectionBounds (offset size : Nat)
  /-- The file has no such section. -/
  | missingSection (id : SectionId)
  deriving DecidableEq, Repr, Inhabited

namespace Fault

/-- The cause in words. -/
def message : Fault → String
  | inputFailure => "I/O error"
  | unsignedOverflow => "unsigned LEB128 overflow"
  | signedOverflow => "signed LEB128 overflow"
  | zeroTag => "invalid abbreviation tag: zero"
  | zeroAttributeName => "invalid attribute name: zero"
  | zeroForm => "invalid attribute form: zero"
  | childrenFlag value => "invalid abbreviation children: " ++ decimal value
  | duplicateCode code => "duplicate abbreviation code: " ++ decimal code
  | unknownForm form => "unknown form: " ++ hexadecimal form
  | tagRange tag => "tag out of range: " ++ hexadecimal tag
  | attributeNameRange name => "attribute name out of range: " ++ hexadecimal name
  | formRange form => "form out of range: " ++ hexadecimal form
  | indirectConstant => "DW_FORM_indirect cannot name DW_FORM_implicit_const"
  | reservedLength value => "unknown reserved length: " ++ hexadecimal value
  | unknownVersion version => "unknown DWARF version: " ++ decimal version
  | unknownUnitType unitType => "unknown unit type: " ++ hexadecimal unitType
  | addressSize size => "unsupported address size: " ++ decimal size
  | unitTooLong length => "unit length " ++ decimal length ++ " exceeds the section"
  | unknownCode code => "invalid abbreviation code: " ++ decimal code
  | nullWithoutScope => "null entry without an open scope"
  | trailingEntries => "entries after the root scope was closed"
  | openScopes count => "unit ended with " ++ decimal count ++ " open scopes"
  | unexpectedEnd => "unexpected end of input"
  | offsetWidth => "offset overflow"
  | notUtf8 => "invalid UTF-8"
  | offsetBounds => "offset is out of bounds"
  | notAString => "expected a string attribute value"
  | fileTooSmall => "file too small to be ELF"
  | fileMagic => "not an ELF file"
  | fileClass value => "unsupported ELF class: " ++ decimal value
  | fileDataEncoding value => "unsupported ELF data encoding: " ++ decimal value
  | fileVersion value => "unsupported ELF version: " ++ decimal value
  | fileHeader => "invalid ELF header"
  | fileHeaderSize size => "invalid ELF header size: " ++ decimal size
  | sectionTable => "invalid section header table"
  | nameTableIndex index => "invalid section name table index: " ++ decimal index
  | nameTableType sectionType => "invalid section name table type: " ++ decimal sectionType
  | sectionBounds offset size =>
    "section at offset " ++ hexadecimal offset ++ " with size " ++ hexadecimal size
      ++ " is out of bounds"
  | missingSection id => id.name ++ " section not found"

/-- How much work the fault spoils. What is not about the file header or about
the place of a section is about the bytes inside one. -/
def kind : Fault → FaultKind
  | fileTooSmall | fileMagic | fileClass _ | fileDataEncoding _ | fileVersion _ | fileHeader
  | fileHeaderSize _ => .format
  | sectionTable | nameTableIndex _ | nameTableType _ | sectionBounds _ _ | missingSection _ =>
    .structural
  | _ => .stream

end Fault

end Dwarf
