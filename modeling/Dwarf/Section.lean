import Dwarf.Bytes.Order
/-!
# The sections a dump needs

Debugging information is spread over four sections that refer to each other by
offset. `Sections` carries them together; `Sections.load` says in which order
they are asked for, so that the first one that cannot be had is the one
reported.
-/

namespace Dwarf

/-- The name of a section that holds debugging information. -/
inductive SectionId where
  /-- Abbreviation tables. -/
  | abbrevs
  /-- Units and their entries. -/
  | info
  /-- Strings of line number programs, to which entries may refer too. -/
  | lineStr
  /-- Strings that entries refer to by offset. -/
  | str
  deriving DecidableEq, Repr, Inhabited

namespace SectionId

/-- The name that the section has in an object file. -/
def name : SectionId → String
  | abbrevs => ".debug_abbrev"
  | info => ".debug_info"
  | lineStr => ".debug_line_str"
  | str => ".debug_str"

/-- The bytes of the name. -/
def nameBytes (id : SectionId) : Bytes := bytesOfString id.name

/-- Every section, in the order of the constructors. -/
def all : List SectionId := [abbrevs, info, lineStr, str]

end SectionId

/-- The contents of the four sections and the byte order of their integers. -/
structure Sections where
  /-- The order of the bytes in an integer. -/
  order : ByteOrder
  /-- The abbreviation tables. -/
  abbrevs : Bytes := []
  /-- The units. -/
  info : Bytes := []
  /-- The strings that entries refer to. -/
  str : Bytes := []
  /-- The strings shared with line number programs. -/
  lineStr : Bytes := []
  deriving DecidableEq, Repr, Inhabited

namespace Sections

/-- Ask `read` for each section: abbreviations, units, strings, line strings.
A reader that fails ends the loading at the section it failed for. -/
def load {m : Type → Type} [Monad m] (order : ByteOrder) (read : SectionId → m Bytes) :
    m Sections := do
  let abbrevs ← read .abbrevs
  let info ← read .info
  let str ← read .str
  let lineStr ← read .lineStr
  return { order, abbrevs, info, str, lineStr }

end Sections

end Dwarf
