import Dwarf.Dump.Output
import Dwarf.Elf.File
/-!
# The sections that a dump works on

A dump needs its own section and sometimes others. Strings can be missing: a file
without any may have no section for them. That the strings are missing is told;
that the strings of line number programs are missing is usual and is not.
-/

namespace Dwarf

/-- The lines with which the dump of a section opens. -/
def headingLines (id : SectionId) : List String :=
  ["The section " ++ id.name ++ " contains:", ""]

namespace ElfFile

/-- The string section, empty if it is missing, with the event of its missing. -/
def strSection (f : ElfFile) : List Event × Except Fault Bytes :=
  match f.debugSection .str with
  | .error (.missingSection id) => ([.missingSection id], .ok [])
  | result => ([], result)

/-- The sections that the dump of units needs, in the order in which they are
looked for, with the events of looking. -/
def infoSections (f : ElfFile) : List Event × Except Fault Sections :=
  match f.debugSection .abbrevs with
  | .error e => ([], .error e)
  | .ok abbrevs =>
    match f.debugSection .info with
    | .error e => ([], .error e)
    | .ok info =>
      match f.strSection with
      | (events, .error e) => (events, .error e)
      | (events, .ok str) =>
        match f.debugSectionOrEmpty .lineStr with
        | .error e => (events, .error e)
        | .ok lineStr => (events, .ok { order := f.order, abbrevs, info, str, lineStr })

end ElfFile

end Dwarf
