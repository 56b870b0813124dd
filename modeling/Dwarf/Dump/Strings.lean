import Dwarf.Dump.Sections
import Dwarf.StringTable
import Dwarf.Text.Utf8
/-!
# The dump of strings

All strings are read before the first line is written. Bytes that are no text are
shown by the replacement character, and bytes that are text are shown as they
are, line breaks included.
-/

namespace Dwarf

/-- The line for the string at an offset. -/
def stringDumpLine (offset : Nat) (text : Bytes) : String :=
  "  [" ++ padLeft 6 (hexDigits offset) ++ "]  " ++ lossyText text

/-- The dump of a string section. -/
def dumpStrings (contents : Bytes) : Output :=
  match (strings contents).complete with
  | .error e => Output.fail e
  | .ok found =>
    Output.lines (headingLines .str ++ (found.map fun (offset, text) => stringDumpLine offset text)
      ++ [""])

/-- The dump of a file's strings. -/
def ElfFile.dumpStr (f : ElfFile) : Output :=
  let (events, contents) := f.strSection
  Output.log events
    ++ match contents with
      | .error e => Output.fail e
      | .ok contents => dumpStrings contents

end Dwarf
