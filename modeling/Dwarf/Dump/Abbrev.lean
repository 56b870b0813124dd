import Dwarf.Code.AttributeName
import Dwarf.Code.FormName
import Dwarf.Dump.Sections
/-!
# The dump of abbreviation tables

All tables are read before the first line is written, so a section with a faulty
table gives no text.
-/

namespace Dwarf

namespace AttrSpec

/-- The line for an attribute of a declaration. -/
def dumpLine (spec : AttrSpec) : String :=
  "      " ++ CodeSpace.attributeName.render spec.name ++ "\t" ++ CodeSpace.formName.render spec.form
    ++ match spec.implicitConst? with
      | some const => ": " ++ signedDecimal const
      | none => ""

end AttrSpec

namespace Declaration

/-- The lines for a declaration. -/
def dumpLines (d : Declaration) : List String :=
  ("[" ++ decimal d.code ++ "] " ++ CodeSpace.tag.render d.tag ++ "\t\t["
      ++ (if d.hasChildren then "has" else "no") ++ " children]")
    :: d.attributes.map AttrSpec.dumpLine

end Declaration

namespace AbbrevTable

/-- The lines for the table at an offset. -/
def dumpLines (offset : Nat) (t : AbbrevTable) : List String :=
  ("  Abbreviation table @ offset " ++ hexadecimal offset ++ ":")
    :: t.toList.flatMap Declaration.dumpLines

/-- The dump of a section of tables. -/
def dump (contents : Bytes) : Output :=
  Output.log (Event.ofTables contents)
    ++ match (tables contents).complete with
      | .error e => Output.fail e
      | .ok ts =>
        Output.lines (headingLines .abbrevs ++ (ts.flatMap fun (offset, t) => dumpLines offset t)
          ++ [""])

end AbbrevTable

/-- The dump of a file's abbreviation tables. -/
def ElfFile.dumpAbbrevs (f : ElfFile) : Output :=
  match f.debugSection .abbrevs with
  | .error e => Output.fail e
  | .ok contents => AbbrevTable.dump contents

end Dwarf
