import Dwarf.Code.Constant
import Dwarf.Dump.Sections
import Dwarf.StringTable
import Dwarf.Text.Utf8
/-!
# The dump of units

Units are dumped one after another. The header of a unit is written as soon as it
has been read, its entries only when all of them have been. A value that refers
to a string is looked up while its line is being written, so a string that is not
there ends the dump after the name of its attribute.
-/

namespace Dwarf

/-- An unsigned constant as the value of the attribute called `name`: its symbolic
name if the attribute is an enumeration, or else the number. -/
def constantText (name value : Nat) : String := (constantName? name value).getD (decimal value)

namespace Value

/-- The text of a value of the attribute called `name`. -/
def dumpText (s : Sections) (name : Nat) (v : Value) : Except Fault String :=
  match v with
  | addr address => .ok (hexadecimal address)
  | block bytes | exprloc bytes => .ok (decimal bytes.length ++ " byte block")
  | data _ value | udata value => .ok (constantText name value)
  | sdata value => .ok (signedDecimal value)
  | flag set => .ok (if set then "1" else "0")
  | secOffset offset => .ok (hexadecimal offset)
  | unitRef offset | infoRef offset => .ok ("<" ++ hexadecimal offset ++ ">")
  | supInfoRef offset => .ok ("<alt " ++ hexadecimal offset ++ ">")
  | typeRef signature => .ok ("signature: " ++ wideHexadecimal signature)
  | strRef offset => do
    let text ← s.stringOf v
    return "(indirect string, offset: " ++ hexadecimal offset ++ "): " ++ lossyText text
  | supStrRef offset => .ok ("(alt indirect string, offset: " ++ hexadecimal offset ++ ")")
  | lineStrRef offset => do
    let text ← s.stringOf v
    return "(indirect line string, offset: " ++ hexadecimal offset ++ "): " ++ lossyText text
  | strIndex index => .ok ("(indexed string: " ++ hexadecimal index ++ ")")
  | addrIndex index => .ok ("(index: " ++ hexadecimal index ++ ")")
  | locListIndex index => .ok ("(location list index: " ++ hexadecimal index ++ ")")
  | rngListIndex index => .ok ("(range list index: " ++ hexadecimal index ++ ")")
  | string bytes => .ok ("\"" ++ lossyText bytes ++ "\"")

end Value

namespace Attribute

/-- What is written of an attribute before its value. -/
def dumpLabel (a : Attribute) : String :=
  "     " ++ padRight 18 (CodeSpace.attributeName.render a.name) ++ ": "

/-- The line for an attribute, which stops after the label if the value cannot be
had. -/
def dump (s : Sections) (a : Attribute) : Output :=
  Output.write a.dumpLabel
    ++ match a.value.dumpText s a.name with
      | .error e => Output.fail e
      | .ok text => Output.lines [text]

end Attribute

namespace Entry

/-- The line that opens an entry. -/
def dumpLine (e : Entry) : String :=
  " <" ++ decimal e.depth ++ "><" ++ hexadecimal e.offset ++ ">: Abbrev Number: " ++ decimal e.code
    ++ " (" ++ CodeSpace.tag.render e.tag ++ ")"

/-- The lines for an entry and its attributes. -/
def dump (s : Sections) (e : Entry) : Output :=
  Output.lines [e.dumpLine] ++ Output.concat (e.attributes.map (Attribute.dump s))

end Entry

namespace UnitHeader

/-- The lines for what the header has because of the type of the unit. -/
def dumpKindLines : UnitKind → List String
  | .typeUnit signature offset | .splitType signature offset =>
    ["   Signature:     " ++ wideHexadecimal signature,
      "   Type Offset:   " ++ hexadecimal offset]
  | .skeleton id | .splitCompilation id => ["   DWO Id:        " ++ wideHexadecimal id]
  | .compilation | .partialUnit => []

/-- The lines for a header. Units have a type from version 5 on. -/
def dumpLines (h : UnitHeader) : List String :=
  ["  Compilation Unit @ offset " ++ hexadecimal h.offset ++ ":",
    "   Length:        " ++ decimal h.length,
    "   Version:       " ++ decimal h.fields.version,
    "   Abbrev Offset: " ++ decimal h.fields.abbrevOffset,
    "   Pointer Size:  " ++ decimal h.fields.addressSize]
  ++ if 5 ≤ h.fields.version then
      ("   Unit Type:     " ++ CodeSpace.unitType.render h.fields.kind.code)
        :: dumpKindLines h.fields.kind
    else []

/-- The dump of a unit. -/
def dump (s : Sections) (h : UnitHeader) : Output :=
  Output.log (Event.ofUnit s.abbrevs h) ++ Output.lines h.dumpLines
    ++ match UnitTree.decode s.abbrevs h with
      | .error e => Output.fail e
      | .ok u => Output.concat (u.entries.toList.map (Entry.dump s))

end UnitHeader

/-- The dump of all units. -/
def Sections.dumpInfo (s : Sections) : Output :=
  let headers := UnitHeader.all s.order s.info
  Output.lines (headingLines .info) ++ Output.concat (headers.items.map (UnitHeader.dump s))
    ++ match headers.fault with
      | some e => Output.fail e
      | none => Output.empty

/-- The dump of a file's units. -/
def ElfFile.dumpInfo (f : ElfFile) : Output :=
  let (events, sections) := f.infoSections
  Output.log events
    ++ match sections with
      | .error e => Output.fail e
      | .ok s => s.dumpInfo

end Dwarf
