import Dwarf.Bytes.Sequence
import Dwarf.Attribute.Value
import Dwarf.Section
/-!
# Strings by offset

A string section is a sequence of strings, each ended by a zero byte. Entries
refer to a string by the offset of its first byte, and may point into the middle
of one to share its end.

> `stringAt`: a string runs from its offset to the next zero byte. An offset must
> lie before the end of the section, and a string must end inside it.
-/

namespace Dwarf

/-- The string at `offset` in a string section, without its zero byte. -/
def stringAt (contents : Bytes) (offset : Nat) : Except Fault Bytes :=
  if contents.length ≤ offset then .error .offsetBounds
  else Decoder.terminated.value (contents.drop offset)

/-- A string as an item of its section, with its offset. -/
def stringItem : Item (Nat × Bytes) where
  decode offset := do
    let text ← Decoder.terminated
    return (offset, text)
  consuming _ := Decoder.consuming_terminated.bind fun _ => .pure _

/-- The strings of a section with their offsets, from its start on. -/
def strings (contents : Bytes) : Progress (Nat × Bytes) :=
  (Cursor.atStart contents).run stringItem

/-- The string that an attribute value holds or refers to. -/
def Sections.stringOf (s : Sections) : Value → Except Fault Bytes
  | .string bytes => .ok bytes
  | .strRef offset => stringAt s.str offset
  | .lineStrRef offset => stringAt s.lineStr offset
  | _ => .error .notAString

end Dwarf
