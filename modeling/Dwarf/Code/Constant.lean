import Dwarf.Code.AttributeName
import Dwarf.Code.Enumeration
import Dwarf.Code.FormName
import Dwarf.Code.Language
import Dwarf.Code.Tag
import Dwarf.Code.UnitKind
/-!
# Symbolic values of attributes

For some attributes the value is a code. `valueSpace?` says which attributes
those are and from which space they take it; `constantName?` names a value with
it. A value that is too large for its space has no name, not even as an unknown
code.
-/

namespace Dwarf

/-- The space from which the attribute called `name` takes its values. -/
def valueSpace? (name : Nat) : Option CodeSpace :=
  match name with
  | 0x13 => some .language
  | 0x3e => some .encoding
  | 0x20 => some .inlining
  | 0x32 => some .accessibility
  | 0x17 => some .visibility
  | 0x4c => some .virtuality
  | 0x42 => some .identifierCase
  | 0x36 => some .callingConvention
  | 0x5e => some .decimalSign
  | 0x65 => some .endianity
  | 0x09 => some .ordering
  | _ => none

/-- The symbolic name of `value` as a value of the attribute called `name`. -/
def constantName? (name value : Nat) : Option String := do
  let space ← valueSpace? name
  space.render? value

/-- Every code space. -/
def CodeSpace.all : List CodeSpace :=
  [.unitType, .childrenFlag, .tag, .attributeName, .formName, .encoding, .decimalSign, .endianity,
    .accessibility, .visibility, .virtuality, .language, .identifierCase, .callingConvention,
    .inlining, .ordering]

end Dwarf
