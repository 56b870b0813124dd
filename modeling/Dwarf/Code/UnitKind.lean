import Dwarf.Code.Space
/-!
# Unit types

From version 5 on the header of a unit says of what type it is.
-/

namespace Dwarf

/-- Types of units. -/
def CodeSpace.unitType : CodeSpace where
  label := "DwUt"
  limit := 0x100
  names := [
    (0x01, "DW_UT_compile"),
    (0x02, "DW_UT_type"),
    (0x03, "DW_UT_partial"),
    (0x04, "DW_UT_skeleton"),
    (0x05, "DW_UT_split_compile"),
    (0x06, "DW_UT_split_type"),
    (0x80, "DW_UT_lo_user"),
    (0xff, "DW_UT_hi_user")]

/-- The flag of an abbreviation that says whether its entries have children. -/
def CodeSpace.childrenFlag : CodeSpace where
  label := "DwChildren"
  limit := 0x100
  names := [
    (0x0, "DW_CHILDREN_no"),
    (0x1, "DW_CHILDREN_yes")]

end Dwarf
