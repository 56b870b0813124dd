import Dwarf.Code.Space
/-!
# Enumerated attribute values

Attributes whose value is one of a short list, each list in a space of its own.
-/

namespace Dwarf

/-- Encodings of base types. -/
def CodeSpace.encoding : CodeSpace where
  label := "DwAte"
  limit := 0x100
  names := [
    (0x01, "DW_ATE_address"),
    (0x02, "DW_ATE_boolean"),
    (0x03, "DW_ATE_complex_float"),
    (0x04, "DW_ATE_float"),
    (0x05, "DW_ATE_signed"),
    (0x06, "DW_ATE_signed_char"),
    (0x07, "DW_ATE_unsigned"),
    (0x08, "DW_ATE_unsigned_char"),
    (0x09, "DW_ATE_imaginary_float"),
    (0x0a, "DW_ATE_packed_decimal"),
    (0x0b, "DW_ATE_numeric_string"),
    (0x0c, "DW_ATE_edited"),
    (0x0d, "DW_ATE_signed_fixed"),
    (0x0e, "DW_ATE_unsigned_fixed"),
    (0x0f, "DW_ATE_decimal_float"),
    (0x10, "DW_ATE_UTF"),
    (0x11, "DW_ATE_UCS"),
    (0x12, "DW_ATE_ASCII"),
    (0x80, "DW_ATE_lo_user"),
    (0xff, "DW_ATE_hi_user")]

/-- Representations of the sign of a decimal number. -/
def CodeSpace.decimalSign : CodeSpace where
  label := "DwDs"
  limit := 0x100
  names := [
    (0x1, "DW_DS_unsigned"),
    (0x2, "DW_DS_leading_overpunch"),
    (0x3, "DW_DS_trailing_overpunch"),
    (0x4, "DW_DS_leading_separate"),
    (0x5, "DW_DS_trailing_separate")]

/-- Byte orders of a variable or type. -/
def CodeSpace.endianity : CodeSpace where
  label := "DwEnd"
  limit := 0x100
  names := [
    (0x00, "DW_END_default"),
    (0x01, "DW_END_big"),
    (0x02, "DW_END_little"),
    (0x40, "DW_END_lo_user"),
    (0xff, "DW_END_hi_user")]

/-- Accessibility of a member. -/
def CodeSpace.accessibility : CodeSpace where
  label := "DwAccess"
  limit := 0x100
  names := [
    (0x1, "DW_ACCESS_public"),
    (0x2, "DW_ACCESS_protected"),
    (0x3, "DW_ACCESS_private")]

/-- Visibility of a declaration outside its scope. -/
def CodeSpace.visibility : CodeSpace where
  label := "DwVis"
  limit := 0x100
  names := [
    (0x1, "DW_VIS_local"),
    (0x2, "DW_VIS_exported"),
    (0x3, "DW_VIS_qualified")]

/-- Virtuality of a member function or base class. -/
def CodeSpace.virtuality : CodeSpace where
  label := "DwVirtuality"
  limit := 0x100
  names := [
    (0x0, "DW_VIRTUALITY_none"),
    (0x1, "DW_VIRTUALITY_virtual"),
    (0x2, "DW_VIRTUALITY_pure_virtual")]

/-- Treatment of case in identifiers. -/
def CodeSpace.identifierCase : CodeSpace where
  label := "DwId"
  limit := 0x100
  names := [
    (0x0, "DW_ID_case_sensitive"),
    (0x1, "DW_ID_up_case"),
    (0x2, "DW_ID_down_case"),
    (0x3, "DW_ID_case_insensitive")]

/-- Calling conventions. -/
def CodeSpace.callingConvention : CodeSpace where
  label := "DwCc"
  limit := 0x100
  names := [
    (0x01, "DW_CC_normal"),
    (0x02, "DW_CC_program"),
    (0x03, "DW_CC_nocall"),
    (0x04, "DW_CC_pass_by_reference"),
    (0x05, "DW_CC_pass_by_value"),
    (0x40, "DW_CC_lo_user"),
    (0xff, "DW_CC_hi_user")]

/-- How a subroutine was declared and treated for inlining. -/
def CodeSpace.inlining : CodeSpace where
  label := "DwInl"
  limit := 0x100
  names := [
    (0x0, "DW_INL_not_inlined"),
    (0x1, "DW_INL_inlined"),
    (0x2, "DW_INL_declared_not_inlined"),
    (0x3, "DW_INL_declared_inlined")]

/-- Orders in which array elements are laid out. -/
def CodeSpace.ordering : CodeSpace where
  label := "DwOrd"
  limit := 0x100
  names := [
    (0x0, "DW_ORD_row_major"),
    (0x1, "DW_ORD_col_major")]

end Dwarf
