import Dwarf.Code.Space
/-!
# Form names

A form says how the value of an attribute is stored.
-/

namespace Dwarf

/-- Forms of attribute values. -/
def CodeSpace.formName : CodeSpace where
  label := "DwForm"
  limit := 0x10000
  names := [
    (0x0000, "DW_FORM_null"),
    (0x0001, "DW_FORM_addr"),
    (0x0003, "DW_FORM_block2"),
    (0x0004, "DW_FORM_block4"),
    (0x0005, "DW_FORM_data2"),
    (0x0006, "DW_FORM_data4"),
    (0x0007, "DW_FORM_data8"),
    (0x0008, "DW_FORM_string"),
    (0x0009, "DW_FORM_block"),
    (0x000a, "DW_FORM_block1"),
    (0x000b, "DW_FORM_data1"),
    (0x000c, "DW_FORM_flag"),
    (0x000d, "DW_FORM_sdata"),
    (0x000e, "DW_FORM_strp"),
    (0x000f, "DW_FORM_udata"),
    (0x0010, "DW_FORM_ref_addr"),
    (0x0011, "DW_FORM_ref1"),
    (0x0012, "DW_FORM_ref2"),
    (0x0013, "DW_FORM_ref4"),
    (0x0014, "DW_FORM_ref8"),
    (0x0015, "DW_FORM_ref_udata"),
    (0x0016, "DW_FORM_indirect"),
    (0x0017, "DW_FORM_sec_offset"),
    (0x0018, "DW_FORM_exprloc"),
    (0x0019, "DW_FORM_flag_present"),
    (0x001a, "DW_FORM_strx"),
    (0x001b, "DW_FORM_addrx"),
    (0x001c, "DW_FORM_ref_sup4"),
    (0x001d, "DW_FORM_strp_sup"),
    (0x001e, "DW_FORM_data16"),
    (0x001f, "DW_FORM_line_strp"),
    (0x0020, "DW_FORM_ref_sig8"),
    (0x0021, "DW_FORM_implicit_const"),
    (0x0022, "DW_FORM_loclistx"),
    (0x0023, "DW_FORM_rnglistx"),
    (0x0024, "DW_FORM_ref_sup8"),
    (0x0025, "DW_FORM_strx1"),
    (0x0026, "DW_FORM_strx2"),
    (0x0027, "DW_FORM_strx3"),
    (0x0028, "DW_FORM_strx4"),
    (0x0029, "DW_FORM_addrx1"),
    (0x002a, "DW_FORM_addrx2"),
    (0x002b, "DW_FORM_addrx3"),
    (0x002c, "DW_FORM_addrx4"),
    (0x1f01, "DW_FORM_GNU_addr_index"),
    (0x1f02, "DW_FORM_GNU_str_index"),
    (0x1f20, "DW_FORM_GNU_ref_alt"),
    (0x1f21, "DW_FORM_GNU_strp_alt")]

end Dwarf
