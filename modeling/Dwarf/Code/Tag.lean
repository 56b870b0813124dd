import Dwarf.Code.Space
/-!
# Tags

A tag says what kind of thing an entry describes.
-/

namespace Dwarf

/-- Tags of entries. -/
def CodeSpace.tag : CodeSpace where
  label := "DwTag"
  limit := 0x10000
  names := [
    (0x0000, "DW_TAG_null"),
    (0x0001, "DW_TAG_array_type"),
    (0x0002, "DW_TAG_class_type"),
    (0x0003, "DW_TAG_entry_point"),
    (0x0004, "DW_TAG_enumeration_type"),
    (0x0005, "DW_TAG_formal_parameter"),
    (0x0008, "DW_TAG_imported_declaration"),
    (0x000a, "DW_TAG_label"),
    (0x000b, "DW_TAG_lexical_block"),
    (0x000d, "DW_TAG_member"),
    (0x000f, "DW_TAG_pointer_type"),
    (0x0010, "DW_TAG_reference_type"),
    (0x0011, "DW_TAG_compile_unit"),
    (0x0012, "DW_TAG_string_type"),
    (0x0013, "DW_TAG_structure_type"),
    (0x0015, "DW_TAG_subroutine_type"),
    (0x0016, "DW_TAG_typedef"),
    (0x0017, "DW_TAG_union_type"),
    (0x0018, "DW_TAG_unspecified_parameters"),
    (0x0019, "DW_TAG_variant"),
    (0x001a, "DW_TAG_common_block"),
    (0x001b, "DW_TAG_common_inclusion"),
    (0x001c, "DW_TAG_inheritance"),
    (0x001d, "DW_TAG_inlined_subroutine"),
    (0x001e, "DW_TAG_module"),
    (0x001f, "DW_TAG_ptr_to_member_type"),
    (0x0020, "DW_TAG_set_type"),
    (0x0021, "DW_TAG_subrange_type"),
    (0x0022, "DW_TAG_with_stmt"),
    (0x0023, "DW_TAG_access_declaration"),
    (0x0024, "DW_TAG_base_type"),
    (0x0025, "DW_TAG_catch_block"),
    (0x0026, "DW_TAG_const_type"),
    (0x0027, "DW_TAG_constant"),
    (0x0028, "DW_TAG_enumerator"),
    (0x0029, "DW_TAG_file_type"),
    (0x002a, "DW_TAG_friend"),
    (0x002b, "DW_TAG_namelist"),
    (0x002c, "DW_TAG_namelist_item"),
    (0x002d, "DW_TAG_packed_type"),
    (0x002e, "DW_TAG_subprogram"),
    (0x002f, "DW_TAG_template_type_parameter"),
    (0x0030, "DW_TAG_template_value_parameter"),
    (0x0031, "DW_TAG_thrown_type"),
    (0x0032, "DW_TAG_try_block"),
    (0x0033, "DW_TAG_variant_part"),
    (0x0034, "DW_TAG_variable"),
    (0x0035, "DW_TAG_volatile_type"),
    (0x0036, "DW_TAG_dwarf_procedure"),
    (0x0037, "DW_TAG_restrict_type"),
    (0x0038, "DW_TAG_interface_type"),
    (0x0039, "DW_TAG_namespace"),
    (0x003a, "DW_TAG_imported_module"),
    (0x003b, "DW_TAG_unspecified_type"),
    (0x003c, "DW_TAG_partial_unit"),
    (0x003d, "DW_TAG_imported_unit"),
    (0x003f, "DW_TAG_condition"),
    (0x0040, "DW_TAG_shared_type"),
    (0x0041, "DW_TAG_type_unit"),
    (0x0042, "DW_TAG_rvalue_reference_type"),
    (0x0043, "DW_TAG_template_alias"),
    (0x0044, "DW_TAG_coarray_type"),
    (0x0045, "DW_TAG_generic_subrange"),
    (0x0046, "DW_TAG_dynamic_type"),
    (0x0047, "DW_TAG_atomic_type"),
    (0x0048, "DW_TAG_call_site"),
    (0x0049, "DW_TAG_call_site_parameter"),
    (0x004a, "DW_TAG_skeleton_unit"),
    (0x004b, "DW_TAG_immutable_type"),
    (0x4080, "DW_TAG_lo_user"),
    (0x4101, "DW_TAG_format_label"),
    (0x4102, "DW_TAG_function_template"),
    (0x4103, "DW_TAG_class_template"),
    (0x4104, "DW_TAG_GNU_BINCL"),
    (0x4105, "DW_TAG_GNU_EINCL"),
    (0x4106, "DW_TAG_GNU_template_template_param"),
    (0x4107, "DW_TAG_GNU_template_parameter_pack"),
    (0x4108, "DW_TAG_GNU_formal_parameter_pack"),
    (0x4109, "DW_TAG_GNU_call_site"),
    (0x410a, "DW_TAG_GNU_call_site_parameter"),
    (0xffff, "DW_TAG_hi_user")]

end Dwarf
