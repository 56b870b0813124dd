import Dwarf.Code.Space
/-!
# Attribute names

An attribute name says which property of an entry a value gives.
-/

namespace Dwarf

/-- Names of attributes. -/
def CodeSpace.attributeName : CodeSpace where
  label := "DwAt"
  limit := 0x10000
  names := [
    (0x0000, "DW_AT_null"),
    (0x0001, "DW_AT_sibling"),
    (0x0002, "DW_AT_location"),
    (0x0003, "DW_AT_name"),
    (0x0009, "DW_AT_ordering"),
    (0x000b, "DW_AT_byte_size"),
    (0x000c, "DW_AT_bit_offset"),
    (0x000d, "DW_AT_bit_size"),
    (0x0010, "DW_AT_stmt_list"),
    (0x0011, "DW_AT_low_pc"),
    (0x0012, "DW_AT_high_pc"),
    (0x0013, "DW_AT_language"),
    (0x0015, "DW_AT_discr"),
    (0x0016, "DW_AT_discr_value"),
    (0x0017, "DW_AT_visibility"),
    (0x0018, "DW_AT_import"),
    (0x0019, "DW_AT_string_length"),
    (0x001a, "DW_AT_common_reference"),
    (0x001b, "DW_AT_comp_dir"),
    (0x001c, "DW_AT_const_value"),
    (0x001d, "DW_AT_containing_type"),
    (0x001e, "DW_AT_default_value"),
    (0x0020, "DW_AT_inline"),
    (0x0021, "DW_AT_is_optional"),
    (0x0022, "DW_AT_lower_bound"),
    (0x0025, "DW_AT_producer"),
    (0x0027, "DW_AT_prototyped"),
    (0x002a, "DW_AT_return_addr"),
    (0x002c, "DW_AT_start_scope"),
    (0x002e, "DW_AT_bit_stride"),
    (0x002f, "DW_AT_upper_bound"),
    (0x0031, "DW_AT_abstract_origin"),
    (0x0032, "DW_AT_accessibility"),
    (0x0033, "DW_AT_address_class"),
    (0x0034, "DW_AT_artificial"),
    (0x0035, "DW_AT_base_types"),
    (0x0036, "DW_AT_calling_convention"),
    (0x0037, "DW_AT_count"),
    (0x0038, "DW_AT_data_member_location"),
    (0x0039, "DW_AT_decl_column"),
    (0x003a, "DW_AT_decl_file"),
    (0x003b, "DW_AT_decl_line"),
    (0x003c, "DW_AT_declaration"),
    (0x003d, "DW_AT_discr_list"),
    (0x003e, "DW_AT_encoding"),
    (0x003f, "DW_AT_external"),
    (0x0040, "DW_AT_frame_base"),
    (0x0041, "DW_AT_friend"),
    (0x0042, "DW_AT_identifier_case"),
    (0x0043, "DW_AT_macro_info"),
    (0x0044, "DW_AT_namelist_item"),
    (0x0045, "DW_AT_priority"),
    (0x0046, "DW_AT_segment"),
    (0x0047, "DW_AT_specification"),
    (0x0048, "DW_AT_static_link"),
    (0x0049, "DW_AT_type"),
    (0x004a, "DW_AT_use_location"),
    (0x004b, "DW_AT_variable_parameter"),
    (0x004c, "DW_AT_virtuality"),
    (0x004d, "DW_AT_vtable_elem_location"),
    (0x004e, "DW_AT_allocated"),
    (0x004f, "DW_AT_associated"),
    (0x0050, "DW_AT_data_location"),
    (0x0051, "DW_AT_byte_stride"),
    (0x0052, "DW_AT_entry_pc"),
    (0x0053, "DW_AT_use_UTF8"),
    (0x0054, "DW_AT_extension"),
    (0x0055, "DW_AT_ranges"),
    (0x0056, "DW_AT_trampoline"),
    (0x0057, "DW_AT_call_column"),
    (0x0058, "DW_AT_call_file"),
    (0x0059, "DW_AT_call_line"),
    (0x005a, "DW_AT_description"),
    (0x005b, "DW_AT_binary_scale"),
    (0x005c, "DW_AT_decimal_scale"),
    (0x005d, "DW_AT_small"),
    (0x005e, "DW_AT_decimal_sign"),
    (0x005f, "DW_AT_digit_count"),
    (0x0060, "DW_AT_picture_string"),
    (0x0061, "DW_AT_mutable"),
    (0x0062, "DW_AT_threads_scaled"),
    (0x0063, "DW_AT_explicit"),
    (0x0064, "DW_AT_object_pointer"),
    (0x0065, "DW_AT_endianity"),
    (0x0066, "DW_AT_elemental"),
    (0x0067, "DW_AT_pure"),
    (0x0068, "DW_AT_recursive"),
    (0x0069, "DW_AT_signature"),
    (0x006a, "DW_AT_main_subprogram"),
    (0x006b, "DW_AT_data_bit_offset"),
    (0x006c, "DW_AT_const_expr"),
    (0x006d, "DW_AT_enum_class"),
    (0x006e, "DW_AT_linkage_name"),
    (0x006f, "DW_AT_string_length_bit_size"),
    (0x0070, "DW_AT_string_length_byte_size"),
    (0x0071, "DW_AT_rank"),
    (0x0072, "DW_AT_str_offsets_base"),
    (0x0073, "DW_AT_addr_base"),
    (0x0074, "DW_AT_rnglists_base"),
    (0x0076, "DW_AT_dwo_name"),
    (0x0077, "DW_AT_reference"),
    (0x0078, "DW_AT_rvalue_reference"),
    (0x0079, "DW_AT_macros"),
    (0x007a, "DW_AT_call_all_calls"),
    (0x007b, "DW_AT_call_all_source_calls"),
    (0x007c, "DW_AT_call_all_tail_calls"),
    (0x007d, "DW_AT_call_return_pc"),
    (0x007e, "DW_AT_call_value"),
    (0x007f, "DW_AT_call_origin"),
    (0x0080, "DW_AT_call_parameter"),
    (0x0081, "DW_AT_call_pc"),
    (0x0082, "DW_AT_call_tail_call"),
    (0x0083, "DW_AT_call_target"),
    (0x0084, "DW_AT_call_target_clobbered"),
    (0x0085, "DW_AT_call_data_location"),
    (0x0086, "DW_AT_call_data_value"),
    (0x0087, "DW_AT_noreturn"),
    (0x0088, "DW_AT_alignment"),
    (0x0089, "DW_AT_export_symbols"),
    (0x008a, "DW_AT_deleted"),
    (0x008b, "DW_AT_defaulted"),
    (0x008c, "DW_AT_loclists_base"),
    (0x2000, "DW_AT_lo_user"),
    (0x2007, "DW_AT_MIPS_linkage_name"),
    (0x2101, "DW_AT_sf_names"),
    (0x2102, "DW_AT_src_info"),
    (0x2103, "DW_AT_mac_info"),
    (0x2104, "DW_AT_src_coords"),
    (0x2105, "DW_AT_body_begin"),
    (0x2106, "DW_AT_body_end"),
    (0x2107, "DW_AT_GNU_vector"),
    (0x2108, "DW_AT_GNU_guarded_by"),
    (0x2109, "DW_AT_GNU_pt_guarded_by"),
    (0x210a, "DW_AT_GNU_guarded"),
    (0x210b, "DW_AT_GNU_pt_guarded"),
    (0x210c, "DW_AT_GNU_locks_excluded"),
    (0x210d, "DW_AT_GNU_exclusive_locks_required"),
    (0x210e, "DW_AT_GNU_shared_locks_required"),
    (0x210f, "DW_AT_GNU_odr_signature"),
    (0x2110, "DW_AT_GNU_template_name"),
    (0x2111, "DW_AT_GNU_call_site_value"),
    (0x2112, "DW_AT_GNU_call_site_data_value"),
    (0x2113, "DW_AT_GNU_call_site_target"),
    (0x2114, "DW_AT_GNU_call_site_target_clobbered"),
    (0x2115, "DW_AT_GNU_tail_call"),
    (0x2116, "DW_AT_GNU_all_tail_call_sites"),
    (0x2117, "DW_AT_GNU_all_call_sites"),
    (0x2118, "DW_AT_GNU_all_source_call_sites"),
    (0x2119, "DW_AT_GNU_macros"),
    (0x211a, "DW_AT_GNU_deleted"),
    (0x2130, "DW_AT_GNU_dwo_name"),
    (0x2131, "DW_AT_GNU_dwo_id"),
    (0x2132, "DW_AT_GNU_ranges_base"),
    (0x2133, "DW_AT_GNU_addr_base"),
    (0x2134, "DW_AT_GNU_pubnames"),
    (0x2135, "DW_AT_GNU_pubtypes"),
    (0x2136, "DW_AT_GNU_discriminator"),
    (0x2137, "DW_AT_GNU_locviews"),
    (0x2138, "DW_AT_GNU_entry_view"),
    (0x3fff, "DW_AT_hi_user")]

end Dwarf
