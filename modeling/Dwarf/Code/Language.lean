import Dwarf.Code.Space
/-!
# Source languages

The values of the language attribute of a compilation unit.
-/

namespace Dwarf

/-- Source languages. -/
def CodeSpace.language : CodeSpace where
  label := "DwLang"
  limit := 0x10000
  names := [
    (0x0001, "DW_LANG_C89"),
    (0x0002, "DW_LANG_C"),
    (0x0003, "DW_LANG_Ada83"),
    (0x0004, "DW_LANG_C_plus_plus"),
    (0x0005, "DW_LANG_Cobol74"),
    (0x0006, "DW_LANG_Cobol85"),
    (0x0007, "DW_LANG_Fortran77"),
    (0x0008, "DW_LANG_Fortran90"),
    (0x0009, "DW_LANG_Pascal83"),
    (0x000a, "DW_LANG_Modula2"),
    (0x000b, "DW_LANG_Java"),
    (0x000c, "DW_LANG_C99"),
    (0x000d, "DW_LANG_Ada95"),
    (0x000e, "DW_LANG_Fortran95"),
    (0x000f, "DW_LANG_PLI"),
    (0x0010, "DW_LANG_ObjC"),
    (0x0011, "DW_LANG_ObjC_plus_plus"),
    (0x0012, "DW_LANG_UPC"),
    (0x0013, "DW_LANG_D"),
    (0x0014, "DW_LANG_Python"),
    (0x0015, "DW_LANG_OpenCL"),
    (0x0016, "DW_LANG_Go"),
    (0x0017, "DW_LANG_Modula3"),
    (0x0018, "DW_LANG_Haskell"),
    (0x0019, "DW_LANG_C_plus_plus_03"),
    (0x001a, "DW_LANG_C_plus_plus_11"),
    (0x001b, "DW_LANG_OCaml"),
    (0x001c, "DW_LANG_Rust"),
    (0x001d, "DW_LANG_C11"),
    (0x001e, "DW_LANG_Swift"),
    (0x001f, "DW_LANG_Julia"),
    (0x0020, "DW_LANG_Dylan"),
    (0x0021, "DW_LANG_C_plus_plus_14"),
    (0x0022, "DW_LANG_Fortran03"),
    (0x0023, "DW_LANG_Fortran08"),
    (0x0024, "DW_LANG_RenderScript"),
    (0x0025, "DW_LANG_BLISS"),
    (0x8000, "DW_LANG_lo_user"),
    (0x8001, "DW_LANG_Mips_Assembler"),
    (0x8e57, "DW_LANG_GOOGLE_RenderScript"),
    (0x9001, "DW_LANG_SUN_Assembler"),
    (0x9101, "DW_LANG_ALTIUM_Assembler"),
    (0xb000, "DW_LANG_BORLAND_Delphi"),
    (0xffff, "DW_LANG_hi_user")]

end Dwarf
