import Dwarf.Proofs.Dump.Row
/-!
# What a dump has written when it fails

What is written stays written, so the reader of a dump that failed has its beginning. How much
that is depends on what failed: tables and strings are all read before the first row, the header
of a unit is written before its entries are read, and a string is looked up in the middle of the
row that shows it.

Here the text of a dump is told from the contents of the sections, row by row.

> `ElfFile.dump_written`: the text and the fault of each of the three dumps of a file.
-/

namespace Dwarf

/-- The heading of the section, the rows of the items in their order, and a blank row. -/
def Catalogue {α : Type} (id : SectionId) (rows : α → String → Prop) (items : List α)
    (text : String) : Prop :=
  ∃ listed, InTurn rows items listed ∧ text = heading id ++ listed ++ "\n"

theorem Listed.catalogue {α : Type} {id : SectionId} {rows : α → String → Prop}
    {lines : α → List String} (hrows : ∀ x, rows x (linesText (lines x))) {items : List α}
    {text : String} (h : Listed id lines items text) : Catalogue id rows items text := by
  refine ⟨_, inTurn_linesText hrows items, ?_⟩
  rw [h, linesText_append, linesText_append, linesText_headingLines, linesText_singleton]
  rfl

namespace ElfFile

/-- **A dump that fails has written what comes before the fault, and no more.** The dumps of
abbreviation tables and of strings list all items of the section with their offsets, in order,
or they fail and write nothing.

The dump of units writes nothing if a section that it needs cannot be had. Otherwise it writes
the heading and all rows of each unit before the first that fails, and ends with the fault of this
one. If its header cannot be read, nothing of it is written; if its table or an entry cannot be
read, its header is; and if a string cannot be found, so are all entries before the one that
refers to it, and of this one all that stands before the string. -/
theorem dump_written (f : ElfFile) :
    Listing AbbrevTable.item (Catalogue .abbrevs AbbrevTable.Rows) (f.located .abbrevs)
      f.dumpAbbrevs.text f.dumpAbbrevs.fault ∧
    Listing stringItem (Catalogue .str StringRow) (f.located .str) f.dumpStr.text
      f.dumpStr.fault ∧
    (∀ cause : Fault, Sections.load f.order f.located = .error cause →
      f.dumpInfo.text = "" ∧ f.dumpInfo.fault = some cause) ∧
    (∀ s : Sections, Sections.load f.order f.located = .ok s →
      s.InfoDump (UnitHeader.Rows s) (UnitHeader.CutRows s) f.dumpInfo.text
        f.dumpInfo.fault) := by
  refine ⟨?_, ?_, fun cause => f.dumpInfo_of_error, ?_⟩
  · exact f.listing_dumpAbbrevs.mono fun _ _ => Listed.catalogue AbbrevTable.rows_itemLines
  · exact f.listing_dumpStr.mono fun _ _ => Listed.catalogue stringRow_stringLines
  · intro s hload
    obtain ⟨htext, hfault⟩ := f.dumpInfo_of_ok hload
    rw [htext, hfault]
    exact s.infoDump_dumpInfo.mono (fun _ _ => UnitHeader.Block.rows)
      (fun _ _ _ => UnitHeader.Cut.rows)

/-- Sections of two tables, two units and two strings. The first string has a byte that is no text,
and the second unit refers to a string that is not there. -/
def printed : Sections where
  order := .little
  abbrevs := [1, 0x11, 0, 3, 0x0e, 0, 0, 0, 2, 0x24, 1, 0x3e, 0x21, 0x7b, 0, 0, 0]
  info := [12, 0, 0, 0, 4, 0, 0, 0, 0, 0, 8, 1, 0, 0, 0, 0,
    12, 0, 0, 0, 4, 0, 0, 0, 0, 0, 8, 1, 9, 0, 0, 0]
  str := [0x61, 0xff, 0, 0x62, 0]

/-- A file with these sections. -/
def printedFile : ElfFile where
  bytes := 0 :: SectionId.abbrevs.nameBytes ++ 0 :: SectionId.info.nameBytes ++
    0 :: SectionId.str.nameBytes ++ 0 :: printed.abbrevs ++ printed.info ++ printed.str
  fileClass := .elf32
  order := .little
  sections := [⟨0, 0, 3, 0, 0, 38, 0, 0⟩, ⟨1, 1, 1, 0, 38, 17, 0, 0⟩, ⟨2, 15, 1, 0, 55, 32, 0, 0⟩,
    ⟨3, 27, 1, 0, 87, 5, 0, 0⟩]
  nameTable := ⟨0, 0, 3, 0, 0, 38, 0, 0⟩

/-- The dump of its tables. -/
def printedTables : String :=
  "The section .debug_abbrev contains:\n\n" ++
  "  Abbreviation table @ offset 0x0:\n" ++
  "[1] DW_TAG_compile_unit\t\t[no children]\n" ++
  "      DW_AT_name\tDW_FORM_strp\n" ++
  "  Abbreviation table @ offset 0x8:\n" ++
  "[2] DW_TAG_base_type\t\t[has children]\n" ++
  "      DW_AT_encoding\tDW_FORM_implicit_const: -5\n\n"

/-- The dump of its strings. -/
def printedStrings : String :=
  "The section .debug_str contains:\n\n" ++
  "  [     0]  a\uFFFD\n" ++
  "  [     3]  b\n\n"

/-- The dump of its units, as far as it goes. -/
def printedUnits : String :=
  "The section .debug_info contains:\n\n" ++
  "  Compilation Unit @ offset 0x0:\n" ++
  "   Length:        12\n" ++
  "   Version:       4\n" ++
  "   Abbrev Offset: 0\n" ++
  "   Pointer Size:  8\n" ++
  " <0><0xb>: Abbrev Number: 1 (DW_TAG_compile_unit)\n" ++
  "     DW_AT_name        : (indirect string, offset: 0x0): a\uFFFD\n" ++
  "  Compilation Unit @ offset 0x10:\n" ++
  "   Length:        12\n" ++
  "   Version:       4\n" ++
  "   Abbrev Offset: 0\n" ++
  "   Pointer Size:  8\n" ++
  " <0><0x1b>: Abbrev Number: 1 (DW_TAG_compile_unit)\n" ++
  "     DW_AT_name        : "

/-- Both listings are complete. Of the units, the first is there in full and the second up to the
string that is not there. A file without sections has no dump of units. -/
theorem dump_written_printed :
    (printedFile.dumpAbbrevs.text = printedTables ∧
      ∃ tables, Tiled AbbrevTable.item printed.abbrevs 0 tables printed.abbrevs.length ∧
        Catalogue .abbrevs AbbrevTable.Rows tables printedTables) ∧
    (printedFile.dumpStr.text = printedStrings ∧
      ∃ found, Tiled stringItem printed.str 0 found printed.str.length ∧
        Catalogue .str StringRow found printedStrings) ∧
    (printedFile.dumpInfo.text = printedUnits ∧
      printed.InfoDump (UnitHeader.Rows printed) (UnitHeader.CutRows printed) printedUnits
        (some .offsetBounds)) ∧
    (default : ElfFile).dumpInfo.text = "" := by
  obtain ⟨htables, hstrings, -, hunits⟩ := printedFile.dump_written
  obtain ⟨-, -, hempty, -⟩ := (default : ElfFile).dump_written
  have htablesText : printedFile.dumpAbbrevs.text = printedTables := by decide +kernel
  have hstringsText : printedFile.dumpStr.text = printedStrings := by decide +kernel
  have hunitsText : printedFile.dumpInfo.text = printedUnits := by decide +kernel
  have htablesFault : printedFile.dumpAbbrevs.fault = none := by decide +kernel
  have hstringsFault : printedFile.dumpStr.fault = none := by decide +kernel
  have hunitsFault : printedFile.dumpInfo.fault = some .offsetBounds := by decide +kernel
  have habbrevs : printedFile.located .abbrevs = .ok printed.abbrevs := by rfl
  have hstr : printedFile.located .str = .ok printed.str := by rfl
  have hload : Sections.load printedFile.order printedFile.located = .ok printed := by rfl
  refine ⟨⟨htablesText, ?_⟩, ⟨hstringsText, ?_⟩, ⟨hunitsText, ?_⟩, ?_⟩
  · rw [habbrevs, htablesText, htablesFault] at htables
    obtain ⟨bytes, tables, hbytes, htiled, hrows⟩ := htables.exists_of_done
    cases hbytes
    exact ⟨tables, htiled, hrows⟩
  · rw [hstr, hstringsText, hstringsFault] at hstrings
    obtain ⟨bytes, found, hbytes, htiled, hrows⟩ := hstrings.exists_of_done
    cases hbytes
    exact ⟨found, htiled, hrows⟩
  · have hdump := hunits printed hload
    rw [hunitsText, hunitsFault] at hdump
    exact hdump
  · exact (hempty (.missingSection .abbrevs) rfl).1

end ElfFile

end Dwarf
