import Dwarf.Proofs.Dump.Constant
import Dwarf.Proofs.Dump.Parts
import Dwarf.Proofs.Elf.Lookup
/-!
# The lines of a dump

A dump is meant to be read line by line: one line for each entry, for each attribute and for each
string. Whoever searches it with tools that work on lines relies on that, and so does the next dump
that is written behind it. How far they can is counted here, out of the contents of the sections.

What a dump writes by itself is free of line breaks. Strings are the only part of the text that
comes out of the file, and they are shown as they are. So an attribute or a listed string takes one
line, and another one for each byte `0x0a` of its string.

> `Attribute.lineCount`, `Entry.lineCount`, `UnitHeader.lineCount`: the lines of each part.
>
> `ElfFile.dump_lines`: the dumps of a file are whole lines, this many, up to the first fault.
>
> `ElfFile.listed_on_two_lines`: a file with one string that is listed on two lines.
-/

namespace Dwarf

/-! ### What a dump writes by itself -/

theorem wholeLines_linesText {ls : List String} (h : ∀ line ∈ ls, lineBreaks line = 0) :
    WholeLines ls.length (linesText ls) := by
  induction ls with
  | nil => exact .nil
  | cons line ls ih =>
    have hlater := ih fun later hmem => h later (List.mem_cons_of_mem line hmem)
    rw [linesText_cons]
    exact .cons (h line List.mem_cons_self) hlater

theorem lineBreaks_headingLines (id : SectionId) :
    ∀ line ∈ headingLines id, lineBreaks line = 0 := by
  cases id <;> decide +kernel

theorem valueSpace?_mem_all {name : Nat} {space : CodeSpace} (h : valueSpace? name = some space) :
    space ∈ CodeSpace.all := by
  unfold valueSpace? at h
  split at h <;> cases h <;> simp [CodeSpace.all]

theorem lineBreaks_constantText (name value : Nat) : lineBreaks (constantText name value) = 0 := by
  have hshown := shown_constantText name value
  generalize constantText name value = text at hshown ⊢
  cases hshown with
  | symbol hspace => exact CodeSpace.lineBreaks_render (valueSpace?_mem_all hspace) value
  | number => exact lineBreaks_decimal value

theorem UnitHeader.lineBreaks_dumpKindLines (kind : UnitKind) :
    ∀ line ∈ dumpKindLines kind, lineBreaks line = 0 := by
  have hsignature : lineBreaks "   Signature:     " = 0 := by decide
  have hoffset : lineBreaks "   Type Offset:   " = 0 := by decide
  have hid : lineBreaks "   DWO Id:        " = 0 := by decide
  cases kind <;> simp [dumpKindLines, hsignature, hoffset, hid]

theorem UnitHeader.lineBreaks_dumpLines (h : UnitHeader) :
    ∀ line ∈ h.dumpLines, lineBreaks line = 0 := by
  intro line hline
  rw [dumpLines, List.mem_append] at hline
  rcases hline with hcommon | htyped
  · simp only [List.mem_cons, List.not_mem_nil, or_false] at hcommon
    rcases hcommon with rfl | rfl | rfl | rfl | rfl
    all_goals
      simp only [lineBreaks_append, lineBreaks_decimal, lineBreaks_hexadecimal]
      decide
  · split at htyped
    · rcases List.mem_cons.mp htyped with rfl | hkind
      · rw [lineBreaks_append, CodeSpace.lineBreaks_render (by simp [CodeSpace.all])]
        decide
      · exact lineBreaks_dumpKindLines h.fields.kind line hkind
    · cases htyped

theorem Entry.lineBreaks_dumpLine (e : Entry) : lineBreaks e.dumpLine = 0 := by
  have htag : lineBreaks (CodeSpace.tag.render e.tag) = 0 :=
    CodeSpace.lineBreaks_render (by simp [CodeSpace.all]) e.tag
  simp only [dumpLine, lineBreaks_append, lineBreaks_decimal, lineBreaks_hexadecimal, htag]
  decide

theorem Entry.wholeLines_dumpLine (e : Entry) : WholeLines 1 (linesText [e.dumpLine]) :=
  wholeLines_linesText fun _ hline => List.mem_singleton.mp hline ▸ e.lineBreaks_dumpLine

theorem Attribute.lineBreaks_dumpLabel (a : Attribute) : lineBreaks a.dumpLabel = 0 := by
  have hname : lineBreaks (CodeSpace.attributeName.render a.name) = 0 :=
    CodeSpace.lineBreaks_render (by simp [CodeSpace.all]) a.name
  simp only [dumpLabel, lineBreaks_append, lineBreaks_padRight, hname]
  decide

/-! ### The lines of each part -/

section Counts

variable (s : Sections)

/-- What is counted for each of the elements, taken together. -/
def total {α : Type} (count : α → Nat) (xs : List α) : Nat :=
  xs.foldr (fun x later => count x + later) 0

/-- The line breaks in the string that a value holds or refers to, if it does. -/
def Sections.breaksIn (v : Value) : Nat :=
  match s.stringOf v with
  | .ok bytes => bytes.count 0x0a
  | .error _ => 0

/-- An attribute takes one line, and one more for each line break in its string. -/
def Attribute.lineCount (a : Attribute) : Nat := s.breaksIn a.value + 1

/-- An entry takes one line, besides those of its attributes. -/
def Entry.lineCount (e : Entry) : Nat := total (Attribute.lineCount s) e.attributes + 1

/-- A unit takes the lines of its header and those of its entries. -/
def UnitHeader.lineCount (h : UnitHeader) : Nat :=
  h.dumpLines.length + match UnitTree.decode s.abbrevs h with
    | .ok u => total (Entry.lineCount s) u.entries.toList
    | .error _ => 0

variable {s}

theorem Value.lineBreaks_dumpText {v : Value} {name : Nat} {text : String}
    (h : v.dumpText s name = .ok text) : lineBreaks text = s.breaksIn v := by
  -- Strings first: all the others are numbers, names and fixed words.
  cases v with
  | string bytes =>
    cases h
    show lineBreaks ("\"" ++ lossyText bytes ++ "\"") = bytes.count 0x0a
    have hquote : lineBreaks "\"" = 0 := by decide
    rw [lineBreaks_append, lineBreaks_append, hquote, lineBreaks_lossyText, Nat.zero_add]
    rfl
  | strRef offset | lineStrRef offset =>
    obtain ⟨bytes, hlookup, hdone⟩ := Fallible.bind_eq_ok.mp h
    cases hdone
    rw [Sections.breaksIn, hlookup]
    simp only [lineBreaks_append, lineBreaks_hexadecimal, lineBreaks_lossyText]
    exact Nat.zero_add _
  | data _ value | udata value =>
    cases h
    exact lineBreaks_constantText name value
  | sdata value =>
    cases h
    exact lineBreaks_signedDecimal value
  | addr value | secOffset value =>
    cases h
    exact lineBreaks_hexadecimal value
  | flag set =>
    cases h
    show lineBreaks (if set then "1" else "0") = 0
    cases set <;> decide
  | _ =>
    cases h
    simp only [lineBreaks_append, lineBreaks_decimal, lineBreaks_hexadecimal,
      lineBreaks_wideHexadecimal]
    show _ = 0
    decide

theorem InTurn.wholeLines {α : Type} {whole : α → String → Prop} (count : α → Nat)
    (hcount : ∀ x text, whole x text → WholeLines (count x) text) {xs : List α} {text : String}
    (h : InTurn whole xs text) : WholeLines (total count xs) text := by
  induction h with
  | nil => exact .nil
  | cons hfirst hlater ih => exact (hcount _ _ hfirst).append ih

theorem Attribute.Line.wholeLines {a : Attribute} {text : String} (h : a.Line s text) :
    WholeLines (a.lineCount s) text := by
  obtain ⟨value, hvalue, rfl⟩ := h
  rw [linesText_singleton, lineCount, ← Value.lineBreaks_dumpText hvalue]
  exact (wholeLines_line value).push a.lineBreaks_dumpLabel

theorem Entry.Block.wholeLines {e : Entry} {text : String} (h : e.Block s text) :
    WholeLines (e.lineCount s) text := by
  obtain ⟨lines, hlines, rfl⟩ := h
  rw [lineCount, Nat.add_comm]
  exact e.wholeLines_dumpLine.append
    (hlines.wholeLines (Attribute.lineCount s) fun _ _ => Attribute.Line.wholeLines)

theorem UnitHeader.Block.wholeLines {h : UnitHeader} {text : String} (hblock : h.Block s text) :
    WholeLines (h.lineCount s) text := by
  obtain ⟨u, blocks, hdecode, hblocks, rfl⟩ := hblock
  rw [lineCount, hdecode]
  exact (wholeLines_linesText h.lineBreaks_dumpLines).append
    (hblocks.wholeLines (Entry.lineCount s) fun _ _ => Entry.Block.wholeLines)

end Counts

/-! ### The units of a section -/

/-- The lines of the heading and of some units. -/
def Sections.lineCount (s : Sections) (hs : List UnitHeader) : Nat :=
  2 + total (UnitHeader.lineCount s) hs

/-- The text of a dump of units and its fault: what it is put together from, and how many lines
that is. -/
inductive Sections.InfoLines (s : Sections) : String → Option Fault → Prop where
  /-- The units fill the section, and all are written. -/
  | whole {hs : List UnitHeader} {units text : String}
    (htiled : Tiled (UnitHeader.item s.order) s.info 0 hs s.info.length)
    (hunits : InTurn (UnitHeader.Block s) hs units)
    (htext : text = linesText (headingLines .info) ++ units)
    (hlines : WholeLines (s.lineCount hs) text) : InfoLines s text none
  /-- Behind some units there is one whose header cannot be read. -/
  | header {hs : List UnitHeader} {start : Nat} {units text : String} {cause : Fault}
    {rest : Bytes} (htiled : Tiled (UnitHeader.item s.order) s.info 0 hs start)
    (hheader : (UnitHeader.decode s.order start).run (s.info.drop start) = .fault cause rest)
    (hunits : InTurn (UnitHeader.Block s) hs units)
    (htext : text = linesText (headingLines .info) ++ units)
    (hlines : WholeLines (s.lineCount hs) text) : InfoLines s text (some cause)
  /-- The header can be read, and the table or an entry cannot. -/
  | contents {hs : List UnitHeader} {h : UnitHeader} {start : Nat} {units text : String}
    {cause : Fault} {rest : Bytes} (htiled : Tiled (UnitHeader.item s.order) s.info 0 hs start)
    (hheader : (UnitHeader.decode s.order start).run (s.info.drop start) = .ok h rest)
    (hdecode : UnitTree.decode s.abbrevs h = .error cause)
    (hunits : InTurn (UnitHeader.Block s) hs units)
    (htext : text = linesText (headingLines .info) ++ units ++ linesText h.dumpLines)
    (hlines : WholeLines (s.lineCount hs + h.dumpLines.length) text) :
    InfoLines s text (some cause)
  /-- The whole unit can be read, and an attribute refers to a string that cannot be had. There
  are whole lines up to this attribute, and no other line behind them. -/
  | string {hs : List UnitHeader} {h : UnitHeader} {u : UnitTree} {before after : List Entry}
    {e : Entry} {shown hidden : List Attribute} {a : Attribute} {start : Nat}
    {units blocks lines text part : String} {cause : Fault} {rest : Bytes}
    (htiled : Tiled (UnitHeader.item s.order) s.info 0 hs start)
    (hheader : (UnitHeader.decode s.order start).run (s.info.drop start) = .ok h rest)
    (hdecode : UnitTree.decode s.abbrevs h = .ok u)
    (hentries : u.entries.toList = before ++ e :: after)
    (hattributes : e.attributes = shown ++ a :: hidden) (hrefers : a.value.RefersToString)
    (hlookup : s.stringOf a.value = .error cause)
    (hunits : InTurn (UnitHeader.Block s) hs units) (hblocks : InTurn (Entry.Block s) before blocks)
    (hshown : InTurn (Attribute.Line s) shown lines)
    (htext : text = linesText (headingLines .info) ++ units ++ linesText h.dumpLines ++ blocks ++
      linesText [e.dumpLine] ++ lines)
    (hlines : WholeLines (s.lineCount hs + h.dumpLines.length +
      total (Entry.lineCount s) before + 1 + total (Attribute.lineCount s) shown) text)
    (hpart : lineBreaks part = 0) : InfoLines s (text ++ part) (some cause)

variable {s : Sections}

theorem Sections.wholeLines_units {hs : List UnitHeader} {units : String}
    (h : InTurn (UnitHeader.Block s) hs units) :
    WholeLines (s.lineCount hs) (linesText (headingLines .info) ++ units) :=
  (wholeLines_linesText (lineBreaks_headingLines .info)).append
    (h.wholeLines (UnitHeader.lineCount s) fun _ _ => UnitHeader.Block.wholeLines)

theorem Sections.infoLines_of_infoDump {text : String} {fault : Option Fault}
    (h : s.InfoDump (UnitHeader.Block s) (UnitHeader.Cut s) text fault) :
    s.InfoLines text fault := by
  cases h with
  | whole htiled hunits =>
    rw [← linesText_headingLines]
    exact .whole htiled hunits rfl (wholeLines_units hunits)
  | cut htiled hin hunits hfails =>
    have hbefore := wholeLines_units hunits
    rw [← linesText_headingLines, ← String.append_assoc]
    cases hfails with
    | header hheader =>
      rw [String.append_empty]
      exact .header htiled hheader hunits rfl hbefore
    | @contents h _ _ _ hheader hcut =>
      have hheaderLines := hbefore.append (wholeLines_linesText h.lineBreaks_dumpLines)
      cases hcut with
      | unread hdecode => exact .contents htiled hheader hdecode hunits rfl hheaderLines
      | unresolved hdecode hcut =>
        obtain ⟨before, e, after, blocks, _, hentries, hblocks, hentry, rfl⟩ := hcut
        obtain ⟨_, hattribute, rfl⟩ := hentry
        obtain ⟨shown, a, hidden, lines, _, hattributes, hshown, hlost, rfl⟩ := hattribute
        obtain ⟨hrefers, hlookup, rfl⟩ := hlost
        have hblockLines := hheaderLines.append
          (hblocks.wholeLines (Entry.lineCount s) fun _ _ => Entry.Block.wholeLines)
        have hshownLines := (hblockLines.append e.wholeLines_dumpLine).append
          (hshown.wholeLines (Attribute.lineCount s) fun _ _ => Attribute.Line.wholeLines)
        -- What is left is the label of the attribute, which has no line break.
        simp only [← String.append_assoc]
        exact .string htiled hheader hdecode hentries hattributes hrefers hlookup hunits hblocks
          hshown rfl hshownLines a.lineBreaks_dumpLabel

/-! ### The dumps of a file -/

theorem wholeLines_stringLines (found : Nat × Bytes) :
    WholeLines (found.2.count 0x0a + 1) (linesText (stringLines found)) := by
  have hbreaks : lineBreaks (stringDumpLine found.1 found.2) = found.2.count 0x0a := by
    simp only [stringDumpLine, lineBreaks_append, lineBreaks_padLeft, lineBreaks_hexDigits,
      lineBreaks_lossyText]
    exact Nat.zero_add _
  rw [stringLines, linesText_singleton, ← hbreaks]
  exact wholeLines_line _

/-- The lines of the heading, of the strings, and the blank line at the end. -/
def listingLineCount (found : List (Nat × Bytes)) : Nat :=
  2 + total (fun string => string.2.count 0x0a + 1) found + 1

theorem wholeLines_listing (found : List (Nat × Bytes)) : WholeLines (listingLineCount found)
    (linesText (headingLines .str ++ found.flatMap stringLines ++ [""])) := by
  have hstrings : WholeLines (total (fun string => string.2.count 0x0a + 1) found)
      (linesText (found.flatMap stringLines)) := by
    induction found with
    | nil => exact .nil
    | cons first later ih =>
      rw [List.flatMap_cons, linesText_append]
      exact (wholeLines_stringLines first).append ih
  have hheading := wholeLines_linesText (lineBreaks_headingLines .str)
  rw [linesText_append, linesText_append, linesText_singleton]
  exact (hheading.append hstrings).append (wholeLines_line "")

namespace ElfFile

open Elf

/-- **The dumps are whole lines, and only strings break them.** The line of an entry is one line.
An attribute that is written takes one line and one more for each byte `0x0a` of the string that
it has, and so does a listed string, whatever else is in it.

A dump of strings that fails has written nothing, and else it is whole lines: a heading of two,
those of all strings, and a blank one. A dump of units is empty if a section cannot be had.
Otherwise it is whole lines, up to a first fault: the heading, and for each unit its header, its
entries and their attributes. If the fault is that the string of an attribute cannot be had, it
is whole lines up to this attribute, and no line comes after them. -/
theorem dump_lines (f : ElfFile) :
    (∀ e : Entry, WholeLines 1 (linesText [e.dumpLine])) ∧
    (∀ (s : Sections) (a : Attribute) (text : String), a.Line s text →
      WholeLines (a.lineCount s) text) ∧
    (∀ found : Nat × Bytes, WholeLines (found.2.count 0x0a + 1) (linesText (stringLines found))) ∧
    (∀ cause : Fault, f.dumpStr.fault = some cause → f.dumpStr.text = "") ∧
    (f.dumpStr.fault = none → ∃ bytes found, f.located .str = .ok bytes ∧
      Tiled stringItem bytes 0 found bytes.length ∧
      f.dumpStr.text = linesText (headingLines .str ++ found.flatMap stringLines ++ [""]) ∧
      WholeLines (listingLineCount found) f.dumpStr.text) ∧
    (∀ cause : Fault, Sections.load f.order f.located = .error cause → f.dumpInfo.text = "") ∧
    ∀ s : Sections, Sections.load f.order f.located = .ok s →
      s.InfoLines f.dumpInfo.text f.dumpInfo.fault := by
  refine ⟨Entry.wholeLines_dumpLine, fun s a text => Attribute.Line.wholeLines,
    wholeLines_stringLines, ?_, ?_, fun cause hload => (f.dumpInfo_of_error hload).1, ?_⟩
  · intro cause hfault
    have hlisting := f.listing_dumpStr
    rw [hfault] at hlisting
    exact hlisting.eq_empty_of_fault
  · intro hfault
    have hlisting := f.listing_dumpStr
    rw [hfault] at hlisting
    obtain ⟨bytes, found, hcontents, htiled, htext⟩ := hlisting.exists_of_done
    refine ⟨bytes, found, hcontents, htiled, htext, ?_⟩
    rw [Listed] at htext
    rw [htext]
    exact wholeLines_listing found
  · intro s hload
    obtain ⟨htext, hfault⟩ := f.dumpInfo_of_ok hload
    rw [htext, hfault]
    exact Sections.infoLines_of_infoDump s.infoDump_dumpInfo

/-- Sections of two units. The entry of the second refers to a string at offset 7, and there are
no strings. -/
def lostString : Sections where
  order := .little
  abbrevs := [1, 0x11, 0, 3, 0x0e, 0, 0, 2, 0x11, 0, 0, 0, 0]
  info := [8, 0, 0, 0, 4, 0, 0, 0, 0, 0, 8, 2, 12, 0, 0, 0, 4, 0, 0, 0, 0, 0, 8, 1, 7, 0, 0, 0]

/-- A file with these sections. -/
def lostStringFile : ElfFile where
  bytes := 0 :: SectionId.abbrevs.nameBytes ++ 0 :: SectionId.info.nameBytes ++ [0]
    ++ lostString.abbrevs ++ lostString.info
  fileClass := .elf32
  order := .little
  sections := [⟨0, 0, 3, 0, 0, 27, 0, 0⟩, ⟨1, 1, 1, 0, 27, 13, 0, 0⟩, ⟨2, 15, 1, 0, 40, 28, 0, 0⟩]
  nameTable := ⟨0, 0, 3, 0, 0, 27, 0, 0⟩

/-- A name of two letters with a line break between them. -/
def brokenName : Attribute := ⟨0x03, .string, .string [0x61, 0x0a, 0x62]⟩

/-- The bytes of the string section have no zero byte. -/
def unendedString : List SectionHeader :=
  [⟨0, 0, 0, 0, 0, 0, 0, 0⟩, ⟨1, 0, 3, 0, 52, 12, 0, 0⟩, ⟨2, 1, 1, 0, 53, 4, 0, 0⟩]

theorem line_brokenName : brokenName.Line default (brokenName.dump default).text := by
  rcases brokenName.ends_dump (s := default) with ⟨text, hline, -, htext⟩ | ⟨_, _, hcut, -⟩
  · rw [htext]
    exact hline
  · cases hcut.1

theorem dump_lines_lostString :
    WholeLines 2 (brokenName.dump default).text ∧
    (∃ f, ofBytes (sampleFile unendedString) = .ok f ∧ f.dumpStr.fault = some .unexpectedEnd ∧
      f.dumpStr.text = "") ∧
    WholeLines 3 lostStringFile.dumpStr.text ∧ (default : ElfFile).dumpInfo.text = "" ∧
    lostString.InfoLines lostStringFile.dumpInfo.text (some .offsetBounds) := by
  obtain ⟨-, hattribute, -, -, hlisted, -, hinfo⟩ := lostStringFile.dump_lines
  refine ⟨?_, ?_, ?_, ?_, ?_⟩
  · exact hattribute default brokenName _ line_brokenName
  · have hread : (ofBytes (sampleFile unendedString)).toOption.map (·.dumpStr.fault) =
        some (some .unexpectedEnd) := by
      decide +kernel
    obtain ⟨f, hf, hfault⟩ := Fallible.exists_of_map hread
    obtain ⟨-, -, -, hempty, -⟩ := f.dump_lines
    exact ⟨f, hf, hfault, hempty _ hfault⟩
  · have hdone : lostStringFile.dumpStr.fault = none := by decide +kernel
    obtain ⟨bytes, found, hbytes, htiled, -, hlines⟩ := hlisted hdone
    have hnone : lostStringFile.located .str = .ok [] := by rfl
    rw [hnone] at hbytes
    cases hbytes
    rw [htiled.eq_nil_iff.mpr rfl] at hlines
    exact hlines
  · obtain ⟨-, -, -, -, -, hlost, -⟩ := (default : ElfFile).dump_lines
    exact hlost (.missingSection .abbrevs) rfl
  · have hfault : lostStringFile.dumpInfo.fault = some .offsetBounds := by decide +kernel
    have hdump := hinfo lostString (by rfl)
    rw [hfault] at hdump
    exact hdump

/-- The string section is two bytes of its own header: a line break, and a zero byte behind it. -/
def brokenString : List SectionHeader :=
  [⟨0, 0, 0, 0, 0, 0, 0, 0⟩, ⟨1, 0, 3, 0, 52, 12, 0, 0⟩, ⟨2, 1, 1, 0, 180, 2, 0, 10⟩]

/-- A file with one string, which is listed on two lines, and an attribute that takes two. -/
theorem listed_on_two_lines :
    (∃ f, ofBytes (sampleFile brokenString) = .ok f ∧ f.located .str = .ok [0x0a, 0] ∧
      f.dumpStr.fault = none ∧
      f.dumpStr.text = "The section .debug_str contains:\n\n  [     0]  \n\n\n" ∧
      ¬ WholeLines 4 f.dumpStr.text) ∧
    Attribute.Line default brokenName (brokenName.dump default).text ∧
    ¬ WholeLines 1 (brokenName.dump default).text := by
  constructor
  · have hread : (ofBytes (sampleFile brokenString)).toOption.map
        (fun f => (Except.toOption (f.located .str), f.dumpStr.fault, f.dumpStr.text)) =
        some (some [0x0a, 0], none, "The section .debug_str contains:\n\n  [     0]  \n\n\n") := by
      decide +kernel
    obtain ⟨f, hf, hparts⟩ := Fallible.exists_of_map hread
    obtain ⟨hstr, hparts⟩ := Prod.mk.inj hparts
    obtain ⟨hfault, htext⟩ := Prod.mk.inj hparts
    refine ⟨f, hf, ?_, hfault, htext, fun hfour => ?_⟩
    · cases hlocated : f.located .str with
      | ok bytes =>
        rw [hlocated] at hstr
        cases hstr
        rfl
      | error cause =>
        rw [hlocated] at hstr
        cases hstr
    · have hbreaks := hfour.lineBreaks_eq
      rw [htext] at hbreaks
      exact absurd hbreaks (by decide)
  · refine ⟨line_brokenName, fun hone => ?_⟩
    have htwo : WholeLines 2 (brokenName.dump default).text := line_brokenName.wholeLines
    exact absurd (hone.lineBreaks_eq.symm.trans htwo.lineBreaks_eq) (by decide)

end ElfFile

end Dwarf
