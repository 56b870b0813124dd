import Dwarf.Dump.Abbrev
import Dwarf.Dump.Info
import Dwarf.Dump.Strings
import Dwarf.Proofs.Abbrev.Section
import Dwarf.Proofs.Fallible
import Dwarf.Proofs.Info.Units
import Dwarf.Proofs.StringTable
/-!
# The parts of a dump

What a dump writes is put together from the texts of its parts, and it stops in the middle of one
when something cannot be read. What is there in full is a text for each part, one after another
(`InTurn`). Where a part is cut off, all before it is there in full and nothing after it is there at
all (`CutOff`). This is so for the attributes of an entry, the entries of a unit and the units of a
section, and `Output.Ends.concat` takes it from each to the next.

> `AbbrevTable.listing_dump`, `listing_dumpStrings`, `Sections.infoDump_dumpInfo`: the text and the
> fault of the dump of a section, out of the contents of the section.
-/

namespace Dwarf

/-- The text of whole lines. -/
def linesText (ls : List String) : String := String.join (ls.map (· ++ "\n"))

theorem linesText_singleton (line : String) : linesText [line] = line ++ "\n" := by
  simp [linesText, String.join_cons]

theorem linesText_append (ls ms : List String) :
    linesText (ls ++ ms) = linesText ls ++ linesText ms := by
  rw [linesText, List.map_append, String.join_append]
  rfl

theorem linesText_cons (line : String) (ls : List String) :
    linesText (line :: ls) = line ++ "\n" ++ linesText ls := by
  rw [← List.singleton_append, linesText_append, linesText_singleton]

/-- What comes before the parts of a section. -/
def heading (id : SectionId) : String := "The section " ++ id.name ++ " contains:\n\n"

theorem linesText_headingLines (id : SectionId) : linesText (headingLines id) = heading id := by
  rw [headingLines, linesText_cons, linesText_singleton, heading, String.append_assoc,
    String.append_assoc, String.append_assoc]
  rfl

/-! ### One text after another -/

section Rows

variable {α : Type}

/-- `text` is what is written for each of the elements, one after another. -/
inductive InTurn (whole : α → String → Prop) : List α → String → Prop where
  | nil : InTurn whole [] ""
  | cons {x : α} {xs : List α} {text later : String} (hfirst : whole x text)
    (hlater : InTurn whole xs later) : InTurn whole (x :: xs) (text ++ later)

/-- The elements up to one are written, and this one is cut off. -/
def CutOff (whole : α → String → Prop) (cut : α → String → Fault → Prop) (xs : List α)
    (text : String) (cause : Fault) : Prop :=
  ∃ before x after written part, xs = before ++ x :: after ∧ InTurn whole before written ∧
    cut x part cause ∧ text = written ++ part

variable {whole : α → String → Prop} {cut : α → String → Fault → Prop} {x : α} {xs : List α}
  {text rest : String} {cause : Fault}

theorem InTurn.mono {whole' : α → String → Prop} (hwhole : ∀ x text, whole x text → whole' x text)
    (h : InTurn whole xs text) : InTurn whole' xs text := by
  induction h with
  | nil => exact .nil
  | cons hfirst hlater ih => exact .cons (hwhole _ _ hfirst) ih

theorem CutOff.mono {whole' : α → String → Prop} {cut' : α → String → Fault → Prop}
    (hwhole : ∀ x text, whole x text → whole' x text)
    (hcut : ∀ x text cause, cut x text cause → cut' x text cause)
    (h : CutOff whole cut xs text cause) : CutOff whole' cut' xs text cause := by
  obtain ⟨before, x, after, written, part, hsplit, hbefore, hpart, htext⟩ := h
  exact ⟨before, x, after, written, part, hsplit, hbefore.mono hwhole, hcut _ _ _ hpart, htext⟩

theorem CutOff.here (hcut : cut x text cause) : CutOff whole cut (x :: xs) text cause :=
  ⟨[], x, xs, "", text, rfl, .nil, hcut, String.empty_append.symm⟩

theorem CutOff.later (hfirst : whole x text) (hcut : CutOff whole cut xs rest cause) :
    CutOff whole cut (x :: xs) (text ++ rest) cause := by
  obtain ⟨before, x', after, written, part, rfl, hbefore, hpart, rfl⟩ := hcut
  exact ⟨x :: before, x', after, text ++ written, part, rfl, .cons hfirst hbefore, hpart,
    String.append_assoc.symm⟩

end Rows

/-! ### The text of an output -/

namespace Output

variable {α : Type} {o p : Output} {s t : String} {cause : Fault}

/-- The output is complete, with this text. -/
def Writes (o : Output) (text : String) : Prop := o.fault = none ∧ o.text = text

/-- The output ends with a fault, after this text. -/
def Stops (o : Output) (text : String) (cause : Fault) : Prop :=
  o.fault = some cause ∧ o.text = text

/-- The output is complete with a text that is `whole`, or it is cut off. -/
def Ends (o : Output) (whole : String → Prop) (cut : String → Fault → Prop) : Prop :=
  (∃ text, whole text ∧ o.Writes text) ∨ ∃ text cause, cut text cause ∧ o.Stops text cause

theorem writes_log (events : List Event) : (log events).Writes "" := ⟨rfl, rfl⟩

theorem writes_lines (ls : List String) : (lines ls).Writes (linesText ls) := ⟨rfl, rfl⟩

theorem writes_write (piece : String) : (write piece).Writes piece :=
  ⟨rfl, by simp [text, write, String.join_cons]⟩

theorem stops_fail (cause : Fault) : (fail cause).Stops "" cause := ⟨rfl, rfl⟩

theorem Writes.append (ho : o.Writes s) (hp : p.Writes t) : (o ++ p).Writes (s ++ t) := by
  obtain ⟨hdone, rfl⟩ := ho
  obtain ⟨hdone', rfl⟩ := hp
  refine ⟨?_, text_append p hdone⟩
  rw [append_of_done p hdone]
  exact hdone'

theorem Writes.append_stops (ho : o.Writes s) (hp : p.Stops t cause) :
    (o ++ p).Stops (s ++ t) cause := by
  obtain ⟨hdone, rfl⟩ := ho
  obtain ⟨hfault, rfl⟩ := hp
  refine ⟨?_, text_append p hdone⟩
  rw [append_of_done p hdone]
  exact hfault

theorem Stops.append (ho : o.Stops s cause) (p : Output) : (o ++ p).Stops s cause := by
  rw [append_of_fault p ho.1]
  exact ho

theorem text_log_append (events : List Event) (o : Output) : (log events ++ o).text = o.text := by
  rw [text_append o rfl]
  exact String.empty_append

theorem fault_log_append (events : List Event) (o : Output) :
    (log events ++ o).fault = o.fault := by
  rw [append_of_done o rfl]

/-- Of outputs in a row, the first that is cut off ends the row. -/
theorem Ends.concat {dump : α → Output} {whole : α → String → Prop}
    {cut : α → String → Fault → Prop} (h : ∀ x, (dump x).Ends (whole x) (cut x)) (xs : List α) :
    (Output.concat (xs.map dump)).Ends (InTurn whole xs) (CutOff whole cut xs) := by
  induction xs with
  | nil => exact .inl ⟨"", .nil, rfl, rfl⟩
  | cons x xs ih =>
    show (dump x ++ Output.concat (xs.map dump)).Ends _ _
    -- Only if the first is complete does it matter what comes of the others.
    rcases h x with ⟨text, hwhole, hwrites⟩ | ⟨text, cause, hcut, hstops⟩
    · rcases ih with ⟨later, hlater, hrest⟩ | ⟨later, cause, hlater, hrest⟩
      · exact .inl ⟨text ++ later, .cons hwhole hlater, hwrites.append hrest⟩
      · exact .inr ⟨text ++ later, cause, .later hwhole hlater, hwrites.append_stops hrest⟩
    · exact .inr ⟨text, cause, .here hcut, hstops.append _⟩

end Output

/-! ### Attributes, entries and units -/

/-- The value refers to a string in another section. -/
def Value.RefersToString : Value → Prop
  | strRef _ | lineStrRef _ => True
  | _ => False

/-- Only a string that cannot be found keeps a value from being written. -/
theorem Value.dumpText_eq_error {s : Sections} {name : Nat} {v : Value} {cause : Fault}
    (h : v.dumpText s name = .error cause) : v.RefersToString ∧ s.stringOf v = .error cause := by
  cases v with
  | strRef offset =>
    rcases Fallible.bind_eq_error.mp h with hlookup | ⟨text, -, hdone⟩
    · exact ⟨trivial, hlookup⟩
    · cases hdone
  | lineStrRef offset =>
    rcases Fallible.bind_eq_error.mp h with hlookup | ⟨text, -, hdone⟩
    · exact ⟨trivial, hlookup⟩
    · cases hdone
  | _ => cases h

section Parts

variable (s : Sections)

/-- The line of an attribute: its label and the text of its value. -/
def Attribute.Line (a : Attribute) (text : String) : Prop :=
  ∃ value, a.value.dumpText s a.name = .ok value ∧ text = a.dumpLabel ++ linesText [value]

/-- The string that the attribute refers to cannot be had, and only its label is written. -/
def Attribute.Cut (a : Attribute) (text : String) (cause : Fault) : Prop :=
  a.value.RefersToString ∧ s.stringOf a.value = .error cause ∧ text = a.dumpLabel

/-- The lines of an entry and of all its attributes. -/
def Entry.Block (e : Entry) (text : String) : Prop :=
  ∃ lines, InTurn (Attribute.Line s) e.attributes lines ∧ text = linesText [e.dumpLine] ++ lines

/-- The lines of an entry, up to an attribute whose string cannot be had. -/
def Entry.Cut (e : Entry) (text : String) (cause : Fault) : Prop :=
  ∃ lines, CutOff (Attribute.Line s) (Attribute.Cut s) e.attributes lines cause ∧
    text = linesText [e.dumpLine] ++ lines

/-- The header of a unit and the blocks of all its entries. -/
def UnitHeader.Block (h : UnitHeader) (text : String) : Prop :=
  ∃ u blocks, UnitTree.decode s.abbrevs h = .ok u ∧
    InTurn (Entry.Block s) u.entries.toList blocks ∧ text = linesText h.dumpLines ++ blocks

/-- What is written of a unit with a fault behind its header. -/
inductive UnitHeader.Cut (h : UnitHeader) : String → Fault → Prop where
  /-- The table or an entry cannot be read: the header is all that is written. -/
  | unread {cause : Fault} (hdecode : UnitTree.decode s.abbrevs h = .error cause) :
    UnitHeader.Cut h (linesText h.dumpLines) cause
  /-- An entry has an attribute whose string cannot be had. -/
  | unresolved {u : UnitTree} {blocks : String} {cause : Fault}
    (hdecode : UnitTree.decode s.abbrevs h = .ok u)
    (hcut : CutOff (Entry.Block s) (Entry.Cut s) u.entries.toList blocks cause) :
    UnitHeader.Cut h (linesText h.dumpLines ++ blocks) cause

variable {s}

theorem Attribute.ends_dump (a : Attribute) : (a.dump s).Ends (a.Line s) (a.Cut s) := by
  have hlabel := Output.writes_write a.dumpLabel
  unfold dump
  cases hvalue : a.value.dumpText s a.name with
  | ok value =>
    exact .inl ⟨_, ⟨value, hvalue, rfl⟩, hlabel.append (Output.writes_lines [value])⟩
  | error cause =>
    obtain ⟨hrefers, hlookup⟩ := Value.dumpText_eq_error hvalue
    have hstops := hlabel.append_stops (Output.stops_fail cause)
    rw [String.append_empty] at hstops
    exact .inr ⟨_, cause, ⟨hrefers, hlookup, rfl⟩, hstops⟩

theorem Entry.ends_dump (e : Entry) : (e.dump s).Ends (e.Block s) (e.Cut s) := by
  have hline := Output.writes_lines [e.dumpLine]
  unfold dump
  rcases Output.Ends.concat Attribute.ends_dump e.attributes with
    ⟨lines, hlines, hrest⟩ | ⟨lines, cause, hlines, hrest⟩
  · exact .inl ⟨_, ⟨lines, hlines, rfl⟩, hline.append hrest⟩
  · exact .inr ⟨_, cause, ⟨lines, hlines, rfl⟩, hline.append_stops hrest⟩

theorem UnitHeader.ends_dump (h : UnitHeader) : (h.dump s).Ends (h.Block s) (h.Cut s) := by
  have hheader := (Output.writes_log (Event.ofUnit s.abbrevs h)).append
    (Output.writes_lines h.dumpLines)
  rw [String.empty_append] at hheader
  unfold dump
  cases hdecode : UnitTree.decode s.abbrevs h with
  | error cause =>
    have hstops := hheader.append_stops (Output.stops_fail cause)
    rw [String.append_empty] at hstops
    exact .inr ⟨_, cause, .unread hdecode, hstops⟩
  | ok u =>
    rcases Output.Ends.concat Entry.ends_dump u.entries.toList with
      ⟨blocks, hblocks, hrest⟩ | ⟨blocks, cause, hblocks, hrest⟩
    · exact .inl ⟨_, ⟨u, blocks, hdecode, hblocks, rfl⟩, hheader.append hrest⟩
    · exact .inr ⟨_, cause, .unresolved hdecode hblocks, hheader.append_stops hrest⟩

end Parts

/-! ### The units of a section -/

section Units

/-- What is written of a unit that the section has at `start`, and that has a fault. -/
inductive Sections.FailsAt (s : Sections) (cut : UnitHeader → String → Fault → Prop)
    (start : Nat) : String → Fault → Prop where
  /-- The header cannot be read. -/
  | header {cause : Fault} {rest : Bytes}
    (hheader : (UnitHeader.decode s.order start).run (s.info.drop start) = .fault cause rest) :
    FailsAt s cut start "" cause
  /-- The header can be read, and is written. -/
  | contents {h : UnitHeader} {text : String} {cause : Fault} {rest : Bytes}
    (hheader : (UnitHeader.decode s.order start).run (s.info.drop start) = .ok h rest)
    (hcut : cut h text cause) : FailsAt s cut start text cause

/-- The text of a dump of units, and the fault that ended it if one did. -/
inductive Sections.InfoDump (s : Sections) (whole : UnitHeader → String → Prop)
    (cut : UnitHeader → String → Fault → Prop) : String → Option Fault → Prop where
  /-- The units fill the section, and all are written. -/
  | whole {hs : List UnitHeader} {text : String}
    (htiled : Tiled (UnitHeader.item s.order) s.info 0 hs s.info.length)
    (hunits : InTurn whole hs text) : InfoDump s whole cut (heading .info ++ text) none
  /-- The units in front of one that fails are written. -/
  | cut {hs : List UnitHeader} {start : Nat} {text part : String} {cause : Fault}
    (htiled : Tiled (UnitHeader.item s.order) s.info 0 hs start) (hin : start < s.info.length)
    (hunits : InTurn whole hs text) (hfails : s.FailsAt cut start part cause) :
    InfoDump s whole cut (heading .info ++ (text ++ part)) (some cause)

variable {s : Sections} {whole whole' : UnitHeader → String → Prop}
  {cut cut' : UnitHeader → String → Fault → Prop} {text : String} {fault : Option Fault}

theorem Sections.InfoDump.mono (hwhole : ∀ h text, whole h text → whole' h text)
    (hcut : ∀ h text cause, cut h text cause → cut' h text cause)
    (h : s.InfoDump whole cut text fault) : s.InfoDump whole' cut' text fault := by
  cases h with
  | whole htiled hunits => exact .whole htiled (hunits.mono hwhole)
  | cut htiled hin hunits hfails =>
    refine .cut htiled hin (hunits.mono hwhole) ?_
    cases hfails with
    | header hheader => exact .header hheader
    | contents hheader hpart => exact .contents hheader (hcut _ _ _ hpart)

end Units

theorem Sections.infoDump_dumpInfo (s : Sections) :
    s.InfoDump (UnitHeader.Block s) (UnitHeader.Cut s) s.dumpInfo.text s.dumpInfo.fault := by
  have hforward := UnitHeader.forward_item s.order
  have hstart := Cursor.on_atStart s.info
  have htiled : Tiled (UnitHeader.item s.order) s.info 0 (UnitHeader.all s.order s.info).items
      ((Cursor.atStart s.info).stop (UnitHeader.item s.order)).offset :=
    Cursor.tiled_run hforward hstart
  have hheading := Output.writes_lines (headingLines .info)
  rw [linesText_headingLines] at hheading
  unfold dumpInfo
  simp only
  rcases Output.Ends.concat UnitHeader.ends_dump (UnitHeader.all s.order s.info).items with
    ⟨text, hunits, hwrites⟩ | ⟨text, cause, hcut, hstops⟩
  · have hbefore := hheading.append hwrites
    cases hfault : (UnitHeader.all s.order s.info).fault with
    | none =>
      obtain ⟨hdone, htext⟩ := hbefore
      rw [Output.append_empty, hdone, htext]
      rw [Cursor.stop_of_done hforward hstart hfault] at htiled
      exact .whole htiled hunits
    | some cause =>
      -- All units that have a header are written, and the next one has none.
      obtain ⟨hend, htext⟩ := hbefore.append_stops (Output.stops_fail cause)
      obtain ⟨hin, rest, hrun⟩ := Cursor.stop_of_fault hforward hstart hfault
      rw [hend, htext, String.append_assoc]
      exact .cut htiled hin hunits (.header hrun)
  · obtain ⟨before, h, after, written, part, hsplit, hunits, hpart, rfl⟩ := hcut
    obtain ⟨hend, htext⟩ := hheading.append_stops hstops
    rw [Output.append_of_fault _ hend, hend, htext]
    -- The unit that is cut off starts where those before it end.
    have hat : (UnitHeader.all s.order s.info).items[before.length]? = some h := by
      rw [hsplit, List.getElem?_append_right (Nat.le_refl _), Nat.sub_self]
      rfl
    obtain ⟨start, next, hlt, hbefore, hrun, hlater⟩ := htiled.split hat
    rw [hsplit, List.take_left] at hbefore
    have hin := Nat.le_trans hlater.le_stop hlater.stop_le
    exact .cut hbefore (Nat.lt_of_lt_of_le hlt hin) hunits (.contents hrun hpart)

/-! ### Listings -/

section Listings

variable {α : Type} {item : Item α} {whole whole' : List α → String → Prop} {bytes : Bytes}
  {contents : Except Fault Bytes} {cause : Fault} {text : String} {fault : Option Fault}

/-- The text of a dump that lists the items of a section, and its fault. Nothing is written
unless all can be read. -/
inductive Listing (item : Item α) (whole : List α → String → Prop)
    (contents : Except Fault Bytes) : String → Option Fault → Prop where
  /-- The items fill the section, and all are written. -/
  | whole {bytes : Bytes} {items : List α} {text : String} (hcontents : contents = .ok bytes)
    (htiled : Tiled item bytes 0 items bytes.length) (hwhole : whole items text) :
    Listing item whole contents text none
  /-- The section cannot be had. -/
  | lost {cause : Fault} (hcontents : contents = .error cause) :
    Listing item whole contents "" (some cause)
  /-- Behind some items there is one that cannot be read. -/
  | faulty {bytes rest : Bytes} {items : List α} {start : Nat} {cause : Fault}
    (hcontents : contents = .ok bytes) (htiled : Tiled item bytes 0 items start)
    (hin : start < bytes.length)
    (hfault : (item.decode start).run (bytes.drop start) = .fault cause rest) :
    Listing item whole contents "" (some cause)

theorem Listing.exists_of_done (h : Listing item whole contents text none) :
    ∃ bytes items, contents = .ok bytes ∧ Tiled item bytes 0 items bytes.length ∧
      whole items text := by
  cases h with
  | whole hcontents htiled htext => exact ⟨_, _, hcontents, htiled, htext⟩

theorem Listing.eq_empty_of_fault (h : Listing item whole contents text (some cause)) :
    text = "" := by
  cases h <;> rfl

theorem Listing.mono (hwhole : ∀ items text, whole items text → whole' items text)
    (h : Listing item whole contents text fault) : Listing item whole' contents text fault := by
  cases h with
  | whole hcontents htiled htext => exact .whole hcontents htiled (hwhole _ _ htext)
  | lost hcontents => exact .lost hcontents
  | faulty hcontents htiled hin hfault => exact .faulty hcontents htiled hin hfault

/-- The heading of the section, the lines of the items, and a blank line. -/
def Listed (id : SectionId) (lines : α → List String) (items : List α) (text : String) : Prop :=
  text = linesText (headingLines id ++ items.flatMap lines ++ [""])

variable {o : Output} {id : SectionId} {lines : α → List String}

theorem Listing.of_writes (hforward : item.Forward) {items : List α}
    (hall : ((Cursor.atStart bytes).run item).complete = .ok items)
    (ho : o.Writes (linesText (headingLines id ++ items.flatMap lines ++ [""]))) :
    Listing item (Listed id lines) (.ok bytes) o.text o.fault := by
  obtain ⟨hdone, htext⟩ := ho
  obtain ⟨hend, rfl⟩ := Progress.complete_eq_ok.mp hall
  have htiled := Cursor.tiled_run hforward (Cursor.on_atStart bytes)
  rw [Cursor.stop_of_done hforward (Cursor.on_atStart bytes) hend] at htiled
  rw [hdone]
  exact .whole rfl htiled htext

theorem Listing.of_stops (hforward : item.Forward)
    (hall : ((Cursor.atStart bytes).run item).complete = .error cause) (ho : o.Stops "" cause) :
    Listing item whole (.ok bytes) o.text o.fault := by
  obtain ⟨hfault, htext⟩ := ho
  have hend := Progress.complete_eq_error.mp hall
  have htiled := Cursor.tiled_run hforward (Cursor.on_atStart bytes)
  obtain ⟨hin, rest, hrun⟩ := Cursor.stop_of_fault hforward (Cursor.on_atStart bytes) hend
  rw [hfault, htext]
  exact .faulty rfl htiled hin hrun

end Listings

namespace AbbrevTable

/-- The lines of a table with its offset. -/
def itemLines (found : Nat × AbbrevTable) : List String := dumpLines found.1 found.2

theorem listing_dump (bytes : Bytes) :
    Listing item (Listed .abbrevs itemLines) (.ok bytes) (dump bytes).text (dump bytes).fault := by
  unfold dump
  rw [Output.text_log_append, Output.fault_log_append]
  cases hall : (tables bytes).complete with
  | error cause => exact .of_stops forward_item hall (Output.stops_fail cause)
  | ok found => exact .of_writes forward_item hall (Output.writes_lines _)

end AbbrevTable

/-- The line of a string with its offset. -/
def stringLines (found : Nat × Bytes) : List String := [stringDumpLine found.1 found.2]

theorem listing_dumpStrings (bytes : Bytes) :
    Listing stringItem (Listed .str stringLines) (.ok bytes) (dumpStrings bytes).text
      (dumpStrings bytes).fault := by
  unfold dumpStrings
  cases hall : (strings bytes).complete with
  | error cause => exact .of_stops forward_stringItem hall (Output.stops_fail cause)
  | ok found =>
    have hlines : found.map (fun string => stringDumpLine string.1 string.2) =
        found.flatMap stringLines := List.map_eq_flatMap
    refine .of_writes forward_stringItem hall ?_
    rw [← hlines]
    exact Output.writes_lines _

/-! ### The dumps of a file -/

namespace ElfFile

/-- The contents of a section, as a dump asks for it. The sections of strings may be missing. -/
def located (f : ElfFile) : SectionId → Except Fault Bytes
  | .abbrevs => f.debugSection .abbrevs
  | .info => f.debugSection .info
  | .str => f.debugSectionOrEmpty .str
  | .lineStr => f.debugSectionOrEmpty .lineStr

variable (f : ElfFile)

theorem strSection_eq : f.strSection.2 = f.located .str := by
  show f.strSection.2 = f.debugSectionOrEmpty .str
  unfold strSection debugSectionOrEmpty
  cases f.debugSection .str with
  | ok bytes => rfl
  | error cause => cases cause <;> rfl

theorem infoSections_eq : f.infoSections.2 = Sections.load f.order f.located := by
  have hstr := f.strSection_eq
  unfold infoSections Sections.load
  rw [← hstr]
  unfold located
  obtain ⟨events, str⟩ := f.strSection
  cases f.debugSection .abbrevs with
  | error cause => rfl
  | ok abbrevs =>
    cases f.debugSection .info with
    | error cause => rfl
    | ok info =>
      cases str with
      | error cause => rfl
      | ok str => cases f.debugSectionOrEmpty .lineStr <;> rfl

theorem listing_dumpAbbrevs :
    Listing AbbrevTable.item (Listed .abbrevs AbbrevTable.itemLines) (f.located .abbrevs)
      f.dumpAbbrevs.text f.dumpAbbrevs.fault := by
  show Listing _ _ (f.debugSection .abbrevs) _ _
  unfold dumpAbbrevs
  cases f.debugSection .abbrevs with
  | error cause => exact .lost rfl
  | ok bytes => exact AbbrevTable.listing_dump bytes

theorem listing_dumpStr :
    Listing stringItem (Listed .str stringLines) (f.located .str) f.dumpStr.text
      f.dumpStr.fault := by
  rw [← strSection_eq]
  unfold dumpStr
  obtain ⟨events, contents⟩ := f.strSection
  rw [Output.text_log_append, Output.fault_log_append]
  cases contents with
  | error cause => exact .lost rfl
  | ok bytes => exact listing_dumpStrings bytes

theorem dumpInfo_of_error {cause : Fault}
    (hload : Sections.load f.order f.located = .error cause) :
    f.dumpInfo.text = "" ∧ f.dumpInfo.fault = some cause := by
  rw [← infoSections_eq] at hload
  unfold dumpInfo
  generalize f.infoSections = found at hload ⊢
  obtain ⟨events, sections⟩ := found
  cases hload
  exact ⟨Output.text_log_append .., Output.fault_log_append ..⟩

theorem dumpInfo_of_ok {s : Sections} (hload : Sections.load f.order f.located = .ok s) :
    f.dumpInfo.text = s.dumpInfo.text ∧ f.dumpInfo.fault = s.dumpInfo.fault := by
  rw [← infoSections_eq] at hload
  unfold dumpInfo
  generalize f.infoSections = found at hload ⊢
  obtain ⟨events, sections⟩ := found
  cases hload
  exact ⟨Output.text_log_append .., Output.fault_log_append ..⟩

end ElfFile

end Dwarf
