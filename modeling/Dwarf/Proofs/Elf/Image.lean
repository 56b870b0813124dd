import Dwarf.Elf.File
import Dwarf.Proofs.Bytes.Placed
import Dwarf.Proofs.Fallible
/-!
# The sections that a file image has

The headers of an ELF file are tables of fields at fixed positions, other ones for each class.
Here these positions are written out, and a file that has the right integers at them is called
an image of its section headers, wherever it has these and whatever else is in it.

The number of sections and the index of the name table may stand in the file header, or, where
they do not fit there, in section 0, each for itself.

> `ElfFile.ofBytes_image`: from an image the headers come back, numbered, and each section has
> the name that the name table has for it.
-/

namespace Dwarf

/-- What a position is in either class. -/
def ElfClass.select (on32 on64 : Nat) : ElfClass → Nat
  | elf32 => on32
  | elf64 => on64

/-- The class byte. -/
def ElfClass.identByte : ElfClass → UInt8
  | elf32 => 1
  | elf64 => 2

/-- The data byte. -/
def ByteOrder.identByte : ByteOrder → UInt8
  | little => 1
  | big => 2

namespace Elf

open Decoder

variable {fileClass : ElfClass} {order : ByteOrder} {file : Bytes}

/-! ### Headers in place -/

/-- `file` starts with this header. -/
structure FileHeader.Stored (fileClass : ElfClass) (order : ByteOrder) (file : Bytes)
    (h : FileHeader) : Prop where
  length : fileClass.headerSize ≤ file.length
  tableOffset : order.FieldAt file (fileClass.select 32 40) fileClass.wordSize h.tableOffset
  headerSize : order.FieldAt file (fileClass.select 40 52) 2 h.headerSize
  entrySize : order.FieldAt file (fileClass.select 46 58) 2 h.entrySize
  count : order.FieldAt file (fileClass.select 48 60) 2 h.count
  nameTableIndex : order.FieldAt file (fileClass.select 50 62) 2 h.nameTableIndex

/-- `file` has this header at `start`. Where in a table that is does not matter. -/
structure SectionHeader.Stored (fileClass : ElfClass) (order : ByteOrder) (file : Bytes)
    (start : Nat) (h : SectionHeader) : Prop where
  length : start + fileClass.sectionHeaderSize ≤ file.length
  name : order.FieldAt file start 4 h.name
  type : order.FieldAt file (start + 4) 4 h.type
  flags : order.FieldAt file (start + 8) fileClass.wordSize h.flags
  offset : order.FieldAt file (start + fileClass.select 16 24) fileClass.wordSize h.offset
  size : order.FieldAt file (start + fileClass.select 20 32) fileClass.wordSize h.size
  link : order.FieldAt file (start + fileClass.select 24 40) 4 h.link
  entrySize : order.FieldAt file (start + fileClass.select 36 56) fileClass.wordSize h.entrySize

/-- Whether each class has the fields in the order in which they are read is settled here. -/
theorem FileHeader.Stored.readsAt {h : FileHeader} (hh : h.Stored fileClass order file) :
    (FileHeader.decode fileClass order).ReadsAt file 0 h fileClass.headerSize := by
  have hlen := hh.length
  unfold FileHeader.decode
  cases fileClass <;>
  · simp only [ElfClass.headerSize] at hlen
    refine (readsAt_skip (by omega)).bind <| (readsAt_skip ?_).bind <|
      (readsAt_uint hh.tableOffset).bind <| (readsAt_skip ?_).bind <|
      (readsAt_uint hh.headerSize).bind <| (readsAt_skip ?_).bind <|
      (readsAt_uint hh.entrySize).bind <| (readsAt_uint hh.count).bind <|
      (readsAt_uint hh.nameTableIndex).bind <| readsAt_pure _
    all_goals
      simp only [ElfClass.wordSize, ElfClass.select]
      omega

theorem SectionHeader.Stored.readsAt {start : Nat} {h : SectionHeader}
    (hh : h.Stored fileClass order file start) (index : Nat) :
    (SectionHeader.decode fileClass order index).ReadsAt file start { h with index }
      (start + fileClass.sectionHeaderSize) := by
  have hlen := hh.length
  unfold SectionHeader.decode
  cases fileClass <;>
  · simp only [ElfClass.sectionHeaderSize] at hlen
    refine (readsAt_uint hh.name).bind <| (readsAt_uint hh.type).bind <|
      (readsAt_uint hh.flags).bind <| (readsAt_skip ?_).bind <|
      (readsAt_uint hh.offset).bind <| (readsAt_uint hh.size).bind <|
      (readsAt_uint hh.link).bind <| (readsAt_skip ?_).bind <| (readsAt_skip ?_).bind <|
      (readsAt_uint hh.entrySize).bind <| readsAt_pure _
    all_goals
      simp only [ElfClass.wordSize, ElfClass.select]
      omega

/-- The headers of a table, where each says where in the table it is. -/
def numbered (first : Nat) (sections : List SectionHeader) : List SectionHeader :=
  sections.mapIdx fun i h => { h with index := first + i }

theorem getElem?_numbered (first : Nat) {i : Nat} {sections : List SectionHeader}
    {h : SectionHeader} (hi : sections[i]? = some h) :
    (numbered first sections)[i]? = some { h with index := first + i } := by
  unfold numbered
  rw [List.getElem?_mapIdx, hi]
  rfl

theorem numbered_cons (first : Nat) (h : SectionHeader) (sections : List SectionHeader) :
    numbered first (h :: sections) =
      { h with index := first } :: numbered (first + 1) sections := by
  unfold numbered
  rw [List.mapIdx_cons, Nat.add_zero]
  congr 2
  funext i h
  congr 1
  omega

/-- Headers that lie one after another are read as a table. -/
theorem readsAt_decodeMany {start : Nat} {sections : List SectionHeader} (first : Nat)
    (hs : ∀ i (h : SectionHeader), sections[i]? = some h →
      h.Stored fileClass order file (start + i * fileClass.sectionHeaderSize)) :
    (SectionHeader.decodeMany fileClass order first sections.length).ReadsAt file start
      (numbered first sections) (start + sections.length * fileClass.sectionHeaderSize) := by
  induction sections generalizing start first with
  | nil =>
    rw [List.length_nil, Nat.zero_mul]
    exact readsAt_pure _
  | cons h sections ih =>
    have hhead := hs 0 h rfl
    rw [Nat.zero_mul, Nat.add_zero] at hhead
    have htail : ∀ i (h' : SectionHeader), sections[i]? = some h' → h'.Stored fileClass order file
        (start + fileClass.sectionHeaderSize + i * fileClass.sectionHeaderSize) := by
      intro i h' hi
      have hstored := hs (i + 1) h' hi
      rwa [Nat.succ_mul, Nat.add_comm (i * _), ← Nat.add_assoc] at hstored
    have hothers := ih (first + 1) htail
    rw [List.length_cons, Nat.succ_mul, Nat.add_comm (_ * _), ← Nat.add_assoc, numbered_cons]
    exact (hhead.readsAt first).bind (hothers.bind (readsAt_pure _))

/-! ### Images -/

/-- Of a file that has these sections, the file header, the section headers and what identifies
the file. The index of the name table is `names`. -/
structure Image (fileClass : ElfClass) (order : ByteOrder) (file : Bytes) (header : FileHeader)
    (sections : List SectionHeader) (names : Nat) : Prop where
  magic : file.take 4 = magic
  classByte : file[4]? = some fileClass.identByte
  dataByte : file[5]? = some order.identByte
  versionByte : file[6]? = some 1
  stored : header.Stored fileClass order file
  /-- The file header may give itself more bytes than it needs. -/
  headerSize : fileClass.headerSize ≤ header.headerSize
  entrySize : header.entrySize = fileClass.sectionHeaderSize
  tableOffset : header.tableOffset ≠ 0
  /-- The section headers lie one after another. -/
  placed : ∀ i (h : SectionHeader), sections[i]? = some h →
    h.Stored fileClass order file (header.tableOffset + i * fileClass.sectionHeaderSize)
  /-- The number of sections is in the file header or in section 0. -/
  count : header.count = sections.length ∨
    header.count = 0 ∧ sections[0]?.map (·.size) = some sections.length
  /-- So is the index of the name table. -/
  nameTableIndex : header.nameTableIndex = names ∧ names ≠ 0xffff ∨
    header.nameTableIndex = 0xffff ∧ sections[0]?.map (·.link) = some names

namespace Image

variable {header : FileHeader} {sections : List SectionHeader} {names : Nat}

theorem identify_eq (himage : Image fileClass order file header sections names) :
    identify file = .ok (fileClass, order) := by
  have hlen := himage.stored.length
  have hclass : file.getD 4 0 = fileClass.identByte := by
    rw [List.getD_eq_getElem?_getD, himage.classByte]
    rfl
  have hdata : file.getD 5 0 = order.identByte := by
    rw [List.getD_eq_getElem?_getD, himage.dataByte]
    rfl
  have hversion : file.getD 6 0 = 1 := by
    rw [List.getD_eq_getElem?_getD, himage.versionByte]
    rfl
  unfold identify
  simp only [hclass, hdata, hversion, himage.magic]
  cases fileClass with
  | elf32 =>
    have hsize : ¬ file.length < ElfClass.elf32.headerSize := Nat.not_lt.mpr hlen
    simp only [if_neg hsize]
    cases order <;> rfl
  | elf64 =>
    have hsize : ¬ file.length < ElfClass.elf64.headerSize := Nat.not_lt.mpr hlen
    have hsmall : ¬ file.length < ElfClass.elf32.headerSize := by
      simp only [ElfClass.headerSize] at hsize ⊢
      omega
    simp only [if_neg hsmall, hsize, and_false, if_false]
    cases order <;> rfl

/-- In both schemes the sections are counted. -/
theorem sectionCount_eq (himage : Image fileClass order file header sections names)
    (hne : sections ≠ []) : sectionCount fileClass order header file = .ok sections.length := by
  have hlen := List.length_pos_iff.mpr hne
  unfold sectionCount
  rcases himage.count with hcount | ⟨hcount, hsize⟩
  · rw [if_pos (by omega), hcount]
  · rw [if_neg (by omega), if_neg (by rw [himage.entrySize]; simp)]
    obtain ⟨first, hfirst, hsize⟩ := Option.map_eq_some_iff.mp hsize
    have hstored := himage.placed 0 first hfirst
    rw [Nat.zero_mul, Nat.add_zero] at hstored
    have hread := ((hstored.readsAt 0).reporting .sectionTable).value_eq
    simp only [hread, Except.map, hsize]

theorem readSections_eq (himage : Image fileClass order file header sections names)
    (hne : sections ≠ []) :
    readSections fileClass order header file = .ok (numbered 0 sections) := by
  have hcount := himage.sectionCount_eq hne
  have hpos := List.length_pos_iff.mpr hne
  have htable := ((readsAt_decodeMany 0 himage.placed).reporting .sectionTable).value_eq
  -- The last header ends inside the file, and so does the table.
  have hlast := (himage.placed (sections.length - 1) _
    (List.getElem?_eq_getElem (by omega))).length
  rw [Nat.add_assoc, ← Nat.succ_mul, Nat.succ_eq_add_one, Nat.sub_add_cancel hpos] at hlast
  unfold readSections
  rw [if_neg himage.tableOffset, hcount]
  cases hn : sections.length with
  | zero => omega
  | succ n =>
    rw [hn] at hlast htable
    simp only [himage.entrySize, ne_eq, not_true_eq_false, if_false, Nat.not_lt.mpr hlast, htable]

/-- In both schemes the name table is found. -/
theorem findNameTable_eq (himage : Image fileClass order file header sections names)
    (hnames : names ≠ 0) {table : SectionHeader} (htable : sections[names]? = some table) :
    findNameTable header (numbered 0 sections) = .ok { table with index := names } := by
  have hindex : (if header.nameTableIndex = 0xffff then
      (numbered 0 sections).head?.map (·.link) else some header.nameTableIndex) = some names := by
    rcases himage.nameTableIndex with ⟨hdirect, hne⟩ | ⟨hescape, hlink⟩
    · rw [if_neg (by omega), hdirect]
    · obtain ⟨first, hfirst, rfl⟩ := Option.map_eq_some_iff.mp hlink
      rw [if_pos hescape, List.head?_eq_getElem?, getElem?_numbered 0 hfirst]
      rfl
  have hfound := getElem?_numbered 0 htable
  rw [Nat.zero_add] at hfound
  unfold findNameTable
  simp only [hindex]
  cases names with
  | zero => exact absurd rfl hnames
  | succ index => simp only [hfound]

end Image

end Elf

/-! ### Names -/

namespace Decoder

/-- What is read as a string is what stands before the first zero byte. -/
theorem value_terminated_eq_some {bs text : Bytes} : (terminated.value bs).toOption = some text ↔
    ∃ rest, bs = text ++ 0 :: rest ∧ ∀ b ∈ text, b ≠ 0 := by
  constructor
  · intro h
    cases hvalue : terminated.value bs with
    | error cause =>
      rw [hvalue] at h
      cases h
    | ok found =>
      rw [hvalue] at h
      cases h
      obtain ⟨rest, hrun⟩ := value_eq_ok.mp hvalue
      exact ⟨rest, terminated_eq_ok hrun⟩
  · rintro ⟨rest, rfl, htext⟩
    rw [value_eq_ok.mpr ⟨rest, terminated_append htext rest⟩]
    rfl

theorem value_terminated_eq_none {bs : Bytes} :
    (terminated.value bs).toOption = none ↔ 0 ∉ bs := by
  rw [Option.eq_none_iff_forall_ne_some]
  constructor
  · intro h hmem
    obtain ⟨text, rest, rfl, htext⟩ := List.eq_append_cons_of_mem hmem
    have hne : ∀ b ∈ text, b ≠ 0 := fun b hb hzero => htext (hzero ▸ hb)
    exact h text (value_terminated_eq_some.mpr ⟨rest, rfl, hne⟩)
  · intro hmem text h
    obtain ⟨rest, rfl, -⟩ := value_terminated_eq_some.mp h
    exact hmem (List.mem_append_right text List.mem_cons_self)

end Decoder

namespace ElfFile

open Elf

/-- In `table`, this string stands at `start`, with the zero byte that ends it. -/
def NameAt (table : Bytes) (start : Nat) (name : Bytes) : Prop :=
  ∃ before rest, table = before ++ (name ++ 0 :: rest) ∧ before.length = start ∧ ∀ b ∈ name, b ≠ 0

theorem nameAt_iff {table name : Bytes} {start : Nat} : NameAt table start name ↔
    start ≤ table.length ∧ (Decoder.terminated.value (table.drop start)).toOption = some name := by
  rw [Decoder.value_terminated_eq_some]
  constructor
  · rintro ⟨before, rest, hbytes, hlen, hname⟩
    obtain ⟨hstart, hdrop⟩ := Decoder.drop_eq_iff.mpr ⟨before, hbytes, hlen⟩
    exact ⟨hstart, rest, hdrop, hname⟩
  · rintro ⟨hstart, rest, hdrop, hname⟩
    obtain ⟨before, hbytes, hlen⟩ := Decoder.drop_eq_iff.mp ⟨hstart, hdrop⟩
    exact ⟨before, rest, hbytes, hlen, hname⟩

instance (table : Bytes) (start : Nat) (name : Bytes) : Decidable (NameAt table start name) :=
  decidable_of_iff' _ nameAt_iff

variable {f : ElfFile} {start : Nat}

/-- The bytes of the name table. -/
def names (f : ElfFile) : Bytes := (f.bytes.drop f.nameTable.offset).take f.nameTable.size

/-- Names are looked for in the bytes of the name table and nowhere else. -/
theorem nameAt?_eq
    (h : f.nameTable.size = 0 ∨ f.nameTable.offset + f.nameTable.size ≤ f.bytes.length) :
    f.nameAt? start = if start ≤ f.names.length
      then (Decoder.terminated.value (f.names.drop start)).toOption else none := by
  by_cases hin : f.nameTable.offset + f.nameTable.size ≤ f.bytes.length
  · have hlen : f.names.length = f.nameTable.size := by
      rw [names, List.length_take, List.length_drop]
      omega
    unfold nameAt?
    simp only [hin, true_and, hlen]
    rfl
  · -- A table of no bytes may be said to start behind the file. It has no names either way.
    have hnil : f.names = [] := by
      rw [names, h.resolve_right hin]
      exact List.take_zero
    unfold nameAt?
    rw [if_neg (fun hboth => hin hboth.1), hnil, List.drop_nil]
    split <;> rfl

theorem nameAt?_eq_some
    (h : f.nameTable.size = 0 ∨ f.nameTable.offset + f.nameTable.size ≤ f.bytes.length)
    {name : Bytes} : f.nameAt? start = some name ↔ NameAt f.names start name := by
  rw [nameAt?_eq h, nameAt_iff]
  by_cases hstart : start ≤ f.names.length
  · rw [if_pos hstart, and_iff_right hstart]
  · rw [if_neg hstart]
    exact ⟨fun hnone => (nomatch hnone), fun hname => absurd hname.1 hstart⟩

theorem nameAt?_eq_none
    (h : f.nameTable.size = 0 ∨ f.nameTable.offset + f.nameTable.size ≤ f.bytes.length) :
    f.nameAt? start = none ↔ f.names.length < start ∨ 0 ∉ f.names.drop start := by
  rw [nameAt?_eq h]
  by_cases hstart : start ≤ f.names.length
  · rw [if_pos hstart, Decoder.value_terminated_eq_none]
    constructor
    · exact Or.inr
    · rintro (hlt | hmem)
      · omega
      · exact hmem
  · rw [if_neg hstart]
    simp only [Nat.lt_of_not_le hstart, true_or]

/-- **Section tables round-trip.** A file that has these section headers, and a string table at
the index it gives for the name table, is read without a fault. Class and byte order are those
of the file, the headers come back in their order and with their indices, and the name of each
section is what stands in the name table from its name offset to the next zero byte. It has none
if that offset is behind the table, or there is no zero byte from there on. -/
theorem ofBytes_image {fileClass : ElfClass} {order : ByteOrder} {file : Bytes}
    {header : FileHeader} {sections : List SectionHeader} {index : Nat} {table : SectionHeader}
    (himage : Image fileClass order file header sections index) (hindex : 1 ≤ index)
    (htable : sections[index]? = some table) (htype : table.type = stringTableType)
    (hin : table.size = 0 ∨ table.offset + table.size ≤ file.length) :
    ∃ f, ofBytes file = .ok f ∧ f.fileClass = fileClass ∧ f.order = order ∧
      f.sections = numbered 0 sections ∧
      f.names = (file.drop table.offset).take table.size ∧
      ∀ i (h : SectionHeader), sections[i]? = some h →
        (∀ name, f.sectionName? i = some name ↔ NameAt f.names h.name name) ∧
        (f.sectionName? i = none ↔ f.names.length < h.name ∨ 0 ∉ f.names.drop h.name) := by
  have hne : sections ≠ [] := by
    rintro rfl
    cases htable
  have hheader := (himage.stored.readsAt.reporting .fileHeader).value_eq
  rw [List.drop_zero] at hheader
  have hsize : ¬ header.headerSize < fileClass.headerSize := Nat.not_lt.mpr himage.headerSize
  have hcontents : ({ table with index } : SectionHeader).contents? file ≠ none := by
    unfold SectionHeader.contents? stretch?
    rw [if_neg (by rw [htype]; decide)]
    split
    · exact Option.some_ne_none _
    · next hpos =>
      rw [if_pos (hin.resolve_left hpos)]
      exact Option.some_ne_none _
  refine ⟨⟨file, fileClass, order, numbered 0 sections, { table with index }⟩,
    ?_, rfl, rfl, rfl, rfl, ?_⟩
  · unfold ofBytes
    rw [himage.identify_eq]
    simp only [bind, Except.bind, hheader, if_neg hsize, himage.readSections_eq hne,
      himage.findNameTable_eq (by omega) htable]
    rw [if_neg (not_not_intro htype), if_neg hcontents]
    rfl
  · intro i h hi
    unfold sectionName?
    rw [getElem?_numbered 0 hi]
    exact ⟨fun name => nameAt?_eq_some hin, nameAt?_eq_none hin⟩

/-- A file header that leaves both the count and the name table to section 0. -/
def escapedHeader : FileHeader where
  tableOffset := 56
  headerSize := 52
  entrySize := 40
  count := 0
  nameTableIndex := 0xffff

/-- Three sections, of which the second has the names. It has no end for that of the third. -/
def escapedSections : List SectionHeader :=
  [⟨0, 0, 0, 0, 0, 3, 1, 0⟩, ⟨1, 1, 3, 0, 52, 4, 0, 0⟩, ⟨2, 3, 1, 6, 0, 9, 2, 1⟩]

/-- The file of these sections: its header, the names and the section headers. -/
def escapedFile : Bytes :=
  magic ++ [1, 2, 1] ++ List.replicate 25 0 ++ [0, 0, 0, 56, 0, 0, 0, 0, 0, 52, 0, 0, 0, 0]
    ++ [0, 40, 0, 0, 0xff, 0xff] ++ [0, 0x61, 0, 0x62]
    ++ escapedSections.flatMap (SectionHeader.encode .elf32 .big)

theorem image_escapedFile : Image .elf32 .big escapedFile escapedHeader escapedSections 1 where
  magic := by decide +kernel
  classByte := by decide +kernel
  dataByte := by decide +kernel
  versionByte := by decide +kernel
  stored := by constructor <;> decide +kernel
  headerSize := by decide
  entrySize := by decide
  tableOffset := by decide
  placed
    | 0, _, rfl => by constructor <;> decide +kernel
    | 1, _, rfl => by constructor <;> decide +kernel
    | 2, _, rfl => by constructor <;> decide +kernel
  count := .inr (by decide)
  nameTableIndex := .inr (by decide)

theorem ofBytes_image_escapedFile : ∃ f, ofBytes escapedFile = .ok f ∧ f.fileClass = .elf32 ∧
    f.order = .big ∧ f.sections = escapedSections ∧
    f.sectionName? 1 = some [0x61] ∧ f.sectionName? 2 = none := by
  have htable : escapedSections[1]? = some ⟨1, 1, 3, 0, 52, 4, 0, 0⟩ := rfl
  obtain ⟨f, hf, hclass, horder, hsections, hnames, hall⟩ :=
    ofBytes_image image_escapedFile (by decide) htable rfl (.inr (by decide +kernel))
  have hbytes : f.names = [0, 0x61, 0, 0x62] := by
    rw [hnames]
    decide +kernel
  rw [hbytes] at hall
  have hname := (hall 1 _ rfl).1 [0x61]
  have hend := (hall 2 _ rfl).2
  exact ⟨f, hf, hclass, horder, hsections.trans (by decide),
    hname.mpr ⟨[0], [0x62], rfl, rfl, by simp⟩, hend.mpr (.inr (by simp))⟩

end ElfFile

end Dwarf
