import Dwarf.Proofs.Elf.Image
/-!
# What has been checked of an accepted file

A file is looked through once, when it is read. Later questions go to the headers that were
found then, and they rely on what was checked at that time and is not checked again: that the
header of a section says where in the table it is, and that there is a string table which the
file can show.

> `ElfFile.accepted_of_ofBytes`: of every file that was read all of this is true, whatever
> its bytes are.

Nothing is checked of the places that the headers give for the bytes of the other sections.
-/

namespace Dwarf

namespace Elf

open Decoder

variable {fileClass : ElfClass} {order : ByteOrder} {file : Bytes}

/-- Each header says where it is in a table that starts with number `first`. -/
def Numbered (first : Nat) (sections : List SectionHeader) : Prop :=
  ∀ i (h : SectionHeader), sections[i]? = some h → h.index = first + i

theorem numbered_nil (first : Nat) : Numbered first [] := by
  intro i h hi
  cases hi

/-- The index of a header is told, and not read. -/
theorem SectionHeader.decode_index (fileClass : ElfClass) (order : ByteOrder) (index : Nat) :
    decode fileClass order index = (fun h => { h with index }) <$> decode fileClass order 0 := by
  simp only [decode, map_bind, map_pure]

theorem SectionHeader.index_of_decode {index : Nat} {bs rest : Bytes} {h : SectionHeader}
    (hrun : (decode fileClass order index).run bs = .ok h rest) : h.index = index := by
  rw [decode_index, ← bind_pure_comp] at hrun
  obtain ⟨h', mid, -, hdone⟩ := run_bind_eq_ok.mp hrun
  cases hdone
  rfl

theorem numbered_of_decodeMany {first count : Nat} {bs rest : Bytes}
    {sections : List SectionHeader}
    (hrun : (SectionHeader.decodeMany fileClass order first count).run bs = .ok sections rest) :
    Numbered first sections := by
  induction count generalizing first bs sections with
  | zero =>
    cases hrun
    exact numbered_nil first
  | succ count ih =>
    obtain ⟨head, mid, hhead, hrun⟩ := run_bind_eq_ok.mp hrun
    obtain ⟨others, mid', hothers, hdone⟩ := run_bind_eq_ok.mp hrun
    cases hdone
    intro i h hi
    cases i with
    | zero =>
      cases hi
      exact SectionHeader.index_of_decode hhead
    | succ i =>
      have hindex := ih hothers i h hi
      omega

theorem numbered_of_readSections {header : FileHeader} {sections : List SectionHeader}
    (hread : readSections fileClass order header file = .ok sections) : Numbered 0 sections := by
  unfold readSections at hread
  split at hread
  · cases hread
    exact numbered_nil 0
  · split at hread
    · cases hread
    · cases hread
      exact numbered_nil 0
    · split at hread
      · cases hread
      · split at hread
        · cases hread
        · obtain ⟨rest, hrun⟩ := value_eq_ok.mp hread
          exact numbered_of_decodeMany (reporting_eq_ok hrun)

/-- The name table is one of the sections. -/
theorem mem_of_findNameTable {header : FileHeader} {sections : List SectionHeader}
    {table : SectionHeader} (hfind : findNameTable header sections = .ok table) :
    table ∈ sections := by
  unfold findNameTable at hfind
  simp only at hfind
  split at hfind
  · cases hfind
  · cases hfind
  · split at hfind
    · next htable =>
      cases hfind
      exact List.mem_of_getElem? htable
    · cases hfind

theorem orderOfByte_eq_ok {value : Nat} (h : orderOfByte value = .ok order) :
    value = order.identByte.toNat := by
  unfold orderOfByte at h
  split at h <;> cases h <;> rfl

theorem classOfByte_eq_ok {value : Nat} (h : classOfByte value = .ok fileClass) :
    value = fileClass.identByte.toNat := by
  unfold classOfByte at h
  split at h <;> cases h <;> rfl

/-- What a file of this class and byte order starts with. -/
structure Identified (fileClass : ElfClass) (order : ByteOrder) (file : Bytes) : Prop where
  /-- The file is long enough for the header of its class. -/
  length : fileClass.headerSize ≤ file.length
  magic : file.take 4 = magic
  classByte : file[4]? = some fileClass.identByte
  dataByte : file[5]? = some order.identByte

theorem identified_of_identify (hidentify : identify file = .ok (fileClass, order)) :
    Identified fileClass order file := by
  unfold identify at hidentify
  simp only at hidentify
  split at hidentify
  · cases hidentify
  next hsmall =>
  have hbyte : ∀ i (b : UInt8), i < 52 → (file.getD i 0).toNat = b.toNat → file[i]? = some b := by
    intro i b hi hb
    have hlt : i < file.length := Nat.lt_of_lt_of_le hi (Nat.not_lt.mp hsmall)
    rw [List.getD_eq_getElem?_getD, List.getElem?_eq_getElem hlt] at hb
    rw [List.getElem?_eq_getElem hlt]
    exact congrArg some (UInt8.toNat_inj.mp hb)
  split at hidentify
  · cases hidentify
  next hlarge =>
  split at hidentify
  · cases hidentify
  next hmagic =>
  obtain ⟨_, hclass, hidentify⟩ := Fallible.bind_eq_ok.mp hidentify
  obtain ⟨_, horder, hidentify⟩ := Fallible.bind_eq_ok.mp hidentify
  split at hidentify
  · cases hidentify
  · cases hidentify
    have hclass := classOfByte_eq_ok hclass
    refine ⟨?_, Decidable.not_not.mp hmagic, hbyte 4 _ (by decide) hclass,
      hbyte 5 _ (by decide) (orderOfByte_eq_ok horder)⟩
    cases fileClass with
    | elf32 => exact Nat.not_lt.mp hsmall
    | elf64 => exact Nat.not_lt.mp fun hshort => hlarge ⟨hclass, hshort⟩

/-! ### The bytes of a section -/

/-- The file has all bytes of the section, if it has to have any. -/
def SectionHeader.Inside (file : Bytes) (h : SectionHeader) : Prop :=
  h.size = 0 ∨ h.offset + h.size ≤ file.length

theorem SectionHeader.contents?_of_empty {h : SectionHeader}
    (hempty : h.type = noBitsType ∨ h.size = 0) : h.contents? file = some [] := by
  unfold contents? stretch?
  rcases hempty with htype | hsize
  · rw [if_pos htype]
  · rw [if_pos hsize, ite_self]

theorem SectionHeader.contents?_of_stored {h : SectionHeader} (htype : h.type ≠ noBitsType)
    (hsize : h.size ≠ 0) (hin : h.offset + h.size ≤ file.length) :
    h.contents? file = some ((file.take (h.offset + h.size)).drop h.offset) := by
  unfold contents? stretch?
  rw [if_neg htype, if_neg hsize, if_pos hin, List.drop_take, Nat.add_sub_cancel_left]

theorem SectionHeader.contents?_eq_none {h : SectionHeader} :
    h.contents? file = none ↔
      h.type ≠ noBitsType ∧ h.size ≠ 0 ∧ file.length < h.offset + h.size := by
  unfold contents? stretch?
  by_cases htype : h.type = noBitsType
  · simp [htype]
  · by_cases hsize : h.size = 0
    · simp [hsize]
    · simp [htype, hsize]

end Elf

namespace ElfFile

open Elf

/-- What is known of a file that was read from these bytes. -/
structure Accepted (file : Bytes) (f : ElfFile) : Prop where
  bytes : f.bytes = file
  identified : identify file = .ok (f.fileClass, f.order)
  numbered : Numbered 0 f.sections
  /-- The name table is a section, and a string table. -/
  nameTable : f.nameTable ∈ f.sections
  nameTableType : f.nameTable.type = stringTableType
  nameTableInside : f.nameTable.Inside file

variable {file : Bytes} {f : ElfFile}

theorem accepted_of_ofBytes (hf : ofBytes file = .ok f) : Accepted file f := by
  unfold ofBytes at hf
  obtain ⟨⟨fileClass, order⟩, hidentified, hf⟩ := Fallible.bind_eq_ok.mp hf
  obtain ⟨header, hheader, hf⟩ := Fallible.bind_eq_ok.mp hf
  split at hf
  · cases hf
  · obtain ⟨sections, hsections, hf⟩ := Fallible.bind_eq_ok.mp hf
    obtain ⟨nameTable, hnameTable, hf⟩ := Fallible.bind_eq_ok.mp hf
    split at hf
    · cases hf
    · next htype =>
      split at hf
      · cases hf
      · next hcontents =>
        cases hf
        have hstring := Decidable.not_not.mp htype
        -- A string table is not of the type that has no bytes.
        have hbits : nameTable.type ≠ noBitsType := by
          rw [hstring]
          decide
        have hinside : nameTable.Inside file := by
          have hout : ¬ (nameTable.size ≠ 0 ∧ file.length < nameTable.offset + nameTable.size) :=
            fun hboth => hcontents (SectionHeader.contents?_eq_none.mpr ⟨hbits, hboth⟩)
          unfold SectionHeader.Inside
          omega
        exact ⟨rfl, hidentified, numbered_of_readSections hsections,
          mem_of_findNameTable hnameTable, hstring, hinside⟩

/-- A header of the table is found again by its index. -/
theorem Accepted.getElem?_index (hf : Accepted file f) {h : SectionHeader}
    (hh : h ∈ f.sections) : f.sections[h.index]? = some h := by
  obtain ⟨i, hi⟩ := List.getElem?_of_mem hh
  rw [hf.numbered i h hi, Nat.zero_add]
  exact hi

end ElfFile

end Dwarf
