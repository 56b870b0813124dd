import Dwarf.Proofs.Attribute.Delimited
import Dwarf.Proofs.Bytes.Leb128
import Dwarf.Proofs.Elf.Lookup
import Dwarf.Proofs.Elf.Refusal
import Dwarf.Proofs.Fault.Contents
/-!
# The kind of a fault says where it arose

A caller is told the kind of a fault and gives up accordingly: the file, the work that needs
one section, or one unit or table. `Fault.kind` puts every cause that it does not list into the
last kind, so that the kinds are right is a matter of which causes each operation has.

> `Fault.kind_of_stage`: the kind is that of the step that failed, and whether a file has the
> wrong format is decided by its header alone.

The generic readers also refuse numbers that have no room in a machine word, and widths that no
integer has. Such guards are written out here, to say that they refuse nothing:

> `Layout.guarded_eq`: what the forms read is read in the same way with guards and without.
-/

namespace Dwarf

/-! ### Guards -/

namespace Decoder

variable {α : Type} {order : ByteOrder}

/-- Refuse a value if a number in it has more than 64 bits. -/
def guarded (number : α → Nat) (d : Decoder α) : Decoder α := do
  let value ← d
  if number value < 0x10000000000000000 then return value else fail .offsetWidth

/-- There is nothing to refuse if every value that can be spelled has room. -/
theorem guarded_eq {number : α → Nat} {d : Decoder α} (hd : d.Delimited)
    (hroom : ∀ bytes value, d.Spells bytes value → number value < 0x10000000000000000) :
    d.guarded number = d := by
  refine Decoder.ext fun bs => ?_
  rw [guarded, run_bind]
  cases hrun : d.run bs with
  | fault cause rest => rfl
  | ok value rest =>
    obtain ⟨bytes, -, hspell⟩ := hd.run_eq_ok.mp hrun
    simp only [if_pos (hroom bytes value hspell), run_pure]

theorem guarded_uint {width : Nat} (h : width ≤ 8) :
    (uint order width).guarded id = uint order width := by
  refine guarded_eq (delimited_uint order width) fun bytes value hspell => ?_
  obtain ⟨hlt, -⟩ := ByteOrder.isInteger_iff.mp (spells_uint.mp hspell)
  exact Nat.lt_of_lt_of_le hlt (Dwarf.placeValue_mono (by decide) h)

theorem guarded_offset (format : Format) :
    (offset order format).guarded id = offset order format :=
  guarded_uint (by cases format <;> decide)

theorem guarded_unsigned : unsigned.guarded id = unsigned :=
  guarded_eq delimited_unsigned fun _ _ hspell => (spells_unsigned.mp hspell).fits

theorem guarded_initialLength :
    (initialLength order).guarded Prod.fst = initialLength order := by
  refine guarded_eq (delimited_initialLength order) fun bytes value hspell => ?_
  obtain ⟨length, format⟩ := value
  obtain ⟨hholds, -⟩ := spells_initialLength.mp hspell
  cases format with
  | dwarf32 => exact Nat.lt_trans hholds (by decide)
  | dwarf64 => exact hholds

theorem integer_eq_uint {width : Nat} (h : 1 ≤ width ∧ width ≤ 8) :
    integer order width = uint order width := if_pos h

end Decoder

namespace Layout

/-- Read a payload with all guards: integers have one to eight bytes, and each number has at
most 64 bits. -/
def guarded (order : ByteOrder) : (layout : Layout) → Decoder layout.Payload
  | uint width => (Decoder.integer order width).guarded id
  | address size => (Decoder.address order size).guarded id
  | unsigned => Decoder.unsigned.guarded id
  | block width =>
    if width = 1 ∨ width = 2 ∨ width = 4 then do
      let count ← (Decoder.integer order width).guarded id
      Decoder.take count
    else Decoder.fail (.addressSize width)
  | countedBlock => do
    let count ← Decoder.unsigned.guarded id
    Decoder.take count
  | layout => layout.decode order

theorem guarded_eq (order : ByteOrder) {layout : Layout} (hread : layout.Readable)
    (hwidths : layout.HasWidths) : layout.guarded order = layout.decode order := by
  cases layout with
  | uint width =>
    show (Decoder.integer order width).guarded id = Decoder.uint order width
    rw [Decoder.integer_eq_uint hread, Decoder.guarded_uint hread.2]
  | address size =>
    have hsizes : size = 1 ∨ size = 2 ∨ size = 4 ∨ size = 8 := hwidths
    show (Decoder.address order size).guarded id = Decoder.address order size
    rw [Decoder.address, if_pos hsizes, Decoder.guarded_uint (by omega)]
  | unsigned => exact Decoder.guarded_unsigned
  | block width =>
    have hwidths : width = 1 ∨ width = 2 ∨ width = 4 := hwidths
    have hwidth : 1 ≤ width ∧ width ≤ 8 := by omega
    show (if width = 1 ∨ width = 2 ∨ width = 4 then
      (Decoder.integer order width).guarded id >>= Decoder.take
      else Decoder.fail (.addressSize width)) = Decoder.block order width
    rw [Decoder.integer_eq_uint hwidth, Decoder.guarded_uint hwidth.2]
    rfl
  | countedBlock =>
    show Decoder.unsigned.guarded id >>= Decoder.take = Decoder.countedBlock
    rw [Decoder.guarded_unsigned]
    rfl
  | _ => rfl

end Layout

/-! ### Operations -/

namespace Fault

/-- The causes that no operation fails for. -/
def unused : List Fault := [inputFailure, offsetWidth, fileHeader]

/-- Something in the contents of a section could not be read for this cause: a table, a header, a
unit or a string that was asked for by its place, or the next one of a sequence. -/
inductive FromContents : Fault → Prop where
  | table {contents : Bytes} {offset : Nat} {cause : Fault}
    (h : AbbrevTable.atOffset contents offset = .error cause) : FromContents cause
  | nextTable {c : Cursor} {cause : Fault}
    (h : (c.next AbbrevTable.item).1 = .error cause) : FromContents cause
  | header {order : ByteOrder} {info : Bytes} {offset : Nat} {cause : Fault}
    (h : UnitHeader.atOffset order info offset = .error cause) : FromContents cause
  | nextHeader {order : ByteOrder} {c : Cursor} {cause : Fault}
    (h : (c.next (UnitHeader.item order)).1 = .error cause) : FromContents cause
  | unit {abbrevs : Bytes} {header : UnitHeader} {cause : Fault} (hparsed : header.Parsed)
    (h : UnitTree.decode abbrevs header = .error cause) : FromContents cause
  | units {s : Sections} {cause : Fault} (h : UnitTree.all s = .error cause) : FromContents cause
  | string {contents : Bytes} {offset : Nat} {cause : Fault}
    (h : stringAt contents offset = .error cause) : FromContents cause
  | nextString {c : Cursor} {cause : Fault} (h : (c.next stringItem).1 = .error cause) :
    FromContents cause
  | valueString {s : Sections} {value : Value} {cause : Fault}
    (h : s.stringOf value = .error cause) : FromContents cause

/-- The bytes of a section could not be had for this cause. -/
inductive FromSection : Fault → Prop where
  | data {f : ElfFile} {header : Elf.SectionHeader} {cause : Fault}
    (h : f.sectionData header = .error cause) : FromSection cause
  | debug {f : ElfFile} {id : SectionId} {cause : Fault} (h : f.debugSection id = .error cause) :
    FromSection cause

/-- The causes in the contents of a section, all together. -/
inductive OfContents : Fault → Prop where
  | ofTable {cause : Fault} (h : cause.OfTable) : OfContents cause
  | ofUnit {cause : Fault} (h : cause.OfUnit) : OfContents cause
  | ofEntry {cause : Fault} (h : cause.OfEntry) : OfContents cause
  | offsetBounds : OfContents .offsetBounds
  | notAString : OfContents .notAString

variable {cause : Fault}

theorem OfContents.of_unexpectedEnd : OfContents .unexpectedEnd := .ofUnit (.inl rfl)

theorem FromContents.ofContents (h : cause.FromContents) : cause.OfContents := by
  cases h with
  | table h =>
    rcases AbbrevTable.raises_atOffset h with rfl | h
    · exact .offsetBounds
    · exact .ofTable h
  | nextTable h => exact .ofTable (Cursor.raises_next AbbrevTable.raises_item h)
  | header h =>
    rcases UnitHeader.raises_atOffset h with rfl | h
    · exact .offsetBounds
    · exact .ofUnit h
  | nextHeader h => exact .ofUnit (Cursor.raises_next (UnitHeader.raises_decode _) h)
  | unit hparsed h =>
    rcases UnitTree.raises_decode hparsed h with rfl | h | h
    · exact .offsetBounds
    · exact .ofTable h
    · exact .ofEntry h
  | units h =>
    rcases UnitTree.raises_all h with rfl | h | h | h
    · exact .offsetBounds
    · exact .ofTable h
    · exact .ofEntry h
    · exact .ofUnit h
  | string h =>
    rcases raises_stringAt h with rfl | rfl
    · exact .offsetBounds
    · exact .of_unexpectedEnd
  | nextString h =>
    obtain rfl := Cursor.raises_next raises_stringItem h
    exact .of_unexpectedEnd
  | valueString h =>
    rcases Sections.raises_stringOf h with rfl | rfl | rfl
    · exact .notAString
    · exact .offsetBounds
    · exact .of_unexpectedEnd

/-- The cause spoils no more than a unit or a table, and is one that there is. -/
def InStream (cause : Fault) : Prop := cause.kind = .stream ∧ cause ∉ unused

theorem OfValue.inStream (h : cause.OfValue) : cause.InStream := by
  cases h <;> exact ⟨rfl, by decide⟩

theorem OfAttribute.inStream (h : cause.OfAttribute) : cause.InStream := by
  cases h with
  | ofValue h => exact h.inStream
  | _ => exact ⟨rfl, by simp [unused]⟩

theorem OfEntry.inStream (h : cause.OfEntry) : cause.InStream := by
  cases h with
  | ofAttribute h => exact h.inStream
  | _ => exact ⟨rfl, by simp [unused]⟩

theorem OfTable.inStream (h : cause.OfTable) : cause.InStream := by
  cases h with
  | ofValue h => exact h.inStream
  | _ => exact ⟨rfl, by simp [unused]⟩

theorem OfUnit.inStream (h : cause.OfUnit) : cause.InStream := by
  rcases h with rfl | h
  · exact OfValue.unexpectedEnd.inStream
  · cases h <;> exact ⟨rfl, by simp [unused]⟩

theorem OfContents.inStream (h : cause.OfContents) : cause.InStream := by
  cases h with
  | ofTable h => exact h.inStream
  | ofUnit h => exact h.inStream
  | ofEntry h => exact h.inStream
  | _ => exact ⟨rfl, by decide⟩

theorem FromSection.structural (h : cause.FromSection) :
    cause.kind = .structural ∧ cause ∉ unused := by
  cases h with
  | data h =>
    obtain rfl := ElfFile.sectionData_eq_error h
    exact ⟨rfl, by simp [unused]⟩
  | debug h =>
    rcases ElfFile.debugSection_eq_error h with rfl | ⟨header, rfl⟩ <;>
      exact ⟨rfl, by simp [unused]⟩

/-- A file is refused for a fault of the first kind or of the second. -/
theorem kind_of_ofBytes {file : Bytes} (h : ElfFile.ofBytes file = .error cause) :
    (cause.kind = .format ∨ cause.kind = .structural) ∧ cause ∉ unused := by
  rcases ElfFile.ofBytes_eq_error h with ⟨-, hheader⟩ | ⟨-, htable⟩
  · refine ⟨.inl hheader.kind_eq, ?_⟩
    cases hheader <;> simp [unused]
  · refine ⟨.inr htable.kind_eq, ?_⟩
    cases htable <;> simp [unused]

/-- **The kind of a fault is that of the step that failed.** What fails in the contents of a
section is of the stream kind. What keeps the bytes of a section from being had is of the
structural kind. What a file is refused for is of the format kind or of the structural kind, and
files that agree in the bytes of their headers, and have all of them, are refused for the same
causes of the format kind. The entries of a unit whose header was read have no fault that is one
of its header, and none of an offset.

None of this ever ends with a failure of the input, with a number that has no room or with a
header that cannot be read: the guards against such numbers, and the one for widths, let
everything pass that the forms and the headers ask for. -/
theorem kind_of_stage :
    (∀ cause : Fault, cause.FromContents → cause.kind = .stream ∧ cause ∉ unused) ∧
    (∀ cause : Fault, cause.FromSection → cause.kind = .structural ∧ cause ∉ unused) ∧
    (∀ (file : Bytes) (cause : Fault), ElfFile.ofBytes file = .error cause →
      (cause.kind = .format ∨ cause.kind = .structural) ∧ cause ∉ unused) ∧
    (∀ file file' : Bytes, Elf.SameHeader file file' → ∀ cause : Fault, cause.kind = .format →
      (ElfFile.ofBytes file = .error cause ↔ ElfFile.ofBytes file' = .error cause)) ∧
    (∀ header : UnitHeader, header.Parsed → ∀ (table : AbbrevTable) (cause : Fault),
      (Entry.all header table).fault = some cause →
        ¬ cause.OfHeader ∧ cause ≠ .offsetBounds ∧ cause.kind = .stream ∧ cause ∉ unused) ∧
    (∀ header : UnitHeader, header.Parsed → ∀ (const : Option Int) (form : Form),
      (form.layout header.encoding const).guarded header.order =
        (form.layout header.encoding const).decode header.order) ∧
    (∀ (order : ByteOrder) (format : Format),
      (Decoder.initialLength order).guarded Prod.fst = Decoder.initialLength order ∧
      (Decoder.offset order format).guarded id = Decoder.offset order format) := by
  -- What is left are the files with one header, the entries and the guards of their forms.
  refine ⟨fun cause h => h.ofContents.inStream, fun cause h => h.structural,
    fun file cause h => kind_of_ofBytes h, ?_, ?_, ?_,
    fun order format => ⟨Decoder.guarded_initialLength, Decoder.guarded_offset format⟩⟩
  · intro file file' hsame cause hkind
    rw [ElfFile.ofBytes_eq_format hkind, ElfFile.ofBytes_eq_format hkind, hsame.checkHeader_eq]
  · intro header hparsed table cause hfault
    have hentry := Entry.raises_all hparsed hfault
    exact ⟨hentry.not_ofHeader, hentry.ne_offsetBounds, hentry.inStream⟩
  · intro header hparsed const form
    exact Layout.guarded_eq header.order (Form.readable_layout header.encoding const form)
      (Form.widths_layout hparsed.hasAddresses const form)

/-- The header of a unit with one entry, whose code no table has to have. -/
def strayEntry : UnitHeader where
  offset := 0
  length := 8
  format := .dwarf32
  order := .little
  fields := { version := 4, addressSize := 8, abbrevOffset := 0, kind := .compilation }
  headerSize := 11
  entries := [5]

/-- A file header with version 0. -/
def versionless : Bytes := Elf.magic ++ [1, 1, 0] ++ List.replicate 45 0

theorem kind_of_stage_strayEntry :
    (∃ cause, UnitTree.decode [0] strayEntry = .error cause ∧ cause.kind = .stream) ∧
    (∃ cause, (default : ElfFile).debugSection .info = .error cause ∧ cause.kind = .structural) ∧
    ElfFile.ofBytes versionless = .error (.fileVersion 0) ∧
    ElfFile.ofBytes (versionless ++ [7]) = .error (.fileVersion 0) ∧
    fileVersion 0 ∉ unused ∧ ¬ (unknownCode 5).OfHeader := by
  obtain ⟨hcontents, hsection, hfile, hsame, hentries, -, -⟩ := kind_of_stage
  have hparsed : strayEntry.Parsed :=
    ⟨.little, 0, [8, 0, 0, 0, 4, 0, 0, 0, 0, 0, 8, 5], [], by decide +kernel⟩
  have hstray : (Entry.all strayEntry .empty).fault = some (.unknownCode 5) := by
    decide +kernel
  have htable : AbbrevTable.atOffset [0] 0 = .ok (.empty, 1) := by
    have hextend : AbbrevTable.decode.run [0] = .ok .empty [] := by
      show AbbrevTable.empty.extend [0] = _
      rw [AbbrevTable.extend]
      rfl
    simp [AbbrevTable.atOffset, hextend]
  have hdecode : UnitTree.decode [0] strayEntry = .error (.unknownCode 5) :=
    Fallible.bind_eq_error.mpr (.inr ⟨_, htable,
      Fallible.bind_eq_error.mpr (.inl (Progress.complete_eq_error.mpr hstray))⟩)
  have hmissing : (default : ElfFile).debugSection .info = .error (.missingSection .info) := rfl
  have hheader : Elf.SameHeader versionless (versionless ++ [7]) :=
    ⟨by decide, by decide, by decide⟩
  have hversion : ElfFile.ofBytes versionless = .error (.fileVersion 0) := by rfl
  exact ⟨⟨_, hdecode, (hcontents _ (.unit hparsed hdecode)).1⟩,
    ⟨_, hmissing, (hsection _ (.debug hmissing)).1⟩, hversion,
    (hsame _ _ hheader _ rfl).mp hversion, (hfile _ _ hversion).2,
    (hentries _ hparsed _ _ hstray).1⟩

end Fault

end Dwarf
