import Dwarf.Info.Tree
import Dwarf.Proofs.Bytes.Raising
import Dwarf.Proofs.Fallible
import Dwarf.Proofs.Info.Header
import Dwarf.StringTable
/-!
# The faults in the contents of a section

There are some forty causes of failure, and each operation has only a few of them. Which ones
these are is said here for all that is read in the sections of debugging information, by one
property of faults for each kind of thing: `Fault.OfTable` for tables of abbreviations,
`Fault.OfHeader` for the headers of units, `Fault.OfEntry` for their entries.

The generic readers refuse more than that. An address may not have a size of three bytes, a
length that opens a block not one of eight, and a number has to have room in a machine word.
The headers and the forms never ask for any of it:

> `Form.widths_layout`: with the address size of a header that was read, each form asks for
> widths that its reader has.

> `Entry.raises_all`: so the entries of such a unit have no fault that is one of its header.
-/

namespace Dwarf

/-! ### Causes -/

namespace Fault

/-- The bytes of a value end too early, or spell a number that is too great. -/
inductive OfValue : Fault → Prop where
  | unexpectedEnd : OfValue .unexpectedEnd
  | unsignedOverflow : OfValue .unsignedOverflow
  | signedOverflow : OfValue .signedOverflow

/-- The faults of an attribute. -/
inductive OfAttribute : Fault → Prop where
  | ofValue {cause : Fault} (h : cause.OfValue) : OfAttribute cause
  | unknownForm (form : Nat) : OfAttribute (.unknownForm form)
  | formRange (form : Nat) : OfAttribute (.formRange form)
  | indirectConstant : OfAttribute .indirectConstant

/-- The faults of the entries of a unit: those of an attribute, and those of their nesting. -/
inductive OfEntry : Fault → Prop where
  | ofAttribute {cause : Fault} (h : cause.OfAttribute) : OfEntry cause
  | unknownCode (code : Nat) : OfEntry (.unknownCode code)
  | nullWithoutScope : OfEntry .nullWithoutScope
  | trailingEntries : OfEntry .trailingEntries
  | openScopes (count : Nat) : OfEntry (.openScopes count)

/-- The faults of a table of abbreviations. -/
inductive OfTable : Fault → Prop where
  | ofValue {cause : Fault} (h : cause.OfValue) : OfTable cause
  | zeroTag : OfTable .zeroTag
  | zeroAttributeName : OfTable .zeroAttributeName
  | zeroForm : OfTable .zeroForm
  | childrenFlag (flag : Nat) : OfTable (.childrenFlag flag)
  | duplicateCode (code : Nat) : OfTable (.duplicateCode code)
  | tagRange (tag : Nat) : OfTable (.tagRange tag)
  | attributeNameRange (name : Nat) : OfTable (.attributeNameRange name)
  | formRange (form : Nat) : OfTable (.formRange form)

/-- The faults of a single declaration. That its code is used twice is not one of them. -/
def OfDeclaration (cause : Fault) : Prop := cause.OfTable ∧ ∀ code, cause ≠ .duplicateCode code

/-- The faults that only the header of a unit has. -/
inductive OfHeader : Fault → Prop where
  | reservedLength (length : Nat) : OfHeader (.reservedLength length)
  | unitTooLong (length : Nat) : OfHeader (.unitTooLong length)
  | unknownVersion (version : Nat) : OfHeader (.unknownVersion version)
  | addressSize (size : Nat) : OfHeader (.addressSize size)
  | unknownUnitType (code : Nat) : OfHeader (.unknownUnitType code)

/-- The header of a unit also may end too early. -/
def OfUnit (cause : Fault) : Prop := cause = .unexpectedEnd ∨ cause.OfHeader

theorem OfEntry.not_ofHeader {cause : Fault} (h : cause.OfEntry) : ¬ cause.OfHeader := by
  intro hheader
  cases hheader <;> cases h <;> rename_i h <;> cases h <;> rename_i h <;> cases h

theorem OfEntry.ne_offsetBounds {cause : Fault} (h : cause.OfEntry) : cause ≠ .offsetBounds := by
  rintro rfl
  cases h with
  | ofAttribute h => cases h with | ofValue h => cases h

end Fault

/-! ### Attributes and entries -/

/-- A layout asks for no size that the reader of an address or of a block refuses. -/
def Layout.HasWidths : Layout → Prop
  | address size => size = 1 ∨ size = 2 ∨ size = 4 ∨ size = 8
  | block width => width = 1 ∨ width = 2 ∨ width = 4
  | _ => True

/-- The address size is one that the header of a unit may give. -/
def Encoding.HasAddresses (enc : Encoding) : Prop := enc.addressSize = 4 ∨ enc.addressSize = 8

theorem Form.widths_layout {enc : Encoding} (henc : enc.HasAddresses) (const : Option Int)
    (form : Form) : (form.layout enc const).HasWidths := by
  have hword : enc.format.wordSize = 4 ∨ enc.format.wordSize = 8 := by
    cases enc.format
    · exact .inl rfl
    · exact .inr rfl
  unfold Encoding.HasAddresses at henc
  cases form with
  | addr => exact .inr (.inr henc)
  | refAddr =>
    show (Layout.address _).HasWidths
    split
    · exact .inr (.inr henc)
    · exact .inr (.inr hword)
  | block1 => exact .inl rfl
  | block2 => exact .inr (.inl rfl)
  | block4 => exact .inr (.inr rfl)
  | _ => trivial

theorem Layout.raises_decode (order : ByteOrder) {layout : Layout} (h : layout.HasWidths) :
    (layout.decode order).Raises Fault.OfAttribute := by
  have hend : Fault.OfAttribute .unexpectedEnd := .ofValue .unexpectedEnd
  have hover : Fault.OfAttribute .unsignedOverflow := .ofValue .unsignedOverflow
  cases layout with
  | uint width => exact Decoder.raises_uint hend order width
  | address size => exact Decoder.raises_address hend order h
  | unsigned => exact Decoder.raises_unsigned hend hover
  | signed => exact Decoder.raises_signed hend (.ofValue .signedOverflow)
  | block width => exact Decoder.raises_block hend order h
  | countedBlock => exact Decoder.raises_countedBlock hend hover
  | raw count => exact Decoder.raises_take hend count
  | terminated => exact Decoder.raises_terminated hend
  | nothing => exact .pure _
  | given known =>
    cases known with
    | none => exact .fail .indirectConstant
    | some value => exact .pure _

theorem Form.raises_resolve (code : Nat) : (resolve code).Raises Fault.OfAttribute := by
  have hnumber : Decoder.unsigned.Raises Fault.OfAttribute :=
    Decoder.raises_unsigned (.ofValue .unexpectedEnd) (.ofValue .unsignedOverflow)
  intro bs rest cause h
  replace h : readCode code bs = .fault cause rest := h
  fun_induction readCode code bs with
  | case1 bs cause' rest' hrun =>
    cases h
    exact hnumber hrun
  | case2 bs code rest' hrun hrange =>
    cases h
    exact .formRange code
  | case3 bs code rest' hrun hrange ih => exact ih h
  | case4 code bs hcode => cases h

namespace Attribute

variable {enc : Encoding}

theorem raises_decode (henc : enc.HasAddresses) (spec : AttrSpec) :
    (decode enc spec).Raises Fault.OfAttribute := by
  refine (Form.raises_resolve spec.form).bind fun code => ?_
  unfold decodeAs
  split
  · exact .fail (.unknownForm code)
  · exact (Layout.raises_decode enc.order (Form.widths_layout henc _ _)).bind fun _ => .pure _

theorem raises_decodeAll (henc : enc.HasAddresses) (specs : List AttrSpec) :
    (decodeAll enc specs).Raises Fault.OfAttribute := by
  induction specs with
  | nil => exact .pure _
  | cons spec specs ih => exact (raises_decode henc spec).bind fun _ => ih.bind fun _ => .pure _

end Attribute

theorem Entry.raises_walk {enc : Encoding} (henc : enc.HasAddresses) {table : AbbrevTable}
    {index : Nat} {scopes : List Nat} {c : Cursor} {cause : Fault}
    (h : (walk enc table index scopes c).fault = some cause) : cause.OfEntry := by
  have hcode : Decoder.unsigned.Raises Fault.OfEntry :=
    Decoder.raises_unsigned (.ofAttribute (.ofValue .unexpectedEnd))
      (.ofAttribute (.ofValue .unsignedOverflow))
  -- Each step of the walk either goes on or stops with one of these.
  fun_induction walk enc table index scopes c with
  | case1 index scopes c hnil hscopes => cases h
  | case2 index scopes c hnil hscopes =>
    cases h
    exact .openScopes _
  | case3 index scopes c hcons cause' rest hrun =>
    cases h
    exact hcode hrun
  | case4 index c hcons rest hrun =>
    cases h
    exact .nullWithoutScope
  | case5 index c hcons rest hrun scope outer htrailing =>
    cases h
    exact .trailingEntries
  | case6 index c hcons rest hrun scope outer htrailing ih => exact ih h
  | case7 index scopes c hcons code rest hne hrun hd =>
    cases h
    exact .unknownCode code
  | case8 index scopes c hcons code rest hne hrun d hd cause' rest' hattrs =>
    cases h
    exact .ofAttribute (Attribute.raises_decodeAll henc d.attributes hattrs)
  | case9 index scopes c hcons code rest hne hrun d hd attributes rest' hattrs entry inner ih =>
    exact ih h

/-! ### Tables -/

theorem AttrSpec.raises_decode : decode.Raises Fault.OfDeclaration := by
  have hnumber : Decoder.unsigned.Raises Fault.OfDeclaration :=
    Decoder.raises_unsigned ⟨.ofValue .unexpectedEnd, nofun⟩ ⟨.ofValue .unsignedOverflow, nofun⟩
  have hconst : Decoder.signed.Raises Fault.OfDeclaration :=
    Decoder.raises_signed ⟨.ofValue .unexpectedEnd, nofun⟩ ⟨.ofValue .signedOverflow, nofun⟩
  refine hnumber.bind fun name => hnumber.bind fun form => ?_
  refine .ite (fun _ => .pure _) fun _ => ?_
  refine .ite (fun _ => .fail ⟨.zeroAttributeName, nofun⟩) fun _ => ?_
  refine .ite (fun _ => .fail ⟨.zeroForm, nofun⟩) fun _ => ?_
  refine .ite (fun _ => .fail ⟨.attributeNameRange name, nofun⟩) fun _ => ?_
  refine .ite (fun _ => .fail ⟨.formRange form, nofun⟩) fun _ => ?_
  exact .ite (fun _ => hconst.bind fun _ => .pure _) fun _ => .pure _

theorem AttrSpec.raises_decodeList : decodeList.Raises Fault.OfDeclaration := by
  intro bs rest cause h
  replace h : readList bs = .fault cause rest := h
  fun_induction readList bs with
  | case1 bs cause' rest' hrun =>
    cases h
    exact raises_decode hrun
  | case2 bs rest' hrun => cases h
  | case3 bs spec rest' hrun cause' rest'' hrec ih =>
    cases h
    exact ih hrec
  | case4 bs spec rest' hrun specs rest'' hrec ih => cases h

theorem Declaration.raises_decode : decode.Raises Fault.OfDeclaration := by
  have hend : Fault.OfDeclaration .unexpectedEnd := ⟨.ofValue .unexpectedEnd, nofun⟩
  have hnumber : Decoder.unsigned.Raises Fault.OfDeclaration :=
    Decoder.raises_unsigned hend ⟨.ofValue .unsignedOverflow, nofun⟩
  refine hnumber.bind fun code => .ite (fun _ => .pure _) fun _ => ?_
  refine hnumber.bind fun tag => .ite (fun _ => .fail ⟨.zeroTag, nofun⟩) fun _ => ?_
  refine .ite (fun _ => .fail ⟨.tagRange tag, nofun⟩) fun _ => ?_
  refine (Decoder.raises_byte hend).bind fun flag => ?_
  refine .ite (fun _ => .fail ⟨.childrenFlag flag, nofun⟩) fun _ => ?_
  exact AttrSpec.raises_decodeList.bind fun _ => .pure _

namespace AbbrevTable

theorem raises_decode : decode.Raises Fault.OfTable := by
  intro bs rest cause h
  replace h : empty.extend bs = .fault cause rest := h
  generalize empty = t at h
  fun_induction extend t bs with
  | case1 t bs cause' rest' hrun =>
    cases h
    exact (Declaration.raises_decode hrun).1
  | case2 t bs rest' hrun => cases h
  | case3 t bs d rest' hrun hinsert =>
    cases h
    exact .duplicateCode d.code
  | case4 t bs d rest' hrun t' hinsert ih => exact ih h

theorem raises_item (offset : Nat) : (item.decode offset).Raises Fault.OfTable :=
  raises_decode.bind fun _ => .pure _

/-- An offset that no table can start at is the one fault that is not in the bytes. -/
theorem raises_atOffset {contents : Bytes} {offset : Nat} {cause : Fault}
    (h : atOffset contents offset = .error cause) : cause = .offsetBounds ∨ cause.OfTable := by
  unfold atOffset at h
  split at h
  · cases h
    exact .inl rfl
  · simp only at h
    split at h
    · cases h
    · next hrun =>
      cases h
      exact .inr (raises_decode hrun)

end AbbrevTable

/-! ### Headers and units -/

theorem UnitKind.raises_decode (order : ByteOrder) (format : Format) (code : Nat) :
    (decode order format code).Raises Fault.OfUnit := by
  have hend : Fault.OfUnit .unexpectedEnd := .inl rfl
  have hid : ∀ make : Nat → UnitKind, Decoder.Raises Fault.OfUnit (do
      let id ← Decoder.uint order 8
      return make id) :=
    fun _ => (Decoder.raises_uint hend order 8).bind fun _ => .pure _
  have htype : ∀ make : Nat → Nat → UnitKind, Decoder.Raises Fault.OfUnit (do
      let signature ← Decoder.uint order 8
      let offset ← Decoder.offset order format
      return make signature offset) :=
    fun _ => (Decoder.raises_uint hend order 8).bind fun _ =>
      (Decoder.raises_offset hend order format).bind fun _ => .pure _
  unfold UnitKind.decode
  split
  · exact .pure _
  · exact htype _
  · exact .pure _
  · exact hid _
  · exact hid _
  · exact htype _
  · exact .fail (.inr (.unknownUnitType _))

theorem UnitFields.raises_decode (order : ByteOrder) (format : Format) :
    (decode order format).Raises Fault.OfUnit := by
  have hend : Fault.OfUnit .unexpectedEnd := .inl rfl
  have hbyte : Decoder.byte.Raises Fault.OfUnit := Decoder.raises_byte hend
  have hoffset := Decoder.raises_offset hend order format
  have hsizes : ∀ version, (decodeSizes order format version).Raises Fault.OfUnit := fun _ =>
    .ite (fun _ => hbyte.bind fun _ => hbyte.bind fun _ => hoffset.bind fun _ => .pure _)
      (fun _ => hoffset.bind fun _ => hbyte.bind fun _ => .pure _)
  refine (Decoder.raises_uint hend order 2).bind fun version => ?_
  refine .ite (fun _ => .fail (.inr (.unknownVersion version))) fun _ => ?_
  refine (hsizes version).bind fun sizes => ?_
  refine .ite (fun _ => .fail (.inr (.addressSize sizes.2.1))) fun _ => ?_
  exact (UnitKind.raises_decode order format sizes.1).bind fun _ => .pure _

namespace UnitHeader

theorem raises_decode (order : ByteOrder) (offset : Nat) :
    (decode order offset).Raises Fault.OfUnit := by
  have hend : Fault.OfUnit .unexpectedEnd := .inl rfl
  have hlength : (Decoder.initialLength order).Raises Fault.OfUnit := by
    refine (Decoder.raises_uint hend order 4).bind fun short => ?_
    refine .ite (fun _ => .pure _) fun _ => ?_
    exact .ite (fun _ => (Decoder.raises_uint hend order 8).bind fun _ => .pure _)
      fun _ => .fail (.inr (.reservedLength short))
  refine hlength.bind fun opening => ?_
  refine (Decoder.Raises.reporting (.inr (.unitTooLong opening.1))).bind fun body => ?_
  exact ((UnitFields.raises_decode order opening.2).within body).bind fun _ => .pure _

theorem raises_atOffset {order : ByteOrder} {info : Bytes} {offset : Nat} {cause : Fault}
    (h : atOffset order info offset = .error cause) : cause = .offsetBounds ∨ cause.OfUnit := by
  unfold atOffset at h
  split at h
  · cases h
    exact .inl rfl
  · exact .inr ((raises_decode order offset).of_value h)

/-- The header was read, from some bytes. -/
def Parsed (h : UnitHeader) : Prop :=
  ∃ order offset bs rest, (decode order offset).run bs = .ok h rest

theorem Parsed.hasAddresses {h : UnitHeader} (hh : h.Parsed) : h.encoding.HasAddresses := by
  obtain ⟨order, offset, bs, rest, hrun⟩ := hh
  exact (run_decode_eq_ok.mp hrun).1.valid.addressSize

theorem parsed_of_mem_run {order : ByteOrder} {c : Cursor} {h : UnitHeader}
    (hmem : h ∈ (c.run (item order)).items) : h.Parsed := by
  fun_induction Cursor.run (item order) c with
  | case1 c hnil => cases hmem
  | case2 c hcons value rest hrun ih =>
    rcases List.mem_cons.mp hmem with rfl | hmem
    · exact ⟨order, c.offset, c.rest, rest, hrun⟩
    · exact ih hmem
  | case3 c hcons cause rest hrun => cases hmem

end UnitHeader

theorem Entry.raises_all {h : UnitHeader} (hh : h.Parsed) {table : AbbrevTable} {cause : Fault}
    (hall : (all h table).fault = some cause) : cause.OfEntry :=
  raises_walk hh.hasAddresses hall

namespace UnitTree

theorem raises_decode {h : UnitHeader} (hh : h.Parsed) {abbrevs : Bytes} {cause : Fault}
    (hdecode : decode abbrevs h = .error cause) :
    cause = .offsetBounds ∨ cause.OfTable ∨ cause.OfEntry := by
  rcases Fallible.bind_eq_error.mp hdecode with htable | ⟨found, -, hdecode⟩
  · rcases AbbrevTable.raises_atOffset htable with hbounds | htable
    · exact .inl hbounds
    · exact .inr (.inl htable)
  · rcases Fallible.bind_eq_error.mp hdecode with hentries | ⟨entries, -, hdone⟩
    · exact .inr (.inr (Entry.raises_all hh (Progress.complete_eq_error.mp hentries)))
    · cases hdone

theorem raises_all {s : Sections} {cause : Fault} (hall : all s = .error cause) :
    cause = .offsetBounds ∨ cause.OfTable ∨ cause.OfEntry ∨ cause.OfUnit := by
  rcases Fallible.bind_eq_error.mp hall with hunits | ⟨units, -, hdone⟩
  · obtain ⟨h, hmem, hdecode⟩ := Fallible.exists_of_mapM_error hunits
    rcases raises_decode (UnitHeader.parsed_of_mem_run hmem) hdecode with h | h | h
    · exact .inl h
    · exact .inr (.inl h)
    · exact .inr (.inr (.inl h))
  · split at hdone
    · cases hdone
    · next hfault =>
      cases hdone
      exact .inr (.inr (.inr (Cursor.raises_run (UnitHeader.raises_decode s.order) hfault)))

end UnitTree

/-! ### Strings -/

theorem raises_stringItem (offset : Nat) :
    (stringItem.decode offset).Raises (· = .unexpectedEnd) :=
  (Decoder.raises_terminated (p := (· = Fault.unexpectedEnd)) rfl).bind fun _ => .pure _

theorem raises_stringAt {contents : Bytes} {offset : Nat} {cause : Fault}
    (h : stringAt contents offset = .error cause) :
    cause = .offsetBounds ∨ cause = .unexpectedEnd := by
  unfold stringAt at h
  split at h
  · cases h
    exact .inl rfl
  · exact .inr ((Decoder.raises_terminated (p := (· = Fault.unexpectedEnd)) rfl).of_value h)

theorem Sections.raises_stringOf {s : Sections} {value : Value} {cause : Fault}
    (h : s.stringOf value = .error cause) :
    cause = .notAString ∨ cause = .offsetBounds ∨ cause = .unexpectedEnd := by
  unfold stringOf at h
  split at h
  · cases h
  · exact .inr (raises_stringAt h)
  · exact .inr (raises_stringAt h)
  · cases h
    exact .inl rfl

end Dwarf
