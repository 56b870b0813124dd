import Dwarf.Proofs.Info.Units
/-!
# The bytes of a unit header

Every field of a header has a fixed width once the fields before it are known: the
length field chooses the format, and with it the width of offsets; the version chooses
the order of the next fields, and from version 5 on the type of the unit chooses the
last ones. So unlike a table of abbreviations, a header has just one way to be written,
and reading and writing are inverse to each other. The parts say so one by one:

> `Decoder.spells_initialLength`, `UnitKind.spells_decode`, `UnitFields.spells_decode`:
> the bytes that are read as a value are the ones it is written in, and the values that
> are read are those that fit.
>
> `UnitHeader.run_decode_eq_ok`: a unit is read exactly from the bytes of its header and
> of its entries.

A header also holds numbers that are no fields: how long it is, and how long the unit is.
`UnitHeader.ofFields` computes them from the fields and the entries.
-/

namespace Dwarf

namespace Decoder

variable {α β : Type}

/-- A decoder that reads each value from one byte string, which `encode` writes, makes
the front of what is read by it and another one. -/
theorem spells_bind_of_exact {d : Decoder α} {f : α → Decoder β} {fits : α → Prop}
    {encode : α → Bytes} (hd : Delimited d)
    (hexact : ∀ {bytes : Bytes} {value : α}, d.Spells bytes value ↔ fits value ∧ bytes = encode value)
    {bytes : Bytes} {value : β} : (d >>= f).Spells bytes value ↔
      ∃ first tail, bytes = encode first ++ tail ∧ fits first ∧ (f first).Spells tail value := by
  rw [hd.spells_bind]
  constructor
  · intro h
    obtain ⟨first, head, tail, rfl, hhead, htail⟩ := h
    obtain ⟨hfits, rfl⟩ := hexact.mp hhead
    exact ⟨first, tail, rfl, hfits, htail⟩
  · intro h
    obtain ⟨first, tail, rfl, hfits, htail⟩ := h
    exact ⟨first, encode first, tail, rfl, hexact.mpr ⟨hfits, rfl⟩, htail⟩

theorem spells_uint_encode {order : ByteOrder} {width : Nat} {bytes : Bytes} {value : Nat} :
    (uint order width).Spells bytes value ↔
      value < placeValue 256 width ∧ bytes = order.encode width value :=
  spells_uint.trans ByteOrder.isInteger_iff

theorem spells_byte_ofNat {bytes : Bytes} {value : Nat} :
    byte.Spells bytes value ↔ value < 256 ∧ bytes = [UInt8.ofNat value] := by
  rw [spells_byte]
  constructor
  · intro h
    obtain ⟨b, rfl, rfl⟩ := h
    exact ⟨b.toNat_lt, by rw [UInt8.ofNat_toNat]⟩
  · intro h
    obtain ⟨hlt, rfl⟩ := h
    refine ⟨_, rfl, ?_⟩
    rw [UInt8.toNat_ofNat', Nat.mod_eq_of_lt hlt]

/-- An integer of fixed width comes first. -/
theorem spells_uint_bind {order : ByteOrder} {width : Nat} {f : Nat → Decoder β} {bytes : Bytes}
    {value : β} : (uint order width >>= f).Spells bytes value ↔
      ∃ n tail, bytes = order.encode width n ++ tail ∧ n < placeValue 256 width ∧
        (f n).Spells tail value :=
  spells_bind_of_exact (delimited_uint order width) spells_uint_encode

/-- An integer of fixed width comes last. -/
theorem spells_uint_map {order : ByteOrder} {width : Nat} {make : Nat → β} {bytes : Bytes}
    {value : β} : Spells (do
        let n ← uint order width
        return make n) bytes value ↔
      ∃ n, n < placeValue 256 width ∧ bytes = order.encode width n ∧ value = make n := by
  rw [spells_uint_bind]
  constructor
  · intro h
    obtain ⟨n, tail, rfl, hn, h⟩ := h
    obtain ⟨rfl, rfl⟩ := spells_pure.mp h
    exact ⟨n, hn, List.append_nil _, rfl⟩
  · intro h
    obtain ⟨n, hn, rfl, rfl⟩ := h
    exact ⟨n, [], (List.append_nil _).symm, hn, spells_pure.mpr ⟨rfl, rfl⟩⟩

/-- A byte comes first. -/
theorem spells_byte_bind {f : Nat → Decoder β} {bytes : Bytes} {value : β} :
    (byte >>= f).Spells bytes value ↔
      ∃ n tail, bytes = [UInt8.ofNat n] ++ tail ∧ n < 256 ∧ (f n).Spells tail value :=
  spells_bind_of_exact delimited_byte spells_byte_ofNat

end Decoder

open Decoder

variable {order : ByteOrder} {format : Format}

/-- The lengths that the length field of a format can hold. In the 32-bit format those
from `0xfffffff0` on are kept for other uses. -/
def Format.Holds : Format → (length : Nat) → Prop
  | dwarf32, length => length < 0xfffffff0
  | dwarf64, length => length < 0x10000000000000000

theorem UnitHeader.length_encodeLength (order : ByteOrder) (format : Format) (length : Nat) :
    (encodeLength order format length).length = format.initialLengthSize := by
  cases format with
  | dwarf32 => exact order.length_encode 4 length
  | dwarf64 =>
    rw [encodeLength, List.length_append, order.length_encode, order.length_encode]
    rfl

theorem Decoder.spells_initialLength {bytes : Bytes} {length : Nat} :
    (initialLength order).Spells bytes (length, format) ↔
      format.Holds length ∧ bytes = UnitHeader.encodeLength order format length := by
  rw [initialLength, spells_uint_bind]
  constructor
  · intro h
    obtain ⟨short, tail, rfl, hshort, h⟩ := h
    split at h
    · next hsmall =>
      obtain ⟨rfl, hvalue⟩ := spells_pure.mp h
      cases hvalue
      exact ⟨hsmall, by rw [List.append_nil, UnitHeader.encodeLength]⟩
    · split at h
      · next hescape =>
        obtain ⟨long, hlong, rfl, hvalue⟩ := spells_uint_map.mp h
        cases hvalue
        exact ⟨hlong, by rw [hescape, UnitHeader.encodeLength]⟩
      · cases h
  · intro h
    obtain ⟨hholds, rfl⟩ := h
    cases format with
    | dwarf32 =>
      have hsmall : length < 0xfffffff0 := hholds
      have hfits : length < placeValue 256 4 := Nat.lt_trans hsmall (by decide)
      refine ⟨length, [], (List.append_nil _).symm, hfits, ?_⟩
      rw [if_pos hsmall]
      exact spells_pure.mpr ⟨rfl, rfl⟩
    | dwarf64 =>
      refine ⟨0xffffffff, order.encode 8 length, rfl, by decide, ?_⟩
      rw [if_neg (by decide), if_pos rfl, spells_uint_map]
      exact ⟨length, hholds, rfl, rfl⟩

namespace UnitKind

/-- Signatures and identifiers have 64 bits, and offsets as many as the format gives. -/
def Fits (format : Format) : UnitKind → Prop
  | compilation | partialUnit => True
  | typeUnit signature offset | splitType signature offset =>
    signature < placeValue 256 8 ∧ offset < placeValue 256 format.wordSize
  | skeleton id | splitCompilation id => id < placeValue 256 8

theorem delimited_decode (order : ByteOrder) (format : Format) (code : Nat) :
    (decode order format code).Delimited := by
  have hid : ∀ make : Nat → UnitKind, Delimited (do
      let id ← uint order 8
      return make id) :=
    fun _ => (delimited_uint order 8).bind fun _ => .pure _
  have htype : ∀ make : Nat → Nat → UnitKind, Delimited (do
      let signature ← uint order 8
      let offset ← Decoder.offset order format
      return make signature offset) :=
    fun _ => (delimited_uint order 8).bind fun _ =>
      (delimited_uint order format.wordSize).bind fun _ => .pure _
  unfold decode
  split
  · exact .pure _
  · exact htype _
  · exact .pure _
  · exact hid _
  · exact hid _
  · exact htype _
  · exact .fail _

theorem spells_signature {make : Nat → Nat → UnitKind} {bytes : Bytes} {kind : UnitKind} :
    Decoder.Spells (do
        let signature ← uint order 8
        let offset ← Decoder.offset order format
        return make signature offset) bytes kind ↔
      ∃ signature offset, (signature < placeValue 256 8 ∧ offset < placeValue 256 format.wordSize) ∧
        bytes = order.encode 8 signature ++ order.encode format.wordSize offset ∧
        kind = make signature offset := by
  rw [spells_uint_bind]
  constructor
  · intro h
    obtain ⟨signature, mid, rfl, hsignature, h⟩ := h
    obtain ⟨offset, hoffset, rfl, rfl⟩ := spells_uint_map.mp h
    exact ⟨signature, offset, ⟨hsignature, hoffset⟩, rfl, rfl⟩
  · intro h
    obtain ⟨signature, offset, ⟨hsignature, hoffset⟩, rfl, rfl⟩ := h
    refine ⟨signature, order.encode format.wordSize offset, rfl, hsignature, ?_⟩
    exact spells_uint_map.mpr ⟨offset, hoffset, rfl, rfl⟩

theorem spells_decode {code : Nat} {bytes : Bytes} {kind : UnitKind} :
    (decode order format code).Spells bytes kind ↔
      kind.code = code ∧ kind.Fits format ∧ bytes = kind.encode order format := by
  constructor
  · intro h
    unfold decode at h
    split at h
    · obtain ⟨rfl, rfl⟩ := spells_pure.mp h
      exact ⟨rfl, trivial, rfl⟩
    · obtain ⟨signature, offset, hfits, rfl, rfl⟩ := spells_signature.mp h
      exact ⟨rfl, hfits, rfl⟩
    · obtain ⟨rfl, rfl⟩ := spells_pure.mp h
      exact ⟨rfl, trivial, rfl⟩
    · obtain ⟨id, hid, rfl, rfl⟩ := spells_uint_map.mp h
      exact ⟨rfl, hid, rfl⟩
    · obtain ⟨id, hid, rfl, rfl⟩ := spells_uint_map.mp h
      exact ⟨rfl, hid, rfl⟩
    · obtain ⟨signature, offset, hfits, rfl, rfl⟩ := spells_signature.mp h
      exact ⟨rfl, hfits, rfl⟩
    · cases h
  · intro h
    obtain ⟨rfl, hfits, rfl⟩ := h
    cases kind with
    | compilation | partialUnit => exact spells_pure.mpr ⟨rfl, rfl⟩
    | typeUnit signature offset | splitType signature offset =>
      exact spells_signature.mpr ⟨signature, offset, hfits, rfl, rfl⟩
    | skeleton id | splitCompilation id => exact spells_uint_map.mpr ⟨id, hfits, rfl, rfl⟩

end UnitKind

namespace UnitFields

/-- The version is one that can be read, every field has its width, and only a unit of
version 5 has a type of its own. -/
structure Valid (format : Format) (f : UnitFields) : Prop where
  version : 2 ≤ f.version ∧ f.version ≤ 5
  addressSize : f.addressSize = 4 ∨ f.addressSize = 8
  abbrevOffset : f.abbrevOffset < placeValue 256 format.wordSize
  kind : f.kind.Fits format
  untyped : f.version < 5 → f.kind = .compilation

theorem delimited_decodeSizes (order : ByteOrder) (format : Format) (version : Nat) :
    (decodeSizes order format version).Delimited :=
  .ite (delimited_byte.bind fun _ => delimited_byte.bind fun _ =>
      (delimited_uint order format.wordSize).bind fun _ => .pure _)
    ((delimited_uint order format.wordSize).bind fun _ => delimited_byte.bind fun _ => .pure _)

theorem delimited_decode (order : ByteOrder) (format : Format) :
    (decode order format).Delimited :=
  (delimited_uint order 2).bind fun version => .ite (.fail _)
    ((delimited_decodeSizes order format version).bind fun _ => .ite (.fail _)
      ((UnitKind.delimited_decode order format _).bind fun _ => .pure _))

theorem spells_decodeSizes {version : Nat} {bytes : Bytes} {code addressSize abbrevOffset : Nat} :
    (decodeSizes order format version).Spells bytes (code, addressSize, abbrevOffset) ↔
      (code < 256 ∧ (version < 5 → code = UnitKind.compilation.code)) ∧ addressSize < 256 ∧
        abbrevOffset < placeValue 256 format.wordSize ∧
        bytes = if 5 ≤ version then
            [UInt8.ofNat code, UInt8.ofNat addressSize] ++ order.encode format.wordSize abbrevOffset
          else order.encode format.wordSize abbrevOffset ++ [UInt8.ofNat addressSize] := by
  -- Before version 5 there is no code, and the offset comes before the address size.
  by_cases hversion : 5 ≤ version
  · rw [decodeSizes, if_pos hversion, if_pos hversion, spells_byte_bind]
    constructor
    · intro h
      obtain ⟨code', mid, rfl, hcode, h⟩ := h
      obtain ⟨size', mid', rfl, hsize, h⟩ := spells_byte_bind.mp h
      obtain ⟨offset', hoffset, rfl, hvalue⟩ := spells_uint_map.mp h
      cases hvalue
      exact ⟨⟨hcode, by omega⟩, hsize, hoffset, rfl⟩
    · intro h
      obtain ⟨⟨hcode, -⟩, hsize, hoffset, rfl⟩ := h
      refine ⟨code, _, rfl, hcode, spells_byte_bind.mpr ⟨addressSize, _, rfl, hsize, ?_⟩⟩
      exact spells_uint_map.mpr ⟨abbrevOffset, hoffset, rfl, rfl⟩
  · rw [decodeSizes, if_neg hversion, if_neg hversion, Decoder.offset, spells_uint_bind]
    constructor
    · intro h
      obtain ⟨offset', mid, rfl, hoffset, h⟩ := h
      obtain ⟨size', tail, rfl, hsize, h⟩ := spells_byte_bind.mp h
      obtain ⟨rfl, hvalue⟩ := spells_pure.mp h
      cases hvalue
      exact ⟨⟨by decide, fun _ => rfl⟩, hsize, hoffset, by rw [List.append_nil]⟩
    · intro h
      obtain ⟨⟨-, hcode⟩, hsize, hoffset, rfl⟩ := h
      rw [hcode (by omega)]
      refine ⟨abbrevOffset, _, rfl, hoffset, spells_byte_bind.mpr ⟨addressSize, [], rfl, hsize, ?_⟩⟩
      exact spells_pure.mpr ⟨rfl, rfl⟩

theorem spells_decode {bytes : Bytes} {f : UnitFields} :
    (decode order format).Spells bytes f ↔ f.Valid format ∧ bytes = f.encode order format := by
  rw [decode, spells_uint_bind]
  constructor
  · intro h
    obtain ⟨version, mid, rfl, -, h⟩ := h
    split at h
    · cases h
    next hversion =>
    obtain ⟨⟨code, addressSize, abbrevOffset⟩, sizes, tail, rfl, hsizes, hlater⟩ :=
      (delimited_decodeSizes order format version).spells_bind.mp h
    obtain ⟨⟨-, hcode⟩, -, hoffset, rfl⟩ := spells_decodeSizes.mp hsizes
    simp only at hlater
    split at hlater
    · cases hlater
    next haddress =>
    obtain ⟨kind, kindBytes, last, rfl, hkind, hlast⟩ :=
      (UnitKind.delimited_decode order format code).spells_bind.mp hlater
    obtain ⟨rfl, hfits, rfl⟩ := UnitKind.spells_decode.mp hkind
    obtain ⟨rfl, rfl⟩ := spells_pure.mp hlast
    constructor
    · refine ⟨⟨?_, ?_⟩, ?_, hoffset, hfits, fun hold => ?_⟩
      · show 2 ≤ version
        omega
      · show version ≤ 5
        omega
      · show addressSize = 4 ∨ addressSize = 8
        omega
      · -- The code of a compilation unit is that of no other type.
        have hsame := hcode hold
        show kind = .compilation
        cases kind <;> first | rfl | cases hsame
    · rw [List.append_nil, ← List.append_assoc]
      rfl
  · intro h
    obtain ⟨hvalid, rfl⟩ := h
    have hversion := hvalid.version
    have haddress := hvalid.addressSize
    have hcode : f.kind.code < 256 := by cases f.kind <;> simp [UnitKind.code]
    have huntyped : f.version < 5 → f.kind.code = UnitKind.compilation.code := by
      intro hold
      rw [hvalid.untyped hold]
    have hfits : f.version < placeValue 256 2 := Nat.lt_of_le_of_lt hversion.2 (by decide)
    refine ⟨f.version, _, List.append_assoc .., hfits, ?_⟩
    rw [if_neg (by omega)]
    refine (delimited_decodeSizes order format f.version).spells_bind.mpr
      ⟨(f.kind.code, f.addressSize, f.abbrevOffset), _, f.kind.encode order format, rfl,
        spells_decodeSizes.mpr ⟨⟨hcode, huntyped⟩, by omega, hvalid.abbrevOffset, rfl⟩, ?_⟩
    simp only
    rw [if_neg (by omega)]
    exact (UnitKind.delimited_decode order format f.kind.code).spells_bind.mpr
      ⟨f.kind, _, [], (List.append_nil _).symm, UnitKind.spells_decode.mpr ⟨rfl, hvalid.kind, rfl⟩,
        spells_pure.mpr ⟨rfl, rfl⟩⟩

end UnitFields

namespace UnitHeader

/-- The header of the unit at `offset` with these fields and entries. -/
def ofFields (order : ByteOrder) (format : Format) (offset : Nat) (fields : UnitFields)
    (entries : Bytes) : UnitHeader where
  offset
  length := (fields.encode order format).length + entries.length
  format
  order
  fields
  headerSize := format.initialLengthSize + (fields.encode order format).length
  entries

theorem headerSize_ofFields (order : ByteOrder) (format : Format) (offset : Nat)
    (fields : UnitFields) (entries : Bytes) :
    (ofFields order format offset fields entries).headerSize =
      (ofFields order format offset fields entries).encode.length := by
  rw [encode, List.length_append, length_encodeLength]
  rfl

theorem run_decode_ofFields {offset : Nat} {fields : UnitFields} {entries : Bytes}
    (hvalid : fields.Valid format)
    (hholds : format.Holds ((fields.encode order format).length + entries.length)) (rest : Bytes) :
    (decode order offset).run
        ((ofFields order format offset fields entries).encode ++ (entries ++ rest)) =
      .ok (ofFields order format offset fields entries) rest := by
  have hbody : (fields.encode order format ++ entries).length =
      (fields.encode order format).length + entries.length := List.length_append
  have hlength := (spells_initialLength.mpr ⟨hholds, rfl⟩).run (delimited_initialLength order)
    (fields.encode order format ++ entries ++ rest)
  have htake := take_append (fields.encode order format ++ entries) rest
  rw [hbody] at htake
  have hfields := (UnitFields.spells_decode.mpr ⟨hvalid, rfl⟩).run
    (UnitFields.delimited_decode order format) entries
  rw [encode, List.append_assoc, ← List.append_assoc _ entries rest]
  refine run_bind_eq_ok.mpr ⟨_, _, hlength, ?_⟩
  refine run_bind_eq_ok.mpr ⟨fields.encode order format ++ entries, rest, ?_, ?_⟩
  · simp only [reporting, htake]
  refine run_bind_eq_ok.mpr ⟨(fields, entries), rest, ?_, ?_⟩
  · simp only [within, hfields]
  · simp only [run_pure, hbody, Nat.add_sub_cancel]
    rfl

theorem exists_ofFields {offset : Nat} {bs rest : Bytes} {h : UnitHeader}
    (hrun : (decode order offset).run bs = .ok h rest) :
    ∃ (format : Format) (fields : UnitFields) (entries : Bytes),
      h = ofFields order format offset fields entries ∧ fields.Valid format ∧
        format.Holds ((fields.encode order format).length + entries.length) ∧
        bs = h.encode ++ (entries ++ rest) := by
  obtain ⟨⟨length, format⟩, mid, hinit, hafter⟩ := run_bind_eq_ok.mp hrun
  obtain ⟨body, mid', htake, hbody⟩ := run_bind_eq_ok.mp hafter
  obtain ⟨⟨fields, entries⟩, mid'', hfields, hheader⟩ := run_bind_eq_ok.mp hbody
  obtain ⟨field, rfl, hfield⟩ := (delimited_initialLength order).run_eq_ok.mp hinit
  obtain ⟨hholds, rfl⟩ := spells_initialLength.mp hfield
  obtain ⟨rfl, rfl⟩ := take_eq_ok (reporting_eq_ok htake)
  obtain ⟨rfl, hinner⟩ := within_eq_ok hfields
  -- The fields take the front of the body, and the entries are what they leave.
  obtain ⟨front, rfl, hfront⟩ := (UnitFields.delimited_decode order format).run_eq_ok.mp hinner
  obtain ⟨hvalid, rfl⟩ := UnitFields.spells_decode.mp hfront
  cases hheader
  rw [List.length_append] at hholds
  refine ⟨format, fields, entries, ?_, hvalid, hholds, ?_⟩
  · simp only [ofFields, List.length_append, Nat.add_sub_cancel]
  · simp only [encode, List.append_assoc]

/-- The fields fit, the numbers that are no fields are those of the fields and the entries,
and the length field can hold the length. -/
structure WellFormed (order : ByteOrder) (offset : Nat) (h : UnitHeader) : Prop where
  computed : h = ofFields order h.format offset h.fields h.entries
  valid : h.fields.Valid h.format
  holds : h.format.Holds h.length

/-- A unit is read from the bytes of its header and its entries, and from no others. -/
theorem run_decode_eq_ok {offset : Nat} {bs rest : Bytes} {h : UnitHeader} :
    (decode order offset).run bs = .ok h rest ↔
      h.WellFormed order offset ∧ bs = h.encode ++ (h.entries ++ rest) := by
  constructor
  · intro hrun
    obtain ⟨format, fields, entries, rfl, hvalid, hholds, hbs⟩ := exists_ofFields hrun
    exact ⟨⟨rfl, hvalid, hholds⟩, hbs⟩
  · intro hwritten
    obtain ⟨⟨hh, hvalid, hholds⟩, rfl⟩ := hwritten
    rw [hh] at hholds ⊢
    exact run_decode_ofFields hvalid hholds rest

theorem WellFormed.headerSize {offset : Nat} {h : UnitHeader} (hh : h.WellFormed order offset) :
    h.headerSize = h.encode.length := by
  rw [hh.computed]
  exact headerSize_ofFields order h.format offset h.fields h.entries

/-- **Headers are read by a bijection.** Fields that fit are read back from the header that
is written for them in front of any entries, with the size that this header has; the
entries are the bytes behind it, and the bytes behind those are left. And whatever a unit
was read from are the bytes in which its header is written, and then its entries. -/
theorem decode_bijective (order : ByteOrder) (offset : Nat) :
    (∀ (format : Format) (fields : UnitFields) (entries rest : Bytes), fields.Valid format →
      format.Holds ((fields.encode order format).length + entries.length) →
      (ofFields order format offset fields entries).headerSize =
        (ofFields order format offset fields entries).encode.length ∧
      (decode order offset).run
          ((ofFields order format offset fields entries).encode ++ entries ++ rest) =
        .ok (ofFields order format offset fields entries) rest) ∧
    ∀ (bs : Bytes) (h : UnitHeader) (rest : Bytes), (decode order offset).run bs = .ok h rest →
      bs = h.encode ++ h.entries ++ rest ∧ h.headerSize = h.encode.length ∧
        h.WellFormed order offset := by
  constructor
  · intro format fields entries rest hvalid hholds
    refine ⟨headerSize_ofFields order format offset fields entries, ?_⟩
    rw [List.append_assoc]
    exact run_decode_ofFields hvalid hholds rest
  · intro bs h rest hrun
    obtain ⟨hh, hbs⟩ := run_decode_eq_ok.mp hrun
    exact ⟨by rw [hbs, List.append_assoc], hh.headerSize, hh⟩

/-- The fields of a type unit in the 64-bit format. -/
def typeUnitFields : UnitFields where
  version := 5
  addressSize := 8
  abbrevOffset := 0x0102030405060708
  kind := .typeUnit 0x1122334455667788 0x20

/-- A unit of version 4 with three bytes of entries. -/
def oldHeader : UnitHeader where
  offset := 6
  length := 10
  format := .dwarf32
  order := .little
  fields := { version := 4, addressSize := 4, abbrevOffset := 0x1234, kind := .compilation }
  headerSize := 11
  entries := [0xaa, 0xbb, 0xcc]

theorem decode_bijective_samples :
    (decode .big 0).run ([0xff, 0xff, 0xff, 0xff, 0, 0, 0, 0, 0, 0, 0, 30, 0, 5, 2, 8,
        1, 2, 3, 4, 5, 6, 7, 8, 0x11, 0x22, 0x33, 0x44, 0x55, 0x66, 0x77, 0x88,
        0, 0, 0, 0, 0, 0, 0, 0x20] ++ [9, 9] ++ [7]) =
      .ok (ofFields .big .dwarf64 0 typeUnitFields [9, 9]) [7] ∧
    (decode .little 6).run [10, 0, 0, 0, 4, 0, 0x34, 0x12, 0, 0, 4, 0xaa, 0xbb, 0xcc, 0xdd] =
      .ok oldHeader [0xdd] ∧
    [10, 0, 0, 0, 4, 0, 0x34, 0x12, 0, 0, 4, 0xaa, 0xbb, 0xcc, 0xdd] =
      oldHeader.encode ++ oldHeader.entries ++ [0xdd] := by
  have hvalid : typeUnitFields.Valid .dwarf64 := by
    refine ⟨by decide, by decide, by decide, ?_, fun hold => absurd hold (by decide)⟩
    exact ⟨by decide, by decide⟩
  have hholds : Format.dwarf64.Holds
      ((typeUnitFields.encode .big .dwarf64).length + [9, 9].length) := by
    show 30 < 0x10000000000000000
    decide
  obtain ⟨hwritten, -⟩ := decode_bijective .big 0
  obtain ⟨-, hread⟩ := decode_bijective .little 6
  have hold : (decode .little 6).run
      [10, 0, 0, 0, 4, 0, 0x34, 0x12, 0, 0, 4, 0xaa, 0xbb, 0xcc, 0xdd] = .ok oldHeader [0xdd] := by
    decide +kernel
  obtain ⟨-, htype⟩ := hwritten .dwarf64 typeUnitFields [9, 9] [7] hvalid hholds
  obtain ⟨hbytes, -⟩ := hread _ oldHeader [0xdd] hold
  exact ⟨htype, hold, hbytes⟩

end UnitHeader

end Dwarf
