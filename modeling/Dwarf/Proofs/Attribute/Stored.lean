import Dwarf.Proofs.Attribute.Delimited
import Dwarf.Proofs.Bytes.Leb128
/-!
# What the format stores for each form

The reader takes a form to a layout and reads that. This module writes the format
down the other way round, as the DWARF standard does: for each form, which bytes
store which value. Most forms belong to one of five families, and a form is in a
family by one line of its table: an integer of a fixed width, an offset as wide as
the format of the unit, a LEB128 number, or a block after a length of one or the
other kind. The remaining ones have a rule each.

> `Form.Stores`: bytes store a value in a form.
>
> `Attribute.spells_decodeAs`: the bytes that are read as an attribute are those
> that store its value.
>
> `Attribute.decode_stored`: every value that a form can hold is read back from its
> bytes, and nothing else is read.
-/

namespace Dwarf

namespace Form

/-- The forms of an integer of fixed width, with what it means. -/
def fixed? : Form → Option (Nat × (Nat → Value))
  | data1 => some (1, .data 1)
  | data2 => some (2, .data 2)
  | data4 => some (4, .data 4)
  | data8 => some (8, .data 8)
  | ref1 => some (1, .unitRef)
  | ref2 => some (2, .unitRef)
  | ref4 => some (4, .unitRef)
  | ref8 => some (8, .unitRef)
  | refSup4 => some (4, .supInfoRef)
  | refSup8 => some (8, .supInfoRef)
  | refSig8 => some (8, .typeRef)
  | strx1 => some (1, .strIndex)
  | strx2 => some (2, .strIndex)
  | strx3 => some (3, .strIndex)
  | strx4 => some (4, .strIndex)
  | addrx1 => some (1, .addrIndex)
  | addrx2 => some (2, .addrIndex)
  | addrx3 => some (3, .addrIndex)
  | addrx4 => some (4, .addrIndex)
  | _ => none

/-- The forms of an offset into a section, which has four or eight bytes by the format. -/
def offset? : Form → Option (Nat → Value)
  | strp => some .strRef
  | lineStrp => some .lineStrRef
  | strpSup | gnuStrpAlt => some .supStrRef
  | gnuRefAlt => some .supInfoRef
  | secOffset => some .secOffset
  | _ => none

/-- The forms of an unsigned LEB128 number. -/
def number? : Form → Option (Nat → Value)
  | udata => some .udata
  | refUdata => some .unitRef
  | strx | gnuStrIndex => some .strIndex
  | addrx | gnuAddrIndex => some .addrIndex
  | loclistx => some .locListIndex
  | rnglistx => some .rngListIndex
  | _ => none

/-- The forms of a block, with the width of the length before it. -/
def block? : Form → Option Nat
  | block1 => some 1
  | block2 => some 2
  | block4 => some 4
  | _ => none

/-- The forms of bytes after a LEB128 length. -/
def counted? : Form → Option (Bytes → Value)
  | block => some .block
  | exprloc => some .exprloc
  | _ => none

open Leb128 in
/-- `bytes` store `value` in a form, in a unit with the parameters `enc`. The number
that a declaration gives is `const`. -/
inductive Stores (enc : Encoding) (const : Option Int) : Form → Value → Bytes → Prop where
  | addr {n : Nat} {bytes : Bytes} (h : enc.order.IsInteger enc.addressSize n bytes) :
    Stores enc const addr (.addr n) bytes
  | refAddr {n : Nat} {bytes : Bytes}
    (h : enc.order.IsInteger (if enc.version ≤ 2 then enc.addressSize else enc.format.wordSize)
      n bytes) : Stores enc const refAddr (.infoRef n) bytes
  | fixed {form : Form} {width n : Nat} {meaning : Nat → Value} {bytes : Bytes}
    (hform : form.fixed? = some (width, meaning)) (h : enc.order.IsInteger width n bytes) :
    Stores enc const form (meaning n) bytes
  | offset {form : Form} {n : Nat} {meaning : Nat → Value} {bytes : Bytes}
    (hform : form.offset? = some meaning) (h : enc.order.IsInteger enc.format.wordSize n bytes) :
    Stores enc const form (meaning n) bytes
  | number {form : Form} {n : Nat} {meaning : Nat → Value} {bytes : Bytes}
    (hform : form.number? = some meaning) (h : IsUnsigned n bytes) :
    Stores enc const form (meaning n) bytes
  | sdata {i : Int} {bytes : Bytes} (h : IsSigned i bytes) : Stores enc const sdata (.sdata i) bytes
  | block {form : Form} {width : Nat} {head content : Bytes} (hform : form.block? = some width)
    (h : enc.order.IsInteger width content.length head) :
    Stores enc const form (.block content) (head ++ content)
  | counted {form : Form} {meaning : Bytes → Value} {head content : Bytes}
    (hform : form.counted? = some meaning) (h : IsUnsigned content.length head) :
    Stores enc const form (meaning content) (head ++ content)
  | data16 {content : Bytes} (h : content.length = 16) :
    Stores enc const data16 (.block content) content
  | string {text : Bytes} (h : ∀ b ∈ text, b ≠ 0) :
    Stores enc const string (.string text) (text ++ [0])
  | flag (b : UInt8) : Stores enc const flag (.flag (b != 0)) [b]
  | flagPresent : Stores enc const flagPresent (.flag true) []
  | implicitConst {i : Int} (h : const = some i) : Stores enc const implicitConst (.sdata i) []

end Form

namespace Decoder

theorem spells_address {order : ByteOrder} {size value : Nat} {bytes : Bytes} :
    (address order size).Spells bytes value ↔
      (size = 1 ∨ size = 2 ∨ size = 4 ∨ size = 8) ∧ order.IsInteger size value bytes := by
  by_cases hsize : size = 1 ∨ size = 2 ∨ size = 4 ∨ size = 8
  · rw [address, if_pos hsize, spells_uint, and_iff_right hsize]
  · rw [address, if_neg hsize]
    constructor
    · intro h
      cases h
    · intro hboth
      obtain ⟨h, -⟩ := hboth
      exact absurd h hsize

/-- Bytes after their length, whichever way that is written. -/
theorem spells_counted {d : Decoder Nat} (hd : Delimited d) {bytes content : Bytes} :
    (d >>= take).Spells bytes content ↔
      ∃ head, bytes = head ++ content ∧ d.Spells head content.length := by
  rw [hd.spells_bind]
  constructor
  · intro h
    obtain ⟨count, head, tail, rfl, hhead, htail⟩ := h
    obtain ⟨rfl, rfl⟩ := spells_take.mp htail
    exact ⟨head, rfl, hhead⟩
  · intro h
    obtain ⟨head, rfl, hhead⟩ := h
    exact ⟨_, head, content, rfl, hhead, spells_take.mpr ⟨rfl, rfl⟩⟩

theorem spells_block {order : ByteOrder} {width : Nat} (hwidth : width = 1 ∨ width = 2 ∨ width = 4)
    {bytes content : Bytes} : (block order width).Spells bytes content ↔
      ∃ head, bytes = head ++ content ∧ order.IsInteger width content.length head := by
  rw [block, if_pos hwidth]
  refine (spells_counted (delimited_uint order width)).trans ?_
  simp only [spells_uint]

theorem spells_countedBlock {bytes content : Bytes} : countedBlock.Spells bytes content ↔
    ∃ head, bytes = head ++ content ∧ Leb128.IsUnsigned content.length head := by
  refine (spells_counted delimited_unsigned).trans ?_
  simp only [spells_unsigned]

end Decoder

/-- A byte is an integer of one byte in either order. -/
theorem ByteOrder.isInteger_one {order : ByteOrder} {n : Nat} {bytes : Bytes} :
    order.IsInteger 1 n bytes ↔ ∃ b : UInt8, bytes = [b] ∧ b.toNat = n := by
  constructor
  · intro h
    obtain ⟨hlen, rfl⟩ := h
    obtain ⟨b, rfl⟩ := List.length_eq_one_iff.mp hlen
    refine ⟨b, rfl, ?_⟩
    cases order <;> rfl
  · intro h
    obtain ⟨b, rfl, rfl⟩ := h
    refine ⟨rfl, ?_⟩
    cases order <;> rfl

theorem toNat_bne_zero (b : UInt8) : (b.toNat != 0) = (b != 0) := by
  rw [Bool.eq_iff_iff, bne_iff_ne, bne_iff_ne, ne_eq, ne_eq, ← UInt8.toNat_inj]
  rfl

namespace Form

open Decoder

variable {enc : Encoding} {const : Option Int} {form : Form} {bytes : Bytes}

/-- What is read in a form is stored in it. -/
theorem stores_of_spells {payload : (form.layout enc const).Payload}
    (h : ((form.layout enc const).decode enc.order).Spells bytes payload) :
    Stores enc const form (form.value enc const payload) bytes := by
  cases form with
  | addr => exact .addr (spells_address.mp h).2
  | refAddr => exact .refAddr (spells_address.mp h).2
  | data1 | data2 | data4 | data8 | ref1 | ref2 | ref4 | ref8 | refSup4 | refSup8 | refSig8
  | strx1 | strx2 | strx3 | strx4 | addrx1 | addrx2 | addrx3 | addrx4 =>
    exact .fixed rfl (spells_uint.mp h)
  | strp | lineStrp | strpSup | gnuStrpAlt | gnuRefAlt | secOffset =>
    exact .offset rfl (spells_uint.mp h)
  | udata | refUdata | strx | gnuStrIndex | addrx | gnuAddrIndex | loclistx | rnglistx =>
    exact .number rfl (spells_unsigned.mp h)
  | sdata => exact .sdata (spells_signed.mp h)
  | block1 | block2 | block4 =>
    obtain ⟨head, rfl, hhead⟩ := (spells_block (by decide)).mp h
    exact .block rfl hhead
  | block | exprloc =>
    obtain ⟨head, rfl, hhead⟩ := spells_countedBlock.mp h
    exact .counted rfl hhead
  | data16 =>
    obtain ⟨rfl, hlen⟩ := spells_take.mp h
    exact .data16 hlen
  | string =>
    obtain ⟨rfl, htext⟩ := spells_terminated.mp h
    exact .string htext
  | flag =>
    obtain ⟨b, rfl, rfl⟩ := ByteOrder.isInteger_one.mp (spells_uint.mp h)
    show Stores enc const flag (.flag (b.toNat != 0)) [b]
    rw [toNat_bne_zero]
    exact .flag b
  | flagPresent =>
    cases h
    exact .flagPresent
  | implicitConst =>
    cases const with
    | none => cases h
    | some i =>
      cases h
      exact .implicitConst rfl

/-- What is stored in a form is read in it, if addresses have a width that can be read. -/
theorem Stores.spells (henc : enc.addressSize = 4 ∨ enc.addressSize = 8) {value : Value}
    (h : Stores enc const form value bytes) : ∃ payload,
      ((form.layout enc const).decode enc.order).Spells bytes payload ∧
        form.value enc const payload = value := by
  cases h with
  | @addr n _ h =>
    exact ⟨n, spells_address.mpr ⟨by omega, h⟩, rfl⟩
  | @refAddr n _ h =>
    refine ⟨n, spells_address.mpr ⟨?_, h⟩, rfl⟩
    -- Either way the offset is as wide as some address.
    by_cases hversion : enc.version ≤ 2
    · rw [if_pos hversion]
      omega
    · rw [if_neg hversion]
      cases enc.format <;> decide
  -- Each line of a table is a form with that layout and that meaning.
  | @fixed _ _ n _ _ hform h =>
    cases form <;> cases hform <;> exact ⟨n, spells_uint.mpr h, rfl⟩
  | @offset _ n _ _ hform h =>
    cases form <;> cases hform <;> exact ⟨n, spells_uint.mpr h, rfl⟩
  | @number _ n _ _ hform h =>
    cases form <;> cases hform <;> exact ⟨n, spells_unsigned.mpr h, rfl⟩
  | @sdata i _ h => exact ⟨i, spells_signed.mpr h, rfl⟩
  | @block _ _ head content hform h =>
    cases form <;> cases hform <;>
      exact ⟨content, (spells_block (by decide)).mpr ⟨head, rfl, h⟩, rfl⟩
  | @counted _ _ head content hform h =>
    cases form <;> cases hform <;> exact ⟨content, spells_countedBlock.mpr ⟨head, rfl, h⟩, rfl⟩
  | data16 h => exact ⟨bytes, spells_take.mpr ⟨rfl, h⟩, rfl⟩
  | @string text h => exact ⟨text, spells_terminated.mpr ⟨rfl, h⟩, rfl⟩
  | flag b =>
    refine ⟨b.toNat, spells_uint.mpr (ByteOrder.isInteger_one.mpr ⟨b, rfl, rfl⟩), ?_⟩
    show Value.flag (b.toNat != 0) = _
    rw [toNat_bne_zero]
  | flagPresent => exact ⟨⟨⟩, rfl, rfl⟩
  | @implicitConst i h =>
    subst h
    exact ⟨i, rfl, rfl⟩

end Form

namespace Attribute

open Decoder

variable {enc : Encoding} {spec : AttrSpec}

/-- The bytes that are read as an attribute store its value in the form with this code. -/
theorem spells_decodeAs (henc : enc.addressSize = 4 ∨ enc.addressSize = 8) {code : Nat}
    {bytes : Bytes} {a : Attribute} : (decodeAs enc spec code).Spells bytes a ↔
      a.name = spec.name ∧ a.form.code = code ∧
        Form.Stores enc spec.implicitConst? a.form a.value bytes := by
  rw [decodeAs]
  split
  · next hcode =>
    constructor
    · intro h
      cases h
    · intro h
      obtain ⟨-, hform, -⟩ := h
      rw [← hform, Form.ofCode?_code] at hcode
      cases hcode
  · next form hcode =>
    rw [(Layout.delimited_decode enc.order _).spells_bind]
    constructor
    · intro h
      obtain ⟨payload, head, tail, rfl, hhead, htail⟩ := h
      obtain ⟨rfl, rfl⟩ := spells_pure.mp htail
      rw [List.append_nil]
      exact ⟨rfl, Form.ofCode?_eq_some.mp hcode, Form.stores_of_spells hhead⟩
    · intro h
      obtain ⟨hname, hform, hstores⟩ := h
      rw [← hform, Form.ofCode?_code] at hcode
      cases hcode
      obtain ⟨payload, hspells, hvalue⟩ := hstores.spells henc
      refine ⟨payload, bytes, [], (List.append_nil _).symm, hspells, spells_pure.mpr ⟨rfl, ?_⟩⟩
      rw [hvalue, ← hname]

/-- A specification with a form of its own leaves no form to be read. -/
theorem decode_of_ne (hspec : spec.form ≠ Form.indirectCode) :
    decode enc spec = decodeAs enc spec spec.form := by
  apply Decoder.ext
  intro bs
  have hresolve : (Form.resolve spec.form).run bs = .ok spec.form bs := Form.readCode_of_ne hspec bs
  rw [decode, run_bind, hresolve]

/-- **Attributes are read exactly as the format stores them.** A payload in the range of
the form is stored by its bytes, and from these and whatever follows it is read back,
in that form and down to the bytes that follow. And whatever is read was stored: an
attribute comes from bytes that store its value in the form of the specification, and
those alone are taken. -/
theorem decode_stored (henc : enc.addressSize = 4 ∨ enc.addressSize = 8)
    (hspec : spec.form ≠ Form.indirectCode) :
    (∀ (form : Form) (payload : (form.layout enc spec.implicitConst?).Payload) (rest : Bytes),
      form.code = spec.form → (form.layout enc spec.implicitConst?).Fits payload →
      Form.Stores enc spec.implicitConst? form (form.value enc spec.implicitConst? payload)
        ((form.layout enc spec.implicitConst?).encode enc.order payload) ∧
      (decode enc spec).run
          ((form.layout enc spec.implicitConst?).encode enc.order payload ++ rest) =
        .ok { name := spec.name, form, value := form.value enc spec.implicitConst? payload } rest) ∧
    ∀ (bs : Bytes) (a : Attribute) (rest : Bytes), (decode enc spec).run bs = .ok a rest ↔
      ∃ bytes, bs = bytes ++ rest ∧ a.name = spec.name ∧ a.form.code = spec.form ∧
        Form.Stores enc spec.implicitConst? a.form a.value bytes := by
  have hexact : ∀ (bs : Bytes) (a : Attribute) (rest : Bytes),
      (decode enc spec).run bs = .ok a rest ↔
        ∃ bytes, bs = bytes ++ rest ∧ a.name = spec.name ∧ a.form.code = spec.form ∧
          Form.Stores enc spec.implicitConst? a.form a.value bytes := by
    intro bs a rest
    rw [(delimited_decode enc spec).run_eq_ok]
    apply exists_congr
    intro bytes
    apply and_congr_right
    intro _
    rw [decode_of_ne hspec, spells_decodeAs henc]
  refine ⟨?_, hexact⟩
  intro form payload rest hform hfits
  have hspells : ((form.layout enc spec.implicitConst?).decode enc.order).Spells
      ((form.layout enc spec.implicitConst?).encode enc.order payload) payload := by
    have hread := Layout.decode_encode enc.order _ hfits []
    rwa [List.append_nil] at hread
  have hstores := Form.stores_of_spells hspells
  exact ⟨hstores, (hexact _ _ rest).mpr ⟨_, rfl, rfl, hform, hstores⟩⟩

/-- An offset of the 64-bit format in a big-endian file. -/
theorem decode_stored_strp :
    (decode ⟨.big, 8, .dwarf64, 5⟩ ⟨3, 0x0e, none⟩).run [0, 0, 0, 0, 0, 0, 0x12, 0x34, 0xff] =
      .ok ⟨3, .strp, .strRef 0x1234⟩ [0xff] ∧
    Form.Stores ⟨.big, 8, .dwarf64, 5⟩ none .strp (.strRef 0x1234)
      [0, 0, 0, 0, 0, 0, 0x12, 0x34] := by
  have hfits : 0x1234 < placeValue 256 8 := by decide
  obtain ⟨hread, -⟩ :=
    @decode_stored ⟨.big, 8, .dwarf64, 5⟩ ⟨3, 0x0e, none⟩ (.inr rfl) (by decide)
  obtain ⟨hstores, hrun⟩ := hread .strp (0x1234 : Nat) [0xff] rfl hfits
  exact ⟨hrun, hstores⟩

end Attribute

end Dwarf
