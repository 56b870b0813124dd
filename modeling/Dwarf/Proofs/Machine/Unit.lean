import Dwarf.Proofs.Info.Concatenation
import Dwarf.Proofs.Info.References
import Dwarf.Proofs.Machine.Abbrev
/-!
# Units in the operations of a machine

A unit computes with positions: the size of its header, where it ends, where each of its entries
starts. None of these sums is checked. They are words because a unit lies in its section: its
length was compared with what is left of the section before anything was added to it, so every
position in the unit is one of the section.

> `headerAt_eq`, `inMemory_of_decode`: a header is read without a trap, and its positions are
> those of a slice.
>
> `nextUnit_eq`: the iterator over the units moves as a cursor does.
-/

namespace Dwarf

namespace Machine

open Reader

variable {limit : Nat}

/-! ### Headers -/

/-- The fields that belong to the unit type with this code. -/
def unitKind (order : ByteOrder) (format : Format) (code : Nat) : Reader UnitKind :=
  match code with
  | 1 => return .compilation
  | 2 => do
    let signature ← uint order 8
    let offset ← Reader.offset order format
    return .typeUnit signature offset
  | 3 => return .partialUnit
  | 4 => do
    let id ← uint order 8
    return .skeleton id
  | 5 => do
    let id ← uint order 8
    return .splitCompilation id
  | 6 => do
    let signature ← uint order 8
    let offset ← Reader.offset order format
    return .splitType signature offset
  | _ => fail (.unknownUnitType code)

/-- The type code, the address size and the offset of the table, in the order of the version. -/
def unitSizes (order : ByteOrder) (format : Format) (version : Nat) : Reader (Nat × Nat × Nat) :=
  if 5 ≤ version then do
    let code ← byte
    let addressSize ← byte
    let abbrevOffset ← Reader.offset order format
    return (code, addressSize, abbrevOffset)
  else do
    let abbrevOffset ← Reader.offset order format
    let addressSize ← byte
    return (UnitKind.compilation.code, addressSize, abbrevOffset)

/-- The fields after the length. -/
def unitFields (order : ByteOrder) (format : Format) : Reader UnitFields := do
  let version ← uint order 2
  if version < 2 ∨ 5 < version then fail (.unknownVersion version)
  else
    let (code, addressSize, abbrevOffset) ← unitSizes order format version
    if addressSize ≠ 4 ∧ addressSize ≠ 8 then fail (.addressSize addressSize)
    else
      let kind ← unitKind order format code
      return { version, addressSize, abbrevOffset, kind }

/-- The bytes of a unit, if there are as many as its length says. -/
def unitBody (length : Nat) : Reader Bytes := do
  let left ← remaining
  if left < length then fail (.unitTooLong length) else slice length

/-- The unit that starts at `offset`. -/
def unitHeader (order : ByteOrder) (offset : Nat) : Reader UnitHeader := do
  let (length, format) ← initialLength order
  let body ← unitBody length
  let (fields, entries) ← Reader.within body (unitFields order format)
  let total ← lift (add format.initialLengthSize length)
  let headerSize ← lift (sub total entries.length)
  return { offset, length, format, order, fields, headerSize, entries }

/-- The unit at `offset` in a section. -/
def headerAt (order : ByteOrder) (info : Bytes) (offset : Nat) :
    Except Trap (Except Fault UnitHeader) :=
  if info.length < offset then return .error .offsetBounds
  else do
    let input ← behind info offset
    let outcome ← (unitHeader order offset).run input
    return outcome.toExcept

/-- The number of bytes of a unit. -/
def totalLength (h : UnitHeader) : Except Trap Nat := add h.format.initialLengthSize h.length

/-- Where a unit ends. -/
def endOffset (h : UnitHeader) : Except Trap Nat := do
  let entries ← add h.offset h.headerSize
  add entries h.entries.length

/-- The unit under a cursor, and the cursor after it. After a fault nothing is left. -/
def nextUnit (order : ByteOrder) (c : Cursor) :
    Except Trap (Except Fault (Option UnitHeader) × Cursor) :=
  if c.rest.isEmpty then return (.ok none, c)
  else do
    match ← (unitHeader order c.offset).run c.rest with
    | .fault cause _ => return (.error cause, { c with rest := [] })
    | .ok h rest =>
      let taken ← sub c.rest.length rest.length
      let offset ← add c.offset taken
      return (.ok (some h), ⟨offset, rest⟩)

/-- The positions of a unit are those of a slice. -/
structure InMemory (h : UnitHeader) : Prop where
  endOffset : h.endOffset ≤ maxLength
  totalLength : h.totalLength ≤ maxLength

theorem computes_unitKind (order : ByteOrder) (format : Format) (code : Nat) :
    (unitKind order format code).Computes limit (UnitKind.decode order format code) := by
  have hword : (uint order 8).Computes limit (Decoder.uint order 8) :=
    computes_uint order (by decide)
  have hforward := Decoder.forward_uint order 8
  have htype : ∀ make : Nat → Nat → UnitKind,
      (do
        let signature ← uint order 8
        let offset ← Reader.offset order format
        return make signature offset : Reader UnitKind).Computes limit (do
        let signature ← Decoder.uint order 8
        let offset ← Decoder.offset order format
        return make signature offset) :=
    fun _ => hword.bind hforward fun _ => (computes_offset order format).bind
      (Decoder.forward_offset order format) fun _ => computes_pure _
  match code with
  | 1 => exact computes_pure _
  | 2 => exact htype _
  | 3 => exact computes_pure _
  | 4 => exact hword.bind hforward fun _ => computes_pure _
  | 5 => exact hword.bind hforward fun _ => computes_pure _
  | 6 => exact htype _
  | 0 => exact computes_fail _
  | _ + 7 => exact computes_fail _

theorem computes_unitSizes (order : ByteOrder) (format : Format) (version : Nat) :
    (unitSizes order format version).Computes limit
      (UnitFields.decodeSizes order format version) := by
  have hoffset : (Reader.offset order format).Computes limit (Decoder.offset order format) :=
    computes_offset order format
  have hforward := Decoder.forward_offset order format
  refine .ite (fun _ => ?_) fun _ => ?_
  · exact computes_byte.bind Decoder.forward_byte fun _ =>
      computes_byte.bind Decoder.forward_byte fun _ =>
        hoffset.bind hforward fun _ => computes_pure _
  · exact hoffset.bind hforward fun _ =>
      computes_byte.bind Decoder.forward_byte fun _ => computes_pure _

theorem computes_unitFields (order : ByteOrder) (format : Format) :
    (unitFields order format).Computes limit (UnitFields.decode order format) := by
  refine (computes_uint order (by decide)).bind (Decoder.forward_uint order 2) fun version => ?_
  refine .ite (fun _ => computes_fail _) fun _ => ?_
  refine (computes_unitSizes order format version).bind
    (UnitFields.forward_decodeSizes order format version) fun sizes => ?_
  refine .ite (fun _ => computes_fail _) fun _ => ?_
  exact (computes_unitKind order format _).bind (UnitKind.forward_decode order format _) fun _ =>
    computes_pure _

theorem computes_unitBody (length : Nat) : (unitBody length).Computes limit
    (Decoder.reporting (.unitTooLong length) (Decoder.take length)) := by
  intro bs hlen
  show (if bs.length < length then fail (.unitTooLong length) else slice length).run bs = _
  simp only [Decoder.reporting]
  by_cases hshort : bs.length < length
  · rw [if_pos hshort, Decoder.take_of_short hshort]
    rfl
  · have hle : length ≤ bs.length := Nat.le_of_not_lt hshort
    rw [if_neg hshort, computes_slice length bs hlen]
    rw [Decoder.take_of_le hle]

/-- The length was compared with what is left before the size of the header is found by it. -/
theorem computes_unitHeader (order : ByteOrder) (offset : Nat) (hlimit : limit ≤ maxLength) :
    (unitHeader order offset).Computes limit (UnitHeader.decode order offset) := by
  refine (computes_initialLength order).bind (Decoder.forward_initialLength order) ?_
  rintro ⟨length, format⟩
  refine (computes_unitBody length).bind_of ((Decoder.forward_take length).reporting _) ?_
  intro body bs rest hlen htake
  obtain ⟨rfl, rfl⟩ := Decoder.take_eq_ok (Decoder.reporting_eq_ok htake)
  have hbody : body.length ≤ limit := by
    rw [List.length_append] at hlen
    omega
  refine (Computes.within (computes_unitFields order format) hbody).bind_of
    (Decoder.forward_within _ _) ?_
  rintro ⟨fields, entries⟩ bs' rest' _ hfields
  obtain ⟨-, hinner⟩ := Decoder.within_eq_ok hfields
  have hle := (UnitFields.forward_decode order format).length_le hinner
  have hsize : format.initialLengthSize ≤ 12 := by cases format <;> decide
  have hheader : format.initialLengthSize + body.length - entries.length =
      format.initialLengthSize + (body.length - entries.length) := by omega
  unfold maxLength at hlimit
  refine .lift_bind (add_eq (by omega)) (.lift_bind (sub_eq (by omega)) ?_)
  rw [hheader]
  exact computes_pure _

theorem headerAt_eq {order : ByteOrder} {info : Bytes} (hlen : info.length ≤ maxLength)
    (offset : Nat) : headerAt order info offset = .ok (UnitHeader.atOffset order info offset) := by
  unfold headerAt UnitHeader.atOffset
  by_cases hout : info.length < offset
  · rw [if_pos hout, if_pos hout]
    rfl
  · have hrest : (info.drop offset).length ≤ info.length := by
      rw [List.length_drop]
      omega
    rw [if_neg hout, if_neg hout, behind_eq (Nat.le_of_not_lt hout)]
    show ((unitHeader order offset).run (info.drop offset) >>= _) = _
    rw [computes_unitHeader order offset hlen _ hrest]
    rfl

theorem inMemory_of_decode {order : ByteOrder} {offset : Nat} {bs rest : Bytes} {h : UnitHeader}
    (hrun : (UnitHeader.decode order offset).run bs = .ok h rest)
    (hlen : offset + bs.length ≤ maxLength) : InMemory h := by
  obtain ⟨head, rfl, hhead, rfl, htotal⟩ := UnitHeader.decode_eq_ok hrun
  simp only [List.length_append] at hlen
  constructor
  · show h.offset + h.headerSize + h.entries.length ≤ maxLength
    omega
  · omega

theorem inMemory_of_atOffset {order : ByteOrder} {info : Bytes} (hlen : info.length ≤ maxLength)
    {offset : Nat} {h : UnitHeader} (hat : UnitHeader.atOffset order info offset = .ok h) :
    InMemory h := by
  unfold UnitHeader.atOffset at hat
  split at hat
  · cases hat
  · next hin =>
    obtain ⟨rest, hrun⟩ := Decoder.value_eq_ok.mp hat
    refine inMemory_of_decode hrun ?_
    rw [List.length_drop]
    omega

theorem inMemory_of_all {order : ByteOrder} {info : Bytes} (hlen : info.length ≤ maxLength)
    {h : UnitHeader} (hmem : h ∈ (UnitHeader.all order info).items) : InMemory h := by
  obtain ⟨i, hi⟩ := List.mem_iff_getElem?.mp hmem
  have htiled := Cursor.tiled_run (UnitHeader.forward_item order) (Cursor.on_atStart info)
  obtain ⟨-, -, hat, -⟩ := UnitHeader.placed_of_tiled htiled hi
  exact inMemory_of_atOffset hlen hat

theorem InMemory.totalLength_eq {h : UnitHeader} (hh : InMemory h) :
    Machine.totalLength h = .ok h.totalLength := by
  have htotal := hh.totalLength
  unfold maxLength UnitHeader.totalLength at htotal
  exact add_eq (by omega)

theorem InMemory.entriesOffset_eq {h : UnitHeader} (hh : InMemory h) :
    add h.offset h.headerSize = .ok h.entriesOffset := by
  have hend := hh.endOffset
  unfold maxLength UnitHeader.endOffset UnitHeader.entriesOffset at hend
  exact add_eq (by omega)

theorem InMemory.endOffset_eq {h : UnitHeader} (hh : InMemory h) :
    Machine.endOffset h = .ok h.endOffset := by
  have hend := hh.endOffset
  unfold maxLength UnitHeader.endOffset at hend
  unfold Machine.endOffset
  rw [hh.entriesOffset_eq]
  exact add_eq (by omega)

/-- The iterator over the units moves as a cursor does. -/
theorem nextUnit_eq (order : ByteOrder) {c : Cursor}
    (hlen : c.offset + c.rest.length ≤ maxLength) :
    nextUnit order c = .ok (c.next (UnitHeader.item order)) := by
  unfold nextUnit Cursor.next
  by_cases hnil : c.rest.isEmpty = true
  · rw [if_pos hnil, if_pos hnil]
    rfl
  · rw [if_neg hnil, if_neg hnil]
    simp only [UnitHeader.item]
    rw [computes_unitHeader order c.offset (Nat.le_refl _) c.rest (by omega)]
    cases hrun : (UnitHeader.decode order c.offset).run c.rest with
    | fault cause rest => rfl
    | ok h rest =>
      have hless := UnitHeader.consuming_decode order c.offset hrun
      show (sub c.rest.length rest.length >>= fun taken => add c.offset taken >>= _) = _
      rw [sub_eq (by omega)]
      show (add c.offset (c.rest.length - rest.length) >>= _) = _
      rw [add_eq (by unfold maxLength at hlen; omega)]
      rfl

end Machine

end Dwarf
