import Dwarf.Proofs.Attribute.Delimited
import Dwarf.Proofs.Machine.Reader
/-!
# Attributes in the operations of a machine

The fields of fixed width are integers of one to eight bytes, so what a form reads is as wide as
its layout says. That no layout asks for more or less is the only fact about forms that is
needed here (`Form.readable_layout`).

A LEB128 number is read through the interface of a stream, byte by byte, and its digits are
put together outside of the library. So only the taking of the bytes is written out.

> `computes_attributesOf`: attributes are read without a trap, in any encoding.
-/

namespace Dwarf

namespace Machine

namespace Reader

variable {limit : Nat} {α : Type}

/-! ### Numbers of variable width -/

/-- The next `count` bytes, or as many as there are. -/
def upTo (count : Nat) : Reader Bytes where
  run bs := do
    let size := min count bs.length
    let head ← before bs size
    let rest ← behind bs size
    return .ok head rest

/-- The next byte of the stream. -/
def streamByte : Reader UInt8 := do
  let head ← upTo 1
  match head with
  | [] => fail .unexpectedEnd
  | b :: _ => return b

/-- One byte more of a number of which `ds` are the first. The first byte without the high bit
is the last. -/
def digit (ds : Bytes) : Reader (Bytes ⊕ Bytes) := do
  let b ← streamByte
  return if b < 0x80 then .inr (ds ++ [b]) else .inl (ds ++ [b])

/-- A LEB128 number, of which the bytes are all read before they are checked. -/
def number (fits : Bytes → Bool) (value : Bytes → α) (cause : Fault) : Reader α := do
  let ds ← loop digit []
  if fits ds then return value ds else fail cause

/-- An unsigned LEB128 number of at most 64 bits. -/
def unsigned : Reader Nat := number Leb128.fitsUnsigned Leb128.digitValue .unsignedOverflow

/-- A signed LEB128 number of at most 64 bits. -/
def signed : Reader Int := number Leb128.fitsSigned Leb128.signedDigitValue .signedOverflow

/-- What `digit` computes. -/
def digitAfter (ds : Bytes) : Decoder (Bytes ⊕ Bytes) where
  run
    | [] => .fault .unexpectedEnd []
    | b :: bs => .ok (if b < 0x80 then .inr (ds ++ [b]) else .inl (ds ++ [b])) bs

/-- The bytes of a number of which `ds` have been read. -/
def digitsAfter (ds : Bytes) : Decoder Bytes where
  run bs :=
    match Leb128.digits? bs with
    | none => .fault .unexpectedEnd []
    | some (es, rest) => .ok (ds ++ es) rest

theorem computes_digit (ds : Bytes) : (digit ds).Computes limit (digitAfter ds) := by
  intro bs _
  cases bs with
  | nil => rfl
  | cons b bs => rfl

theorem loops_digits : Decoder.Loops digitAfter digitsAfter where
  more {ds bs next rest} h := by
    cases bs with
    | nil => cases h
    | cons b bs =>
      injection h with _ hrest
      subst hrest
      exact Nat.lt_succ_self _
  run ds bs := by
    cases bs with
    | nil => rfl
    | cons b bs =>
      by_cases hb : b < 0x80
      · simp only [digitAfter, digitsAfter, Leb128.digits?, if_pos hb]
      · simp only [digitAfter, digitsAfter, Leb128.digits?, if_neg hb]
        cases Leb128.digits? bs with
        | none => rfl
        | some found => simp only [List.append_assoc, List.singleton_append]

theorem computes_digits (ds : Bytes) : (loop digit ds).Computes limit (digitsAfter ds) :=
  Computes.loop computes_digit loops_digits ds

theorem computes_number {fits : Bytes → Bool} {value : Bytes → α} {cause : Fault} :
    (number fits value cause).Computes limit ⟨fun bs =>
      match Leb128.digits? bs with
      | none => .fault .unexpectedEnd []
      | some (ds, rest) => if fits ds then .ok (value ds) rest else .fault cause rest⟩ := by
  intro bs hlen
  show (loop digit [] >>= _).run bs = _
  simp only [bind, computes_digits [] bs hlen, digitsAfter]
  cases Leb128.digits? bs with
  | none => rfl
  | some found =>
    simp only [List.nil_append]
    split <;> rfl

theorem computes_unsigned : unsigned.Computes limit Decoder.unsigned := computes_number

theorem computes_signed : signed.Computes limit Decoder.signed := computes_number

/-! ### Fields -/

/-- An address of `size` bytes. -/
def address (order : ByteOrder) (size : Nat) : Reader Nat :=
  if size = 1 ∨ size = 2 ∨ size = 4 ∨ size = 8 then uint order size else fail (.addressSize size)

/-- An offset into a section. -/
def offset (order : ByteOrder) (format : Format) : Reader Nat := uint order format.wordSize

/-- The length field that opens a unit, and the format. -/
def initialLength (order : ByteOrder) : Reader (Nat × Format) := do
  let short ← uint order 4
  if short < 0xfffffff0 then
    return (short, .dwarf32)
  else if short = 0xffffffff then
    let long ← uint order 8
    return (long, .dwarf64)
  else
    fail (.reservedLength short)

/-- A block of bytes after its length, which has `width` bytes. -/
def block (order : ByteOrder) (width : Nat) : Reader Bytes :=
  if width = 1 ∨ width = 2 ∨ width = 4 then do
    let count ← uint order width
    slice count
  else fail (.addressSize width)

/-- A block of bytes after its length, an unsigned LEB128 number. -/
def countedBlock : Reader Bytes := do
  let count ← unsigned
  slice count

/-- The payload of a layout. -/
def layout (order : ByteOrder) : (l : Layout) → Reader l.Payload
  | .uint width => uint order width
  | .address size => address order size
  | .unsigned => unsigned
  | .signed => signed
  | .block width => block order width
  | .countedBlock => countedBlock
  | .raw count => slice count
  | .terminated => terminated
  | .nothing => pure ⟨⟩
  | .given (some value) => pure value
  | .given none => fail .indirectConstant

theorem computes_address (order : ByteOrder) (size : Nat) :
    (address order size).Computes limit (Decoder.address order size) :=
  .ite (fun h => computes_uint order (by omega)) fun _ => computes_fail _

theorem computes_offset (order : ByteOrder) (format : Format) :
    (offset order format).Computes limit (Decoder.offset order format) :=
  computes_uint order (by cases format <;> decide)

theorem computes_initialLength (order : ByteOrder) :
    (initialLength order).Computes limit (Decoder.initialLength order) := by
  refine (computes_uint order (by decide)).bind (Decoder.forward_uint order 4) fun short => ?_
  refine .ite (fun _ => computes_pure _) fun _ => .ite (fun _ => ?_) fun _ => computes_fail _
  exact (computes_uint order (by decide)).bind (Decoder.forward_uint order 8) fun _ =>
    computes_pure _

theorem computes_block (order : ByteOrder) (width : Nat) :
    (block order width).Computes limit (Decoder.block order width) :=
  .ite (fun h => (computes_uint order (by omega)).bind (Decoder.forward_uint order width)
    fun count => computes_slice count) fun _ => computes_fail _

theorem computes_countedBlock : countedBlock.Computes limit Decoder.countedBlock :=
  computes_unsigned.bind Decoder.forward_unsigned fun count => computes_slice count

theorem computes_layout (order : ByteOrder) {l : Layout} (h : l.Readable) :
    (layout order l).Computes limit (l.decode order) := by
  cases l with
  | uint width => exact computes_uint order h
  | address size => exact computes_address order size
  | unsigned => exact computes_unsigned
  | signed => exact computes_signed
  | block width => exact computes_block order width
  | countedBlock => exact computes_countedBlock
  | raw count => exact computes_slice count
  | terminated => exact computes_terminated
  | nothing => exact computes_pure _
  | given value =>
    cases value with
    | none => exact computes_fail _
    | some value => exact computes_pure _

/-! ### Attributes -/

/-- The code of a form, or one more code that the entry gives in its place. -/
def formStep (code : Nat) : Reader (Nat ⊕ Nat) :=
  if code = Form.indirectCode then do
    let next ← unsigned
    if 0xffff < next then fail (.formRange next) else return .inl next
  else return .inr code

/-- The form code of a value whose declaration gives `code`. -/
def formCode (code : Nat) : Reader Nat := loop formStep code

/-- The attribute that `spec` describes. -/
def attributeOf (enc : Encoding) (spec : AttrSpec) : Reader Attribute := do
  let code ← formCode spec.form
  match Form.ofCode? code with
  | none => fail (.unknownForm code)
  | some form =>
    let payload ← layout enc.order (form.layout enc spec.implicitConst?)
    return { name := spec.name, form, value := form.value enc spec.implicitConst? payload }

/-- One attribute for each description. -/
def attributesOf (enc : Encoding) : List AttrSpec → Reader (List Attribute)
  | [] => pure []
  | spec :: specs => do
    let first ← attributeOf enc spec
    let others ← attributesOf enc specs
    return first :: others

/-- What `formStep` computes. -/
def formCodeStep (code : Nat) : Decoder (Nat ⊕ Nat) :=
  if code = Form.indirectCode then do
    let next ← Decoder.unsigned
    if 0xffff < next then Decoder.fail (.formRange next) else return .inl next
  else return .inr code

theorem computes_formStep (code : Nat) : (formStep code).Computes limit (formCodeStep code) := by
  refine .ite (fun _ => ?_) fun _ => computes_pure _
  exact computes_unsigned.bind Decoder.forward_unsigned fun next =>
    .ite (fun _ => computes_fail _) fun _ => computes_pure _

theorem loops_resolve : Decoder.Loops formCodeStep Form.resolve where
  more {code bs next rest} h := by
    unfold formCodeStep at h
    split at h
    · exact Decoder.consuming_unsigned.bind (fun _ => .ite (.fail _) (.pure _)) h
    · cases h
  run code bs := by
    show Form.readCode code bs = _
    unfold formCodeStep
    by_cases hcode : code = Form.indirectCode
    · rw [if_pos hcode, hcode, Decoder.run_bind]
      cases hrun : Decoder.unsigned.run bs with
      | fault cause rest => exact Form.readCode_fault hrun
      | ok next rest =>
        rw [Form.readCode_indirect hrun]
        by_cases hrange : 0xffff < next
        · simp only [if_pos hrange]
          rfl
        · simp only [if_neg hrange]
          rfl
    · rw [if_neg hcode]
      exact Form.readCode_of_ne hcode bs

theorem computes_formCode (code : Nat) : (formCode code).Computes limit (Form.resolve code) :=
  Computes.loop computes_formStep loops_resolve code

theorem computes_attributeOf (enc : Encoding) (spec : AttrSpec) :
    (attributeOf enc spec).Computes limit (Attribute.decode enc spec) := by
  refine (computes_formCode spec.form).bind (Form.forward_resolve spec.form) fun code => ?_
  unfold Attribute.decodeAs
  cases Form.ofCode? code with
  | none => exact computes_fail _
  | some form =>
    exact (computes_layout enc.order (form.readable_layout enc _)).bind
      (Layout.forward_decode enc.order _) fun _ => computes_pure _

theorem computes_attributesOf (enc : Encoding) (specs : List AttrSpec) :
    (attributesOf enc specs).Computes limit (Attribute.decodeAll enc specs) := by
  induction specs with
  | nil => exact computes_pure _
  | cons spec specs ih =>
    exact (computes_attributeOf enc spec).bind (Attribute.forward_decode enc spec) fun _ =>
      ih.bind (Attribute.forward_decodeAll enc specs) fun _ => computes_pure _

end Reader

end Machine

end Dwarf
