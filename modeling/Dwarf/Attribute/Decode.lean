import Dwarf.Abbrev.Declaration
import Dwarf.Attribute.Layout
import Dwarf.Attribute.Value
/-!
# Reading an attribute

An attribute is read in three steps. Its form is found, which may mean reading
it from the entry, possibly several times over. The form and the parameters of
the unit give the layout, and the layout is read. The payload is then taken for
what the form says it is.

> `Form.layout` and `Form.value` are the whole table of forms; everything else
> about a form follows from its layout.
>
> `Attribute.forward_decode`: reading attributes moves forward, though an
> attribute may take no bytes at all.
-/

namespace Dwarf

namespace Form

/-- The layout of a form's values in a unit with the given parameters. `const` is
the value that the declaration gives. Up to version 2 a reference into the
section is as wide as an address, and as an offset from then on. -/
def layout (enc : Encoding) (const : Option Int) : Form → Layout
  | addr => .address enc.addressSize
  | block1 => .block 1
  | block2 => .block 2
  | block4 => .block 4
  | block | exprloc => .countedBlock
  | data1 | flag | ref1 | strx1 | addrx1 => .uint 1
  | data2 | ref2 | strx2 | addrx2 => .uint 2
  | strx3 | addrx3 => .uint 3
  | data4 | ref4 | refSup4 | strx4 | addrx4 => .uint 4
  | data8 | ref8 | refSup8 | refSig8 => .uint 8
  | data16 => .raw 16
  | string => .terminated
  | sdata => .signed
  | udata | refUdata | strx | addrx | loclistx | rnglistx | gnuAddrIndex | gnuStrIndex =>
    .unsigned
  | refAddr => .address (if enc.version ≤ 2 then enc.addressSize else enc.format.wordSize)
  | strp | strpSup | lineStrp | secOffset | gnuRefAlt | gnuStrpAlt => .uint enc.format.wordSize
  | flagPresent => .nothing
  | implicitConst => .given const

/-- What a payload means in each form. -/
def value (enc : Encoding) (const : Option Int) :
    (form : Form) → (form.layout enc const).Payload → Value
  | addr, n => .addr n
  | block1, bs | block2, bs | block4, bs | block, bs | data16, bs => .block bs
  | data1, n => .data 1 n
  | data2, n => .data 2 n
  | data4, n => .data 4 n
  | data8, n => .data 8 n
  | udata, n => .udata n
  | sdata, i | implicitConst, i => .sdata i
  | exprloc, bs => .exprloc bs
  | flag, (n : Nat) => .flag (n != 0)
  | flagPresent, _ => .flag true
  | secOffset, n => .secOffset n
  | ref1, n | ref2, n | ref4, n | ref8, n | refUdata, n => .unitRef n
  | refAddr, n => .infoRef n
  | refSup4, n | refSup8, n | gnuRefAlt, n => .supInfoRef n
  | refSig8, n => .typeRef n
  | string, bs => .string bs
  | strp, n => .strRef n
  | strpSup, n | gnuStrpAlt, n => .supStrRef n
  | lineStrp, n => .lineStrRef n
  | strx, n | gnuStrIndex, n | strx1, n | strx2, n | strx3, n | strx4, n => .strIndex n
  | addrx, n | gnuAddrIndex, n | addrx1, n | addrx2, n | addrx3, n | addrx4, n => .addrIndex n
  | loclistx, n => .locListIndex n
  | rnglistx, n => .rngListIndex n

/-- Read form codes as long as they say that another one follows. -/
def readCode (code : Nat) (bs : Bytes) : Outcome Nat :=
  if code = indirectCode then
    match _h : Decoder.unsigned.run bs with
    | .fault cause rest => .fault cause rest
    | .ok code rest =>
      if 0xffff < code then .fault (.formRange code) rest else readCode code rest
  else .ok code bs
  termination_by bs.length
  decreasing_by exact Decoder.consuming_unsigned _h

/-- The form code of a value whose declaration gives `code`. -/
def resolve (code : Nat) : Decoder Nat := ⟨readCode code⟩

theorem forward_resolve (code : Nat) : Decoder.Forward (resolve code) := by
  intro bs
  show (readCode code bs).rest <:+ bs
  fun_induction readCode code bs with
  | case1 bs cause rest h =>
    have := Decoder.forward_unsigned bs
    rwa [h] at this
  | case2 bs code rest h => exact Decoder.forward_unsigned.suffix h
  | case3 bs code rest h hrange ih => exact ih.trans (Decoder.forward_unsigned.suffix h)
  | case4 code bs => exact List.suffix_refl bs

end Form

/-- An attribute of an entry. -/
structure Attribute where
  /-- The name of the attribute. -/
  name : Nat
  /-- The form in which the value was stored. -/
  form : Form
  /-- The value. -/
  value : Value
  deriving DecidableEq, Repr, Inhabited

namespace Attribute

/-- Read a value in the form with this code. -/
def decodeAs (enc : Encoding) (spec : AttrSpec) (code : Nat) : Decoder Attribute :=
  match Form.ofCode? code with
  | none => Decoder.fail (.unknownForm code)
  | some form => do
    let payload ← (form.layout enc spec.implicitConst?).decode enc.order
    return { name := spec.name, form, value := form.value enc spec.implicitConst? payload }

/-- Read the attribute that `spec` describes. -/
def decode (enc : Encoding) (spec : AttrSpec) : Decoder Attribute := do
  let code ← Form.resolve spec.form
  decodeAs enc spec code

/-- Read one attribute for each description. -/
def decodeAll (enc : Encoding) : List AttrSpec → Decoder (List Attribute)
  | [] => pure []
  | spec :: specs => do
    let first ← decode enc spec
    let others ← decodeAll enc specs
    return first :: others

theorem forward_decodeAs (enc : Encoding) (spec : AttrSpec) (code : Nat) :
    Decoder.Forward (decodeAs enc spec code) := by
  unfold decodeAs
  split
  · exact .fail _
  · exact (Layout.forward_decode enc.order _).bind fun _ => .pure _

theorem forward_decode (enc : Encoding) (spec : AttrSpec) : Decoder.Forward (decode enc spec) :=
  (Form.forward_resolve spec.form).bind fun code => forward_decodeAs enc spec code

theorem forward_decodeAll (enc : Encoding) (specs : List AttrSpec) :
    Decoder.Forward (decodeAll enc specs) := by
  induction specs with
  | nil => exact .pure _
  | cons spec specs ih => exact (forward_decode enc spec).bind fun _ => ih.bind fun _ => .pure _

end Attribute

end Dwarf
