import Dwarf.Bytes.Leb128
import Dwarf.Form
/-!
# Abbreviation declarations

Entries that look alike share a declaration: a code to refer to it by, the tag,
whether children follow, and for each attribute its name and its form. A
declaration is stored as LEB128 numbers, its list of attributes ended by a pair
of zeros.

> `Declaration.consuming_decode`: a declaration, and the zero code that ends a
> table, takes at least one byte.
-/

namespace Dwarf

/-- What a declaration says about one attribute. -/
structure AttrSpec where
  /-- The name of the attribute. -/
  name : Nat
  /-- The code of the form that its values have. -/
  form : Nat
  /-- The value itself, where the form is the one that stores it here. -/
  const : Option Int := none
  deriving DecidableEq, Repr, Inhabited

namespace AttrSpec

/-- The value that the declaration itself gives to the attribute. -/
def implicitConst? (spec : AttrSpec) : Option Int :=
  if spec.form = Form.implicitConst.code then spec.const else none

/-- Read a specification, or `none` for the pair of zeros that ends a list.
The name is checked before the form, and both before a constant is read. -/
def decode : Decoder (Option AttrSpec) := do
  let name ← Decoder.unsigned
  let form ← Decoder.unsigned
  if name = 0 ∧ form = 0 then return none
  else if name = 0 then Decoder.fail .zeroAttributeName
  else if form = 0 then Decoder.fail .zeroForm
  else if 0xffff < name then Decoder.fail (.attributeNameRange name)
  else if 0xffff < form then Decoder.fail (.formRange form)
  else if form = Form.implicitConst.code then
    let const ← Decoder.signed
    return some { name, form, const := some const }
  else return some { name, form }

/-- Write a specification in its shortest form. -/
def encode (spec : AttrSpec) : Bytes :=
  Leb128.encodeUnsigned spec.name ++ Leb128.encodeUnsigned spec.form
    ++ match spec.implicitConst? with
      | some const => Leb128.encodeSigned const
      | none => []

theorem forward_decode : Decoder.Forward decode := by
  refine Decoder.forward_unsigned.bind fun name => Decoder.forward_unsigned.bind fun form => ?_
  refine .ite (.pure _) (.ite (.fail _) (.ite (.fail _) (.ite (.fail _) (.ite (.fail _) ?_))))
  exact .ite (Decoder.forward_signed.bind fun const => .pure _) (.pure _)

/-- A specification, and the end of a list, takes at least the byte of its name. -/
theorem consuming_decode : Decoder.Consuming decode := by
  refine Decoder.consuming_unsigned.bind fun name => Decoder.forward_unsigned.bind fun form => ?_
  refine .ite (.pure _) (.ite (.fail _) (.ite (.fail _) (.ite (.fail _) (.ite (.fail _) ?_))))
  exact .ite (Decoder.forward_signed.bind fun const => .pure _) (.pure _)

/-- Read specifications up to the pair of zeros that ends their list. -/
def readList (bs : Bytes) : Outcome (List AttrSpec) :=
  match _h : decode.run bs with
  | .fault cause rest => .fault cause rest
  | .ok none rest => .ok [] rest
  | .ok (some spec) rest =>
    match readList rest with
    | .fault cause rest => .fault cause rest
    | .ok specs rest => .ok (spec :: specs) rest
  termination_by bs.length
  decreasing_by exact consuming_decode _h

/-- The specifications up to the pair of zeros that ends their list. -/
def decodeList : Decoder (List AttrSpec) := ⟨readList⟩

theorem forward_decodeList : Decoder.Forward decodeList := by
  intro bs
  show (readList bs).rest <:+ bs
  have hd := forward_decode bs
  fun_induction readList bs with
  | case1 bs cause rest h => rwa [h] at hd
  | case2 bs rest h => rwa [h] at hd
  | case3 bs spec rest h cause rest' hrec ih =>
    rw [h] at hd
    rw [hrec] at ih
    exact (ih (forward_decode rest)).trans hd
  | case4 bs spec rest h specs rest' hrec ih =>
    rw [h] at hd
    rw [hrec] at ih
    exact (ih (forward_decode rest)).trans hd

/-- Write specifications and the pair of zeros after them. -/
def encodeList (specs : List AttrSpec) : Bytes := specs.flatMap encode ++ [0, 0]

end AttrSpec

/-- What entries with a given code look like. -/
structure Declaration where
  /-- The code that entries use. Zero is no code. -/
  code : Nat
  /-- The tag of the entries. -/
  tag : Nat
  /-- Whether children of an entry follow it. -/
  hasChildren : Bool
  /-- The attributes of the entries, in the order of their values. -/
  attributes : List AttrSpec
  deriving DecidableEq, Repr, Inhabited

namespace Declaration

/-- A declaration with the given children flag, of which only 1 means that there
are children. `none` for code zero, which entries use to end a list of children. -/
def ofFlag? (code tag flag : Nat) (attributes : List AttrSpec) : Option Declaration :=
  if code = 0 then none
  else some { code, tag, hasChildren := flag = 1, attributes }

/-- Read a declaration, or `none` for the zero code that ends a table. -/
def decode : Decoder (Option Declaration) := do
  let code ← Decoder.unsigned
  if code = 0 then return none
  else
    let tag ← Decoder.unsigned
    if tag = 0 then Decoder.fail .zeroTag
    else if 0xffff < tag then Decoder.fail (.tagRange tag)
    else
      let flag ← Decoder.byte
      if 1 < flag then Decoder.fail (.childrenFlag flag)
      else
        let attributes ← AttrSpec.decodeList
        return some { code, tag, hasChildren := flag = 1, attributes }

theorem forward_decode : Decoder.Forward decode := by
  refine Decoder.forward_unsigned.bind fun code => .ite (.pure _) ?_
  refine Decoder.forward_unsigned.bind fun tag => .ite (.fail _) (.ite (.fail _) ?_)
  refine Decoder.forward_byte.bind fun flag => .ite (.fail _) ?_
  exact AttrSpec.forward_decodeList.bind fun attributes => .pure _

/-- A declaration, and the end of a table, takes at least the byte of its code. -/
theorem consuming_decode : Decoder.Consuming decode := by
  refine Decoder.consuming_unsigned.bind fun code => .ite (.pure _) ?_
  refine Decoder.forward_unsigned.bind fun tag => .ite (.fail _) (.ite (.fail _) ?_)
  refine Decoder.forward_byte.bind fun flag => .ite (.fail _) ?_
  exact AttrSpec.forward_decodeList.bind fun attributes => .pure _

/-- Write a declaration in its shortest form. -/
def encode (d : Declaration) : Bytes :=
  Leb128.encodeUnsigned d.code ++ Leb128.encodeUnsigned d.tag
    ++ [if d.hasChildren then 1 else 0] ++ AttrSpec.encodeList d.attributes

end Declaration

end Dwarf
