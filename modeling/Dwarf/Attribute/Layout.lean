import Dwarf.Bytes.Leb128
/-!
# Layouts

There are many forms but few ways to lay out a value in bytes. A `Layout` is one
of those ways, `Layout.Payload` the type of what it stores. Forms that differ
only in what their value means share a layout, and what is true of every form is
proved once for each layout.

> `decode_encode`: a payload that fits its layout is read back from its bytes,
> whatever follows them.
-/

namespace Dwarf

/-- A way to store a payload in bytes. -/
inductive Layout where
  /-- An unsigned integer of `width` bytes. -/
  | uint (width : Nat)
  /-- An unsigned integer as wide as an address of `size` bytes. -/
  | address (size : Nat)
  /-- An unsigned LEB128 number. -/
  | unsigned
  /-- A signed LEB128 number. -/
  | signed
  /-- Bytes after their length, an integer of `width` bytes. -/
  | block (width : Nat)
  /-- Bytes after their length, an unsigned LEB128 number. -/
  | countedBlock
  /-- `count` bytes. -/
  | raw (count : Nat)
  /-- Bytes up to a zero byte. -/
  | terminated
  /-- No bytes and nothing to know. -/
  | nothing
  /-- No bytes: the number, if there is one, is known from elsewhere. -/
  | given (value : Option Int)
  deriving DecidableEq, Repr

namespace Layout

/-- What a layout stores. -/
abbrev Payload : Layout → Type
  | uint _ | address _ | unsigned => Nat
  | signed | given _ => Int
  | block _ | countedBlock | raw _ | terminated => Bytes
  | nothing => PUnit

/-- Read a payload. -/
def decode (order : ByteOrder) : (layout : Layout) → Decoder layout.Payload
  | uint width => Decoder.uint order width
  | address size => Decoder.address order size
  | unsigned => Decoder.unsigned
  | signed => Decoder.signed
  | block width => Decoder.block order width
  | countedBlock => Decoder.countedBlock
  | raw count => Decoder.take count
  | terminated => Decoder.terminated
  | nothing => pure ⟨⟩
  | given (some value) => pure value
  | given none => Decoder.fail .indirectConstant

/-- Write a payload. LEB128 numbers are written in their shortest form. -/
def encode (order : ByteOrder) : (layout : Layout) → layout.Payload → Bytes
  | uint width, value => order.encode width value
  | address size, value => order.encode size value
  | unsigned, value => Leb128.encodeUnsigned value
  | signed, value => Leb128.encodeSigned value
  | block width, bytes => order.encode width bytes.length ++ bytes
  | countedBlock, bytes => Leb128.encodeUnsigned bytes.length ++ bytes
  | raw _, bytes => bytes
  | terminated, bytes => bytes ++ [0]
  | nothing, _ => []
  | given _, _ => []

/-- The payloads that can be written in a layout. -/
def Fits : (layout : Layout) → layout.Payload → Prop
  | uint width, (value : Nat) => value < placeValue 256 width
  | address size, (value : Nat) =>
    (size = 1 ∨ size = 2 ∨ size = 4 ∨ size = 8) ∧ value < placeValue 256 size
  | unsigned, (value : Nat) => value < 0x10000000000000000
  | signed, (value : Int) => -0x8000000000000000 ≤ value ∧ value < 0x8000000000000000
  | block width, (bytes : Bytes) =>
    (width = 1 ∨ width = 2 ∨ width = 4) ∧ bytes.length < placeValue 256 width
  | countedBlock, (bytes : Bytes) => bytes.length < 0x10000000000000000
  | raw count, (bytes : Bytes) => bytes.length = count
  | terminated, (bytes : Bytes) => ∀ b ∈ bytes, b ≠ 0
  | nothing, _ => True
  | given known, (value : Int) => known = some value

theorem decode_encode (order : ByteOrder) (layout : Layout) {payload : layout.Payload}
    (h : layout.Fits payload) (rest : Bytes) :
    (layout.decode order).run (layout.encode order payload ++ rest) = .ok payload rest := by
  cases layout with
  | uint width => exact Decoder.uint_encode order h rest
  | address size =>
    show (Decoder.address order size).run _ = _
    rw [Decoder.address, if_pos h.1]
    exact Decoder.uint_encode order h.2 rest
  | unsigned => exact Decoder.unsigned_encode h rest
  | signed => exact Decoder.signed_encode h.1 h.2 rest
  | block width =>
    show (Decoder.block order width).run (_ ++ payload ++ rest) = _
    rw [Decoder.block, if_pos h.1, Decoder.run_bind, List.append_assoc,
      Decoder.uint_encode order h.2]
    exact Decoder.take_append payload rest
  | countedBlock =>
    show Decoder.countedBlock.run (_ ++ payload ++ rest) = _
    rw [Decoder.countedBlock, Decoder.run_bind, List.append_assoc, Decoder.unsigned_encode h]
    exact Decoder.take_append payload rest
  | raw count =>
    have hlen : List.length payload = count := h
    show (Decoder.take count).run (payload ++ rest) = _
    rw [← hlen]
    exact Decoder.take_append payload rest
  | terminated =>
    show Decoder.terminated.run (payload ++ [0] ++ rest) = _
    rw [List.append_assoc]
    exact Decoder.terminated_append h rest
  | nothing => rfl
  | given known =>
    cases known with
    | none => cases h
    | some value =>
      cases h
      rfl

theorem forward_decode (order : ByteOrder) (layout : Layout) :
    Decoder.Forward (layout.decode order) := by
  cases layout with
  | uint width => exact Decoder.forward_uint order width
  | address size => exact Decoder.forward_address order size
  | unsigned => exact Decoder.forward_unsigned
  | signed => exact Decoder.forward_signed
  | block width => exact Decoder.forward_block order width
  | countedBlock => exact Decoder.forward_countedBlock
  | raw count => exact Decoder.forward_take count
  | terminated => exact Decoder.forward_terminated
  | nothing => exact .pure _
  | given value =>
    cases value with
    | none => exact .fail _
    | some value => exact .pure _

end Layout

end Dwarf
