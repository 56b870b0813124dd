/-!
# Byte strings and the integers they spell

A fixed-width integer is a positional numeral in base 256. Little-endian order
puts the least significant digit first, big-endian order puts it last, and
nothing else distinguishes the two: reading in one order is reading the
reversed bytes in the other.

Every width in the library goes through `ByteOrder.decode`, so the two statements
that matter are made once, for all widths:

> `ByteOrder.decode_encode`: a value written in `width` bytes reads back modulo
> `placeValue 256 width`.
>
> `ByteOrder.encode_decode`: bytes that were read are written back unchanged.
-/

namespace Dwarf

/-- A finite byte string. -/
abbrev Bytes := List UInt8

/-- The bytes of a text in UTF-8. -/
def bytesOfString (text : String) : Bytes := text.toUTF8.data.toList

/-- The order in which the bytes of an integer are stored. -/
inductive ByteOrder where
  /-- Least significant byte first. -/
  | little
  /-- Most significant byte first. -/
  | big
  deriving DecidableEq, Repr, Inhabited

/-- What a one in place `n` of a numeral is worth, which is also how many numerals
of `n` digits there are. -/
def placeValue (base : Nat) : (n : Nat) → Nat
  | 0 => 1
  | n + 1 => base * placeValue base n

/-- The numeral in base 256 whose digits are listed from the least significant. -/
def littleValue : Bytes → Nat
  | [] => 0
  | b :: bs => b.toNat + 256 * littleValue bs

/-- The `width` lowest base-256 digits of `value`, least significant first. -/
def littleDigits : (width value : Nat) → Bytes
  | 0, _ => []
  | width + 1, value => UInt8.ofNat value :: littleDigits width (value / 256)

@[simp] theorem length_littleDigits (width value : Nat) :
    (littleDigits width value).length = width := by
  induction width generalizing value with
  | zero => rfl
  | succ width ih => simp [littleDigits, ih]

theorem littleValue_lt (bs : Bytes) : littleValue bs < placeValue 256 bs.length := by
  induction bs with
  | nil => decide
  | cons b bs ih =>
    have hb : b.toNat < 256 := b.toNat_lt
    rw [littleValue, List.length_cons, placeValue]
    omega

theorem littleValue_littleDigits (width value : Nat) :
    littleValue (littleDigits width value) = value % placeValue 256 width := by
  induction width generalizing value with
  | zero => simp [littleDigits, littleValue, placeValue, Nat.mod_one]
  | succ width ih =>
    have hdigit : (UInt8.ofNat value).toNat = value % 256 := by simp
    rw [littleDigits, littleValue, ih, hdigit, placeValue, Nat.mod_mul]

theorem littleDigits_littleValue (bs : Bytes) :
    littleDigits bs.length (littleValue bs) = bs := by
  induction bs with
  | nil => rfl
  | cons b bs ih =>
    have hb : b.toNat < 256 := b.toNat_lt
    have hhead : UInt8.ofNat (b.toNat + 256 * littleValue bs) = b := by
      apply UInt8.toNat_inj.mp
      simp
    have htail : (b.toNat + 256 * littleValue bs) / 256 = littleValue bs := by omega
    simp only [List.length_cons, littleValue, littleDigits, hhead, htail, ih]

namespace ByteOrder

/-- The integer that `bs` spells in this order. -/
def decode : ByteOrder → Bytes → Nat
  | little, bs => littleValue bs
  | big, bs => littleValue bs.reverse

/-- `value` written in `width` bytes. Digits above the width are dropped. -/
def encode : ByteOrder → (width value : Nat) → Bytes
  | little, width, value => littleDigits width value
  | big, width, value => (littleDigits width value).reverse

@[simp] theorem length_encode (order : ByteOrder) (width value : Nat) :
    (order.encode width value).length = width := by
  cases order <;> simp [encode]

theorem decode_lt (order : ByteOrder) (bs : Bytes) : order.decode bs < placeValue 256 bs.length := by
  cases order with
  | little => exact littleValue_lt bs
  | big => simpa [decode] using littleValue_lt bs.reverse

theorem decode_encode (order : ByteOrder) (width value : Nat) :
    order.decode (order.encode width value) = value % placeValue 256 width := by
  cases order <;> simp [decode, encode, littleValue_littleDigits]

theorem encode_decode (order : ByteOrder) (bs : Bytes) :
    order.encode bs.length (order.decode bs) = bs := by
  cases order with
  | little => exact littleDigits_littleValue bs
  | big =>
    have h := littleDigits_littleValue bs.reverse
    rw [List.length_reverse] at h
    rw [encode, decode, h, List.reverse_reverse]

/-- The integer in the first `width` bytes, or `none` when there are fewer. -/
def first? (order : ByteOrder) (width : Nat) (bs : Bytes) : Option Nat :=
  if width ≤ bs.length then some (order.decode (bs.take width)) else none

/-- The integer that a whole buffer spells, or `none` unless it has one to
eight bytes. -/
def whole? (order : ByteOrder) (bs : Bytes) : Option Nat :=
  if 1 ≤ bs.length ∧ bs.length ≤ 8 then some (order.decode bs) else none

end ByteOrder

end Dwarf
