import Dwarf.Proofs.Bytes.LastByte
import Dwarf.Proofs.Bytes.Session
import Dwarf.Proofs.Machine.Attribute
/-!
# Integers put together in words

An integer of two, four or eight bytes is put together in a word of that many bytes. One whose
width is data is put together in a word of 64 bits, for which zero bytes are written where its most
significant bytes are missing. These are behind its bytes or before them, depending on the order.
Each byte is shifted to its place and joined to the bits that are there. In the order that starts
with the most significant byte it is the word that is shifted, once for each byte that follows.

No byte must be swapped or lost in any of these ways, so they all are compared with one definition,
the sum of the bytes as digits in base 256:

> `joinedWord_eq`: a word put together in either order has the value of its bytes, as far as that
> fits.
>
> `computes_padded`, `computes_fixed`: integers of both kinds are read without a trap, and have
> the value that the decoders give them.
>
> `integer_positional`: all integers are positional, and readers of one width agree.
-/

namespace Dwarf

/-! ### Digits in base 256 -/

/-- The sum of bytes as digits in base 256, of which the first is worth least. -/
def byteSum (bs : Bytes) : Nat := ∑ i ∈ Finset.range bs.length, (bs.getD i 0).toNat * 256 ^ i

/-- The bytes of an integer, from the least significant one on. -/
def ByteOrder.fromLeast : ByteOrder → Bytes → Bytes
  | little, bs => bs
  | big, bs => bs.reverse

theorem littleValue_eq_byteSum (bs : Bytes) : littleValue bs = byteSum bs := by
  induction bs with
  | nil => rfl
  | cons b bs ih =>
    rw [littleValue, ih, byteSum, byteSum, List.length_cons, Finset.sum_range_succ', Finset.mul_sum,
      Nat.add_comm]
    congr 1
    · refine Finset.sum_congr rfl fun i _ => ?_
      rw [List.getD_cons_succ, Nat.pow_succ', Nat.mul_left_comm]
    · rw [List.getD_cons_zero, Nat.pow_zero, Nat.mul_one]

theorem ByteOrder.decode_eq_byteSum (order : ByteOrder) (bs : Bytes) :
    order.decode bs = byteSum (order.fromLeast bs) := by
  cases order with
  | little => exact littleValue_eq_byteSum bs
  | big => exact littleValue_eq_byteSum bs.reverse

/-- Zeros in the most significant places are worth nothing. -/
theorem littleValue_append_zeros (bs : Bytes) (count : Nat) :
    littleValue (bs ++ List.replicate count 0) = littleValue bs := by
  induction bs with
  | nil =>
    induction count with
    | zero => rfl
    | succ count ih =>
      rw [List.nil_append] at ih
      show (0 : UInt8).toNat + 256 * littleValue (List.replicate count 0) = 0
      rw [ih]
      rfl
  | cons b bs ih => rw [List.cons_append, littleValue, ih, littleValue]

theorem Decoder.byte_eq_uint (order : ByteOrder) : byte = uint order 1 := by
  refine Decoder.ext fun bs => ?_
  cases bs with
  | nil => rfl
  | cons b bs => cases order <;> rfl

namespace Machine

/-! ### Words -/

/-- Bits above all those of a word are joined to it as they are added. -/
theorem or_shiftLeft {bits low shift : Nat} (h : low < 2 ^ shift) (high : Nat) :
    BitVec.ofNat bits low ||| BitVec.ofNat bits high <<< shift =
      BitVec.ofNat bits (low + 2 ^ shift * high) := by
  apply BitVec.eq_of_toNat_eq
  rw [BitVec.toNat_or, BitVec.toNat_shiftLeft, BitVec.toNat_ofNat, BitVec.toNat_ofNat,
    BitVec.toNat_ofNat, Nat.shiftLeft_eq, Nat.mod_mul_mod, ← Nat.or_mod_two_pow, Nat.or_comm,
    Nat.mul_comm high, ← Nat.two_pow_add_eq_or_of_lt h, Nat.add_comm]

variable {bits : Nat}

/-- A byte joined below the bits of a word that is shifted by one byte. -/
def joinByte (word : BitVec bits) (b : UInt8) : BitVec bits :=
  word <<< 8 ||| BitVec.ofNat bits b.toNat

/-- A word put together from its least significant byte on. The bytes that follow it are joined
first. -/
def littleWord (bits : Nat) : Bytes → BitVec bits
  | [] => 0
  | b :: bs => BitVec.ofNat bits b.toNat ||| littleWord bits bs <<< 8

/-- A word put together from its most significant byte on. -/
def bigWord (bits : Nat) (bs : Bytes) : BitVec bits := bs.foldl joinByte 0

/-- A word put together from bytes in this order. -/
def joinedWord (bits : Nat) : ByteOrder → Bytes → BitVec bits
  | .little, bs => littleWord bits bs
  | .big, bs => bigWord bits bs

theorem littleWord_eq (bs : Bytes) : littleWord bits bs = BitVec.ofNat bits (littleValue bs) := by
  induction bs with
  | nil => rfl
  | cons b bs ih =>
    rw [littleWord, ih, or_shiftLeft b.toNat_lt]
    rfl

theorem joinByte_eq (value : Nat) (b : UInt8) :
    joinByte (BitVec.ofNat bits value) b = BitVec.ofNat bits (b.toNat + 256 * value) := by
  rw [joinByte, BitVec.or_comm, or_shiftLeft b.toNat_lt]
  rfl

/-- The bytes that have been joined are in the word, the last of them least significant. -/
theorem foldl_joinByte (bs joined : Bytes) :
    bs.foldl joinByte (BitVec.ofNat bits (littleValue joined)) =
      BitVec.ofNat bits (littleValue (bs.reverse ++ joined)) := by
  induction bs generalizing joined with
  | nil => rfl
  | cons b bs ih =>
    rw [List.foldl_cons, joinByte_eq, ← littleValue, ih, List.reverse_cons, List.append_assoc]
    rfl

theorem bigWord_eq (bs : Bytes) :
    bigWord bits bs = BitVec.ofNat bits (littleValue bs.reverse) := by
  have hjoined := @foldl_joinByte bits bs []
  rwa [List.append_nil] at hjoined

theorem joinedWord_eq (order : ByteOrder) (bs : Bytes) :
    joinedWord bits order bs = BitVec.ofNat bits (order.decode bs) := by
  cases order with
  | little => exact littleWord_eq bs
  | big => exact bigWord_eq bs

/-- A word that has room for its bytes has their value. -/
theorem toNat_joinedWord (order : ByteOrder) {bs : Bytes} (h : 8 * bs.length ≤ bits) :
    (joinedWord bits order bs).toNat = order.decode bs := by
  have hlt := order.decode_lt bs
  rw [placeValue_two_pow (b := 256) 8 rfl] at hlt
  rw [joinedWord_eq, BitVec.toNat_ofNat]
  exact Nat.mod_eq_of_lt (Nat.lt_of_lt_of_le hlt (Nat.pow_le_pow_right (by decide) h))

/-- Eight bytes with the given ones in the least significant places. -/
def pad (buffer : Bytes) : ByteOrder → Bytes
  | .little => buffer ++ List.replicate (8 - buffer.length) 0
  | .big => List.replicate (8 - buffer.length) 0 ++ buffer

theorem length_pad {buffer : Bytes} (h : buffer.length ≤ 8) (order : ByteOrder) :
    (pad buffer order).length = 8 := by
  cases order with
  | little =>
    rw [pad, List.length_append, List.length_replicate]
    omega
  | big =>
    rw [pad, List.length_append, List.length_replicate]
    omega

theorem decode_pad (order : ByteOrder) (buffer : Bytes) :
    order.decode (pad buffer order) = order.decode buffer := by
  cases order with
  | little => exact littleValue_append_zeros buffer _
  | big =>
    show littleValue (List.replicate _ 0 ++ buffer).reverse = littleValue buffer.reverse
    rw [List.reverse_append, List.reverse_replicate, littleValue_append_zeros]

/-- The integer in the first `width` bytes of a buffer, in a word of that width. -/
def fixedInteger (order : ByteOrder) (width : Nat) (buffer : Bytes) : Except Trap Nat := do
  let bytes ← before buffer width
  return (joinedWord (8 * width) order bytes).toNat

/-- The integer that a buffer of one to eight bytes is, in a word of 64 bits. -/
def paddedInteger (order : ByteOrder) (buffer : Bytes) : Except Trap Nat :=
  if 1 ≤ buffer.length ∧ buffer.length ≤ 8 then .ok (joinedWord 64 order (pad buffer order)).toNat
  else .error .width

theorem fixedInteger_eq (order : ByteOrder) {width : Nat} {buffer : Bytes}
    (h : buffer.length = width) : fixedInteger order width buffer = .ok (order.decode buffer) := by
  have hwhole : buffer.take width = buffer := List.take_of_length_le (Nat.le_of_eq h)
  rw [fixedInteger, before_eq (Nat.le_of_eq h.symm), hwhole]
  exact congrArg Except.ok (toNat_joinedWord order (Nat.le_of_eq (congrArg _ h)))

theorem paddedInteger_eq (order : ByteOrder) {buffer : Bytes}
    (h : 1 ≤ buffer.length ∧ buffer.length ≤ 8) :
    paddedInteger order buffer = .ok (order.decode buffer) := by
  have hroom : 8 * (pad buffer order).length ≤ 64 := by rw [length_pad h.2]
  rw [paddedInteger, if_pos h, toNat_joinedWord order hroom, decode_pad]

namespace Reader

variable {limit : Nat}

/-! ### Readers of integers -/

/-- An integer of a fixed width. -/
def fixed (order : ByteOrder) (width : Nat) : Reader Nat := do
  let head ← slice width
  lift (fixedInteger order width head)

/-- An integer of a width that is data. -/
def padded (order : ByteOrder) (width : Nat) : Reader Nat :=
  if width = 0 ∨ 8 < width then fail .offsetWidth
  else do
    let head ← slice width
    lift (paddedInteger order head)

/-- An address of `size` bytes, each size with a reader of its own. -/
def addressWord (order : ByteOrder) : (size : Nat) → Reader Nat
  | 1 => byte
  | 2 => fixed order 2
  | 4 => fixed order 4
  | 8 => fixed order 8
  | size => fail (.addressSize size)

/-- A word of the format, each format with a reader of its own. -/
def formatWord (order : ByteOrder) : Format → Reader Nat
  | .dwarf32 => fixed order 4
  | .dwarf64 => fixed order 8

theorem computes_fixed (order : ByteOrder) (width : Nat) :
    (fixed order width).Computes limit (Decoder.uint order width) := by
  refine (computes_slice width).bind_of (Decoder.forward_take width) ?_
  intro head bs rest _ htake
  rw [fixedInteger_eq order (Decoder.take_eq_ok htake).2]
  exact computes_pure _

theorem computes_padded (order : ByteOrder) (width : Nat) :
    (padded order width).Computes limit (Decoder.integer order width) := by
  unfold padded Decoder.integer
  by_cases h : 1 ≤ width ∧ width ≤ 8
  · rw [if_neg (by omega), if_pos h]
    refine (computes_slice width).bind_of (Decoder.forward_take width) ?_
    intro head bs rest _ htake
    obtain ⟨-, rfl⟩ := Decoder.take_eq_ok htake
    rw [paddedInteger_eq order h]
    exact computes_pure _
  · rw [if_pos (by omega), if_neg h]
    exact computes_fail _

theorem computes_addressWord (order : ByteOrder) (size : Nat) :
    (addressWord order size).Computes limit (Decoder.address order size) := by
  unfold addressWord
  split
  · rw [Decoder.address, if_pos (by decide), ← Decoder.byte_eq_uint]
    exact computes_byte
  · exact computes_fixed order 2
  · exact computes_fixed order 4
  · exact computes_fixed order 8
  · next size h1 h2 h4 h8 =>
    rw [Decoder.address, if_neg (by rintro (h | h | h | h) <;> contradiction)]
    exact computes_fail _

theorem computes_formatWord (order : ByteOrder) (format : Format) :
    (formatWord order format).Computes limit (Decoder.offset order format) := by
  cases format with
  | dwarf32 => exact computes_fixed order 4
  | dwarf64 => exact computes_fixed order 8

/-- The reader computes the decoder, and that reads the integers of this width. -/
structure Agrees (r : Reader Nat) (d : Decoder Nat) (order : ByteOrder) (width : Nat) : Prop where
  computes : ∀ limit, r.Computes limit d
  eq_integer : d = Decoder.integer order width

end Reader

end Machine

/-! ### One definition for all widths -/

namespace Decoder

/-- The next `width` bytes are read as digits in base 256 and taken. If there are not as many,
nothing is taken. -/
structure Positional (d : Decoder Nat) (order : ByteOrder) (width : Nat) : Prop where
  value : ∀ v : View, width ≤ v.size →
    v.read d = (.ok (byteSum (order.fromLeast (v.bytes.take width))), v.advance width)
  short : ∀ v : View, v.size < width → v.read d = (.error .unexpectedEnd, v)

theorem positional_uint (order : ByteOrder) (width : Nat) :
    (uint order width).Positional order width := by
  refine ⟨fun v h => ?_, fun v h => ?_⟩
  · have hrun : (uint order width).run v.bytes =
        .ok (byteSum (order.fromLeast (v.bytes.take width))) (v.bytes.drop width) := by
      rw [uint, run_bind, take_of_le h, ← order.decode_eq_byteSum]
      rfl
    rw [View.read_eq h (congrArg Outcome.rest hrun), hrun]
    rfl
  · have hrun : (uint order width).run v.bytes = .fault .unexpectedEnd v.bytes := by
      rw [uint, run_bind, take_of_short h]
    rw [View.read_eq (Nat.zero_le _) (congrArg Outcome.rest hrun), hrun]
    rfl

open Machine (Reader)

/-- **All integers are positional.** An integer of one to eight bytes is the sum of its bytes as
digits in base 256. It fits its width, and these bytes are what it is written as. This is how a
buffer is read whose width is data, and a word put together from its bytes has this value. All
readers that are made for one width agree: those of a byte, of the fixed widths, of addresses and
of offsets read the same value from the same bytes, and fail in the same way without taking any. -/
theorem integer_positional (order : ByteOrder) (width : Nat) (h : 1 ≤ width ∧ width ≤ 8) :
    (integer order width).Positional order width ∧
    (∀ bytes : Bytes, bytes.length = width →
      byteSum (order.fromLeast bytes) < 2 ^ (8 * width) ∧
      order.encode width (byteSum (order.fromLeast bytes)) = bytes ∧
      order.whole? bytes = some (byteSum (order.fromLeast bytes)) ∧
      ∀ rest, order.first? width (bytes ++ rest) = some (byteSum (order.fromLeast bytes))) ∧
    (Reader.padded order width).Agrees (integer order width) order width ∧
    (width = 1 → Reader.byte.Agrees byte order width) ∧
    (width = 2 ∨ width = 4 ∨ width = 8 →
      (Reader.fixed order width).Agrees (uint order width) order width) ∧
    (width = 1 ∨ width = 2 ∨ width = 4 ∨ width = 8 →
      (Reader.addressWord order width).Agrees (address order width) order width) ∧
    ∀ format : Format, format.wordSize = width →
      (Reader.formatWord order format).Agrees (offset order format) order width := by
  have hsame : uint order width = integer order width := (if_pos h).symm
  have hvalue : (integer order width).Positional order width := hsame ▸ positional_uint order width
  have haddress (hsize : width = 1 ∨ width = 2 ∨ width = 4 ∨ width = 8) :
      address order width = integer order width := (if_pos hsize).trans hsame
  refine ⟨hvalue, ?_, ⟨?_, rfl⟩, ?_, fun _ => ⟨?_, hsame⟩, fun hsize => ⟨?_, haddress hsize⟩, ?_⟩
  · rintro bytes rfl
    have hlt := order.decode_lt bytes
    rw [placeValue_two_pow (b := 256) 8 rfl] at hlt
    rw [← order.decode_eq_byteSum]
    refine ⟨hlt, order.encode_decode bytes, if_pos h, fun rest => ?_⟩
    rw [ByteOrder.first?, List.take_left, if_pos (by rw [List.length_append]; omega)]
  · exact fun limit => Reader.computes_padded order width
  · rintro rfl
    exact ⟨fun limit => Reader.computes_byte, (byte_eq_uint order).trans hsame⟩
  · exact fun limit => Reader.computes_fixed order width
  · exact fun limit => Reader.computes_addressWord order width
  · rintro format rfl
    exact ⟨fun limit => Reader.computes_formatWord order format, hsame⟩

/-- Bytes that are another number when they are swapped. -/
theorem integer_positional_asymmetric :
    (View.read ⟨0, [1, 2, 3, 4], .big⟩ (integer .big 3) = (.ok 0x010203, ⟨3, [4], .big⟩)) ∧
    View.read ⟨0, [1, 2, 3], .big⟩ (integer .little 4) =
      (.error .unexpectedEnd, ⟨0, [1, 2, 3], .big⟩) ∧
    (Reader.fixed .little 4).run [1, 2, 3, 4] = .ok (.ok 0x04030201 []) ∧
    (Reader.formatWord .little .dwarf32).run [1, 2, 3, 4] = .ok (.ok 0x04030201 []) := by
  obtain ⟨hthree, -⟩ := integer_positional .big 3 (by decide)
  obtain ⟨hfour, -, -, -, hfixed, -, hoffset⟩ := integer_positional .little 4 (by decide)
  have hfixed := hfixed (.inr (.inl rfl))
  refine ⟨hthree.value ⟨0, [1, 2, 3, 4], .big⟩ (by decide), hfour.short _ (by decide), ?_, ?_⟩
  · exact hfixed.computes 4 [1, 2, 3, 4] (by decide)
  · exact (hoffset .dwarf32 rfl).computes 4 [1, 2, 3, 4] (by decide)

end Decoder

end Dwarf
