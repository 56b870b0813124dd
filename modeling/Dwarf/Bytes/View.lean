import Dwarf.Bytes.Leb128
import Dwarf.Text.Utf8
/-!
# A window on a buffer

A `View` is a stretch of bytes that remembers where in its buffer it starts and
in which order its integers are stored. Decoders run on it and move its start
forward; splitting and ranges cut smaller windows out of it. Two views of one
buffer can tell how far apart they start.
-/

namespace Dwarf

/-- A stretch of the bytes of some buffer. -/
structure View where
  /-- How far into the buffer the stretch starts. -/
  start : Nat := 0
  /-- The bytes of the stretch. -/
  bytes : Bytes
  /-- The order of the bytes in an integer. -/
  order : ByteOrder
  deriving Repr, Inhabited

namespace View

/-- Two views are alike when they show the same bytes in the same order, wherever
they come from. -/
instance : BEq View where
  beq v w := v.bytes == w.bytes && v.order == w.order

/-- `length` bytes of `bytes` from `start` on. -/
def subrange (bytes : Bytes) (start length : Nat) (order : ByteOrder) : Except Fault View :=
  if start + length ≤ bytes.length then
    .ok { start, bytes := (bytes.drop start).take length, order }
  else .error .offsetBounds

/-- The number of bytes in view. -/
def size (v : View) : Nat := v.bytes.length

/-- Run a decoder at the start of the view. What it consumed goes out of view,
also when it fails. -/
def read {α : Type} (v : View) (d : Decoder α) : Except Fault α × View :=
  let outcome := d.run v.bytes
  (outcome.toExcept,
    { v with start := v.start + (v.size - outcome.rest.length), bytes := outcome.rest })

/-- Keep only the first `count` bytes. -/
def truncate (v : View) (count : Nat) : Except Fault View :=
  if count ≤ v.size then .ok { v with bytes := v.bytes.take count } else .error .unexpectedEnd

/-- A view of nothing, where this view ends. -/
def atEnd (v : View) : View := { v with start := v.start + v.size, bytes := [] }

/-- The bytes from `low` up to `high`, or `none` unless that range lies in view. -/
def range? (v : View) (low high : Nat) : Option View :=
  if low ≤ high ∧ high ≤ v.size then
    some { v with start := v.start + low, bytes := (v.bytes.drop low).take (high - low) }
  else none

/-- The bytes from `low` on. -/
def rangeFrom? (v : View) (low : Nat) : Option View := v.range? low v.size

/-- The bytes up to `high`. -/
def rangeTo? (v : View) (high : Nat) : Option View := v.range? 0 high

/-- The two parts of the view before and after `index`. -/
def splitAt? (v : View) (index : Nat) : Option (View × View) := do
  let first ← v.rangeTo? index
  let second ← v.rangeFrom? index
  return (first, second)

/-- Take the first `count` bytes off as a view of their own. The second part is
what this view becomes. -/
def split (v : View) (count : Nat) : Except Fault View × View :=
  match v.read (Decoder.take count) with
  | (.ok head, rest) => (.ok { v with bytes := head }, rest)
  | (.error e, rest) => (.error e, rest)

/-- The position of the first byte equal to `byte`. -/
def find (v : View) (byte : UInt8) : Except Fault Nat :=
  match v.bytes.findIdx? (· == byte) with
  | some index => .ok index
  | none => .error .unexpectedEnd

/-- How far after `base` the view starts. -/
def offsetFrom (v base : View) : Nat := v.start - base.start

/-- Read up to `count` bytes: fewer at the end of the view, and never a fault. -/
def readUpTo (v : View) (count : Nat) : Bytes × View :=
  (v.bytes.take count,
    { v with start := v.start + min count v.size, bytes := v.bytes.drop count })

/-- The view as text. -/
def text (v : View) : Except Fault String :=
  match text? v.bytes with
  | some s => .ok s
  | none => .error .notUtf8

end View

end Dwarf
