import Dwarf.Bytes.View
/-!
# Sessions on a view

A caller holds a view and asks one thing of it after another. An operation reads at the start of
the view, looks for a byte, or cuts a part out of the view. Each has an answer, which is a value or
a fault, and leaves a view where the next one is asked, also after a fault.

A range that does not lie in view is no fault. It has no answer and ends the session, as a mistake
of the caller.
-/

namespace Dwarf

namespace View

/-- What is read from the start of a view. -/
inductive Reading where
  /-- A byte. -/
  | byte
  /-- An integer of a fixed width. -/
  | fixed (width : Nat)
  /-- An integer of a width that is data. -/
  | integer (width : Nat)
  /-- An unsigned LEB128 number. -/
  | unsigned
  /-- A signed LEB128 number. -/
  | signed
  /-- An address. -/
  | address (size : Nat)
  /-- A word of the format, such as an offset. -/
  | word (format : Format)
  /-- The length of a unit. -/
  | initialLength
  /-- A block behind its length, which has a width. -/
  | block (width : Nat)
  /-- A block behind its length, which is a LEB128 number. -/
  | countedBlock
  /-- The bytes up to a zero byte. -/
  | terminated
  /-- Nothing, but bytes are passed over. -/
  | skip (count : Nat)
  deriving DecidableEq, Repr

/-- What can be asked of a view. Where an operation finds a part of the view, the session may
go on in that part (`enter`). -/
inductive Operation where
  /-- Read. -/
  | read (reading : Reading)
  /-- Find a byte of this value. -/
  | find (byte : UInt8)
  /-- Take bytes off as a view of their own. -/
  | split (count : Nat) (enter : Bool)
  /-- Keep only the first bytes. -/
  | truncate (count : Nat)
  /-- The bytes between two positions. -/
  | range (low high : Nat) (enter : Bool)
  /-- The bytes from a position on. -/
  | rangeFrom (low : Nat) (enter : Bool)
  /-- The bytes up to a position. -/
  | rangeTo (high : Nat) (enter : Bool)
  /-- Read bytes as a stream does. -/
  | readUpTo (count : Nat)
  deriving DecidableEq, Repr

/-- What an operation gives. -/
inductive Answer where
  /-- Only that it was done. -/
  | done
  /-- An integer, or a position. -/
  | number (value : Int)
  /-- A length, and the format that it announces. -/
  | length (value : Nat) (format : Format)
  /-- Bytes. -/
  | bytes (bytes : Bytes)
  deriving DecidableEq, Repr

namespace Reading

/-- The decoder that reads it. -/
def decoder (order : ByteOrder) : Reading → Decoder Answer
  | byte => (fun value : Nat => .number value) <$> Decoder.byte
  | fixed width => (fun value : Nat => .number value) <$> Decoder.uint order width
  | integer width => (fun value : Nat => .number value) <$> Decoder.integer order width
  | unsigned => (fun value : Nat => .number value) <$> Decoder.unsigned
  | signed => .number <$> Decoder.signed
  | address size => (fun value : Nat => .number value) <$> Decoder.address order size
  | word format => (fun value : Nat => .number value) <$> Decoder.offset order format
  | initialLength => (fun found => .length found.1 found.2) <$> Decoder.initialLength order
  | block width => .bytes <$> Decoder.block order width
  | countedBlock => .bytes <$> Decoder.countedBlock
  | terminated => .bytes <$> Decoder.terminated
  | skip count => (fun _ => .done) <$> Decoder.skip count

end Reading

/-- The answer that a part of the view is, and the view to go on with. There is none where the
part does not lie in view. -/
def look (v : View) (enter : Bool) (part : Option View) : Option (Except Fault Answer × View) :=
  part.map fun w => (.ok (.bytes w.bytes), if enter then w else v)

/-- The answer to an operation, and the view to go on with. A session ends with a range that
does not lie in view. -/
def step (v : View) : Operation → Option (Except Fault Answer × View)
  | .read reading => some (v.read (reading.decoder v.order))
  | .find byte => some ((v.find byte).map fun index : Nat => Answer.number index, v)
  | .split count enter =>
    match v.split count with
    | (.ok head, rest) => some (.ok (.bytes head.bytes), if enter then head else rest)
    | (.error cause, rest) => some (.error cause, rest)
  | .truncate count =>
    match v.truncate count with
    | .ok w => some (.ok .done, w)
    | .error cause => some (.error cause, v)
  | .range low high enter => v.look enter (v.range? low high)
  | .rangeFrom low enter => v.look enter (v.rangeFrom? low)
  | .rangeTo high enter => v.look enter (v.rangeTo? high)
  | .readUpTo count => some (.ok (.bytes (v.readUpTo count).1), (v.readUpTo count).2)

/-- The view that is left after some operations, whatever they answered. -/
def run (v : View) : List Operation → Option View
  | [] => some v
  | op :: ops =>
    match v.step op with
    | none => none
    | some (_, next) => next.run ops

end View

end Dwarf
