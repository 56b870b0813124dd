/-!
# How deeply a pattern is nested

The parts of a pattern stand in rows: what is matched one after the other, the
alternatives to choose from, what belongs to a set. A row of several parts is one
level around them, and so is a repetition, a group, a set and an operator.
-/

namespace Dwarf

namespace Pattern

/-- A row of parts that is being read. -/
structure Row where
  /-- The number of parts. -/
  count : Nat := 0
  /-- The nesting of the deepest part. -/
  depth : Nat := 0
  deriving DecidableEq, Repr, Inhabited

namespace Row

/-- The row with one more part. -/
def push (r : Row) (depth : Nat) : Row := ⟨r.count + 1, max r.depth depth⟩

/-- The nesting of a row. A single part is not a row. -/
def nesting (r : Row) : Nat := if r.count ≤ 1 then r.depth else r.depth + 1

end Row

end Pattern

end Dwarf
