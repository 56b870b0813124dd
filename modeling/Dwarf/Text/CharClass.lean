/-!
# Classes of characters

A `CharClass` lists the code points of a class as ranges, ends included, ascending
and apart. The classes are those of the Unicode standard, of which the
corresponding functions on `Char` cover the ASCII part.
-/

namespace Dwarf

/-- A set of code points, as ranges from a first to a last one. -/
structure CharClass where
  /-- The ranges, in ascending order. -/
  ranges : List (Nat × Nat)

namespace CharClass

/-- The character is in the class. -/
def contains (cc : CharClass) (c : Char) : Bool :=
  cc.ranges.any fun (first, last) => first ≤ c.toNat && c.toNat ≤ last

/-- Blanks: the characters with the property White_Space. -/
def blank : CharClass where
  ranges := [
    (0x09, 0x0d), (0x20, 0x20), (0x85, 0x85), (0xa0, 0xa0), (0x1680, 0x1680), (0x2000, 0x200a),
    (0x2028, 0x2029), (0x202f, 0x202f), (0x205f, 0x205f), (0x3000, 0x3000)]

end CharClass

end Dwarf
