import Dwarf.Pattern.Element
import Dwarf.Pattern.Nesting
/-!
# Sets of characters

A set stands in brackets and matches one of the characters that belong to it, or with
`^` at its start one of the others. Characters, ranges, sets with a name and further
sets belong to a set together; `&&`, `--` and `~~` keep what belongs to both sides,
to the left one only, or to just one of them.

Minus signs at the start of a set are characters, and so is a closing bracket there.
-/

namespace Dwarf

namespace Pattern

/-- A set that is being read. -/
structure OpenSet where
  /-- The nesting of what stands left of an operator. -/
  left : Option Nat := none
  /-- The items after the operator, or all of them. -/
  items : Row := {}
  /-- Nothing but minus signs was read. -/
  atStart : Bool := true
  deriving DecidableEq, Repr, Inhabited

namespace OpenSet

/-- Add an item. -/
def push (s : OpenSet) (depth : Nat) : OpenSet :=
  { s with items := s.items.push depth, atStart := false }

/-- Add a character that has this meaning at the start of a set only. -/
def pushAtStart (s : OpenSet) (c : Char) : OpenSet :=
  { s with items := s.items.push 0, atStart := c == '-' }

/-- The character would mean something else further on in the set. -/
def isPlainAtStart (s : OpenSet) (c : Char) : Bool :=
  s.atStart && (c == '-' || (c == ']' && s.items.count == 0))

/-- The nesting of what was read. -/
def nesting (s : OpenSet) : Nat :=
  match s.left with
  | none => s.items.nesting
  | some depth => max depth s.items.nesting + 1

/-- Put what was read left of an operator. -/
def operator (s : OpenSet) : OpenSet := { left := some s.nesting, atStart := false }

end OpenSet

/-! ### Items -/

/-- The names of sets. -/
def setNames : List String :=
  ["alnum", "alpha", "ascii", "blank", "cntrl", "digit", "graph", "lower", "print", "punct",
    "space", "upper", "word", "xdigit"]

/-- Read a set with a name such as `[:digit:]` after its bracket. With `^` before the
name it is about the other characters. -/
def namedSet? : List Char → Option (Bool × List Char)
  | ':' :: cs =>
    let (negated, cs) := match cs with
      | '^' :: cs => (true, cs)
      | _ => (false, cs)
    let name := cs.takeWhile (· != ':')
    match cs.drop name.length with
    | ':' :: ']' :: rest =>
      if setNames.contains (String.ofList name) then some (negated, rest) else none
    | _ => none
  | _ => none

/-- A set with a name can be used. -/
def supportsNamedSet (m : Mode) (negated : Bool) : Bool :=
  if m.unicode then !m.ignoreCase else !negated

/-- What follows a bracket and the `^` after it. Only characters have others: all the
other bytes would be parts of characters as well. -/
def setBody? (m : Mode) (cs : List Char) : Option (List Char) :=
  match m.skip cs with
  | '^' :: rest => if m.unicode then some rest else none
  | rest => some rest

/-- A character of a set, and what follows it. -/
def setElement? (m : Mode) : List Char → Option (Element × List Char)
  | [] => none
  | '\\' :: cs => escape? m cs
  | c :: cs => some (.char c, cs)

/-- A minus sign before these characters is not the one of a range. Blanks do not
count where they are for reading only, nor does the sign of a remark; its text does. -/
def endsRange (m : Mode) (cs : List Char) : Bool :=
  let after (cs : List Char) := if m.extended then cs.dropWhile CharClass.blank.contains else cs
  let next := match after cs with
    | '#' :: remark => if m.extended then after remark else '#' :: remark
    | cs => cs
  match next with
  | ']' :: _ | '-' :: _ => true
  | _ => false

/-- What follows a character or a range. -/
def afterSetItem? (m : Mode) (cs : List Char) : Option (List Char) :=
  match setElement? m cs with
  | none => none
  | some (first, rest) =>
    if !first.isSupportedInSet m then none
    else match m.skip rest with
      | '-' :: rest =>
        if endsRange m rest then some ('-' :: rest)
        else match setElement? m (m.skip rest) with
          | none => none
          | some (last, rest) =>
            if first.isRange last && last.isSupportedInSet m then some rest else none
      | rest => some rest

/-! ### Sets -/

/-- Read the innermost of the open sets, and those around it. Each step takes at
least one character, so there are no more steps than characters. -/
def openSets? (m : Mode) :
    (steps : Nat) → OpenSet → List OpenSet → List Char → Option (Nat × List Char)
  | 0, _, _, _ => none
  | steps + 1, s, around, cs =>
    match m.skip cs with
    | [] => none
    | c :: cs =>
      if s.isPlainAtStart c then
        if (Element.char c).isSupportedInSet m then openSets? m steps (s.pushAtStart c) around cs
        else none
      else match c, cs with
        | ']', rest =>
          match around with
          | [] => some (s.nesting + 1, rest)
          | outer :: around => openSets? m steps (outer.push (s.nesting + 1)) around rest
        | '[', rest =>
          match namedSet? rest with
          | some (negated, rest) =>
            if supportsNamedSet m negated then openSets? m steps (s.push 0) around rest else none
          | none =>
            match setBody? m rest with
            | none => none
            | some rest => openSets? m steps {} (s :: around) rest
        | '&', '&' :: rest | '-', '-' :: rest | '~', '~' :: rest =>
          openSets? m steps s.operator around rest
        | c, rest =>
          match afterSetItem? m (c :: rest) with
          | none => none
          | some rest => openSets? m steps (s.push 0) around rest

/-- The nesting of a set after its opening bracket, and what follows it. -/
def set? (m : Mode) (cs : List Char) : Option (Nat × List Char) :=
  match setBody? m cs with
  | none => none
  | some rest => openSets? m (rest.length + 1) {} [] rest

end Pattern

end Dwarf
