import Dwarf.Text.Numeral
/-!
# Numbered constants and their names

The standard numbers its tags, attributes, forms and enumerated values, each in
a space of its own. A `CodeSpace` lists the numbers that have a name. A number
without one is still a legal value of the space and is shown by its number.

> `render_of_named`, `render_of_unnamed`: a code is shown by its name exactly when it
> has one.
-/

namespace Dwarf

/-- A space of codes with the names of some of them. -/
structure CodeSpace where
  /-- What the space is called where a code has no name. -/
  label : String
  /-- Codes are below this. -/
  limit : Nat
  /-- The named codes, in ascending order. -/
  names : List (Nat × String)

namespace CodeSpace

/-- The name of `code`. -/
def name? (space : CodeSpace) (code : Nat) : Option String := space.names.lookup code

/-- `code` as a reader sees it: its name, or else the space and the number. -/
def render (space : CodeSpace) (code : Nat) : String :=
  match space.name? code with
  | some name => name
  | none => "Unknown " ++ space.label ++ ": " ++ decimal code

/-- `value` shown as a code, if it is small enough to be one. -/
def render? (space : CodeSpace) (value : Nat) : Option String :=
  if value < space.limit then some (space.render value) else none

theorem render_of_named {space : CodeSpace} {code : Nat} {name : String}
    (h : space.name? code = some name) : space.render code = name := by
  simp [render, h]

theorem render_of_unnamed {space : CodeSpace} {code : Nat} (h : space.name? code = none) :
    space.render code = "Unknown " ++ space.label ++ ": " ++ decimal code := by
  simp [render, h]

end CodeSpace

end Dwarf
