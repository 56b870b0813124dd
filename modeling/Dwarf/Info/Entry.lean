import Dwarf.Abbrev.Table
import Dwarf.Attribute.Decode
import Dwarf.Info.Header
/-!
# Entries

The entries of a unit are stored as a forest in preorder. An entry is a code and
the attributes that its declaration lists; if the declaration has children they
follow at once, and a zero code ends them. Nothing else in the bytes shows the
shape of the forest, so reading keeps the entries whose children are still open.

`Entry.walk` is that reading, one code at a time. A zero code closes the
innermost open entry. When the last one is closed the unit has to be at its end.

> `walk` consumes a code for each step, so it ends after at most as many steps as
> there are bytes, however many attributes take none.
-/

namespace Dwarf

/-- A debugging information entry. -/
structure Entry where
  /-- Where the entry starts in its section. -/
  offset : Nat
  /-- The number of entries that enclose it. -/
  depth : Nat
  /-- The code of its declaration. -/
  code : Nat
  /-- Its tag. -/
  tag : Nat
  /-- Whether its declaration has children. -/
  hasChildren : Bool
  /-- The index of the entry that encloses it most closely. -/
  parent : Option Nat
  /-- Its attributes, in the order of the declaration. -/
  attributes : List Attribute
  deriving DecidableEq, Repr, Inhabited

namespace Entry

/-- The first attribute with this name. -/
def attribute? (e : Entry) (name : Nat) : Option Attribute :=
  e.attributes.find? fun a => a.name == name

/-- The value of the first attribute with this name. -/
def value? (e : Entry) (name : Nat) : Option Value := (e.attribute? name).map (·.value)

/-- Read entries from `c` on to the end of a unit. The next entry has index `index`;
`scopes` are the indices of the entries whose children are being read, innermost
first. -/
def walk (enc : Encoding) (table : AbbrevTable) (index : Nat) (scopes : List Nat) (c : Cursor) :
    Progress Entry :=
  if c.rest.isEmpty then
    if scopes.isEmpty then .done else .stop (.openScopes scopes.length)
  else match _hcode : Decoder.unsigned.run c.rest with
    | .fault cause _ => .stop cause
    | .ok 0 rest =>
      match scopes with
      | [] => .stop .nullWithoutScope
      | _ :: outer =>
        -- Nothing may follow the end of the outermost list of children.
        if outer.isEmpty && !rest.isEmpty then .stop .trailingEntries
        else walk enc table index outer (c.advance rest)
    | .ok code rest =>
      match table.get? code with
      | none => .stop (.unknownCode code)
      | some d =>
        match _hattrs : (Attribute.decodeAll enc d.attributes).run rest with
        | .fault cause _ => .stop cause
        | .ok attributes rest =>
          let entry : Entry := {
            offset := c.offset
            depth := scopes.length
            code
            tag := d.tag
            hasChildren := d.hasChildren
            parent := scopes.head?
            attributes }
          -- Its children come next, until a zero code ends them.
          let scopes := if d.hasChildren then index :: scopes else scopes
          (walk enc table (index + 1) scopes (c.advance rest)).cons entry
  termination_by c.rest.length
  decreasing_by
    · exact Decoder.consuming_unsigned _hcode
    · exact Nat.lt_of_le_of_lt ((Attribute.forward_decodeAll _ _).length_le _hattrs)
        (Decoder.consuming_unsigned _hcode)

/-- The entries of a unit in preorder, as far as they can be read. -/
def all (h : UnitHeader) (table : AbbrevTable) : Progress Entry :=
  walk h.encoding table 0 [] ⟨h.entriesOffset, h.entries⟩

end Entry

end Dwarf
