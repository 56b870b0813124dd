import Dwarf.Info.Entry
import Dwarf.Section
/-!
# Units and their trees

A `UnitTree` is a unit whose entries have all been read. The entries are in
preorder and each knows its depth and its parent, which is enough to find the
roots, the children of an entry, and the entry at an offset. Entries are referred
to by their index.

> `children` looks no further than the first entry that is not deeper: the
> entries below an entry are the ones right after it.
>
> `indexAt?` searches by bisection, since the offsets of entries ascend.
-/

namespace Dwarf

/-- A unit with its table and its entries. -/
structure UnitTree where
  /-- The header of the unit. -/
  header : UnitHeader
  /-- The abbreviations with which the entries were read. -/
  table : AbbrevTable
  /-- The entries in preorder. -/
  entries : Array Entry

namespace UnitTree

/-- Read the abbreviations of a unit from their section, and then its entries. -/
def decode (abbrevs : Bytes) (header : UnitHeader) : Except Fault UnitTree := do
  let (table, _) ← AbbrevTable.atOffset abbrevs header.fields.abbrevOffset
  let entries ← (Entry.all header table).complete
  return { header, table, entries := entries.toArray }

/-- All units of a section, or the first fault in any of them. -/
def all (s : Sections) : Except Fault (List UnitTree) := do
  let headers := UnitHeader.all s.order s.info
  let units ← headers.items.mapM (decode s.abbrevs)
  match headers.fault with
  | none => return units
  | some cause => throw cause

/-- The depth of the entry at an index. -/
def depthAt (u : UnitTree) (index : Nat) : Nat :=
  match u.entries[index]? with
  | some e => e.depth
  | none => 0

/-- The parent of the entry at an index. -/
def parentAt (u : UnitTree) (index : Nat) : Option Nat :=
  match u.entries[index]? with
  | some e => e.parent
  | none => none

/-- The indices of the entries that nothing encloses. -/
def roots (u : UnitTree) : List Nat :=
  (List.range u.entries.size).filter fun i => u.depthAt i == 0

/-- The indices of the entries that the entry at `index` encloses most closely. -/
def children (u : UnitTree) (index : Nat) : List Nat :=
  -- In preorder the descendants are the deeper entries right after the entry.
  let below := (List.range' (index + 1) (u.entries.size - (index + 1))).takeWhile fun i =>
    u.depthAt index < u.depthAt i
  below.filter fun i => u.parentAt i == some index

/-- The index from `low` up to `high` of the entry at an offset. -/
def bisect (entries : Array Entry) (offset low high : Nat) : Option Nat :=
  if low < high then
    let mid := (low + high) / 2
    match entries[mid]? with
    | none => none
    | some e =>
      if e.offset = offset then some mid
      else if e.offset < offset then bisect entries offset (mid + 1) high
      else bisect entries offset low mid
  else none
  termination_by high - low

/-- The index of the entry that starts at an offset of the section. -/
def indexAt? (u : UnitTree) (offset : Nat) : Option Nat :=
  bisect u.entries offset 0 u.entries.size

/-- The entry that starts at an offset of the section. -/
def entryAt? (u : UnitTree) (offset : Nat) : Option Entry :=
  (u.indexAt? offset).bind fun i => u.entries[i]?

/-- The index of the entry of this unit that a reference points at. A reference
within the unit counts from its start, and is none if the sum has more than 64
bits. -/
def resolve? (u : UnitTree) : Value → Option Nat
  | .unitRef distance =>
    let offset := u.header.offset + distance
    if offset < 0x10000000000000000 then u.indexAt? offset else none
  | .infoRef offset => u.indexAt? offset
  | _ => none

/-- The entry of this unit that a reference points at. -/
def referent? (u : UnitTree) (value : Value) : Option Entry :=
  (u.resolve? value).bind fun i => u.entries[i]?

end UnitTree

end Dwarf
