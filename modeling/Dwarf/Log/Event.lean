import Dwarf.Code.Tag
import Dwarf.Info.Tree
/-!
# What is worth telling about a run

Besides its output a run has events: something was read, something is missing,
a file was turned down. An event has a level and a target, by which it can be
filtered, and is written as one line.

The events of reading are functions of the bytes that are read. A table that
cannot be read to its end still gives the events of what was read of it, and so
do the entries of a unit.
-/

namespace Dwarf

/-- How important an event is. -/
inductive Level where
  /-- Something failed. -/
  | error
  /-- Something may be wrong. -/
  | warn
  /-- Something happened. -/
  | info
  /-- A table or a unit was read. -/
  | debug
  /-- A part of one was read. -/
  | trace
  deriving DecidableEq, Repr, Inhabited

namespace Level

/-- The name of a level. -/
def name : Level → String
  | error => "ERROR"
  | warn => "WARN"
  | info => "INFO"
  | debug => "DEBUG"
  | trace => "TRACE"

/-- How talkative a level is. -/
def verbosity : Level → Nat
  | error => 1
  | warn => 2
  | info => 3
  | debug => 4
  | trace => 5

end Level

/-- Something that happened in a run. -/
inductive Event where
  /-- A declaration was read. -/
  | declaration (d : Declaration)
  /-- A table of `count` declarations was read. It takes `size` bytes. -/
  | table (offset size count : Nat)
  /-- A unit header was read. -/
  | header (h : UnitHeader)
  /-- An entry was read. -/
  | entry (e : Entry)
  /-- A section that is not there is taken to be empty. -/
  | missingSection (id : SectionId)
  /-- There is no dump of line number programs. -/
  | noLineDump (path : String)
  /-- A file cannot be read. -/
  | rejected (path : String) (kind : FaultKind)

namespace Event

/-- The level of an event. -/
def level : Event → Level
  | declaration _ | entry _ => .trace
  | table _ _ _ | header _ | rejected _ _ => .debug
  | missingSection _ | noLineDump _ => .warn

/-- The part of the program that an event belongs to. -/
def target : Event → String
  | declaration _ | table _ _ _ => "dwarfscan::abbrev"
  | header _ | entry _ => "dwarfscan::unit"
  | missingSection _ | noLineDump _ | rejected _ _ => "dwarfscan"

/-- The name of a class of faults. -/
def kindName : FaultKind → String
  | .format => "Format"
  | .structural => "Structural"
  | .stream => "Stream"

/-- What an event says. -/
def message : Event → String
  | declaration _ => "parsed abbreviation"
  | table _ _ _ => "parsed abbreviation table"
  | header _ => "parsed unit header"
  | entry _ => "decoded entry"
  | missingSection id => id.name ++ " section not found"
  | noLineDump path => path ++ ": the .debug_line dump is not supported"
  | rejected path _ => "rejected " ++ path

/-- The values that an event carries, with their names. -/
def fields : Event → List (String × String)
  | declaration d => [("code", decimal d.code), ("tag", CodeSpace.tag.render d.tag)]
  | table offset size count =>
    [("offset", decimal offset), ("len", decimal size), ("count", decimal count)]
  | header h =>
    [("offset", decimal h.offset), ("unit_length", decimal h.length),
      ("version", decimal h.fields.version), ("address_size", decimal h.fields.addressSize),
      ("abbrev_offset", decimal h.fields.abbrevOffset)]
  | entry e =>
    [("offset", decimal e.offset), ("depth", decimal e.depth), ("code", decimal e.code),
      ("tag", CodeSpace.tag.render e.tag)]
  | missingSection _ | noLineDump _ => []
  | rejected _ kind => [("kind", kindName kind)]

/-- The names of what an event carries. What it says is one of its fields. -/
def fieldNames (e : Event) : List String := "message" :: e.fields.map (·.1)

/-- The line in which an event is told. -/
def line (e : Event) : String :=
  e.level.name ++ " " ++ e.target ++ ": " ++ e.message
    ++ String.join (e.fields.map fun (name, value) => " " ++ name ++ "=" ++ value)

/-! ### The events of reading -/

/-- Reading the table at `offset` in a section. -/
def ofTable (contents : Bytes) (offset : Nat) : List Event :=
  if contents.length < offset then []
  else
    (AbbrevTable.empty.seen (contents.drop offset)).map declaration
      ++ match AbbrevTable.atOffset contents offset with
        | .ok (t, size) => [table offset size t.size]
        | .error _ => []

/-- Reading all tables of a section. -/
def ofTables (contents : Bytes) : List Event :=
  let read := (AbbrevTable.tables contents).items.flatMap fun (offset, _) => ofTable contents offset
  -- A table that cannot be read gives the events of what was read of it.
  let stop := (Cursor.atStart contents).stop AbbrevTable.item
  read ++ if stop.rest.isEmpty then [] else ofTable contents stop.offset

/-- Reading the unit with this header. -/
def ofUnit (abbrevs : Bytes) (h : UnitHeader) : List Event :=
  header h :: ofTable abbrevs h.fields.abbrevOffset
    ++ match AbbrevTable.atOffset abbrevs h.fields.abbrevOffset with
      | .ok (t, _) => (Entry.all h t).items.map entry
      | .error _ => []

end Event

end Dwarf
