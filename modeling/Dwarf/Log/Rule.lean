import Dwarf.Log.Event
import Dwarf.Pattern.Group
import Dwarf.Text.Utf8
/-!
# Rules about events

A rule limits the level of some events. In full it is written
`target[span{field}]=level`, and every part of it may be missing: `warn` is a rule
about all events, `target=debug` one about the events of a target, and a target alone
stands for all of its events.

A rule starts with a letter or a number, one of `:`, `-` and `_`, or a bracket.
What follows may be any characters up to the next bracket or equals sign, so that
most misspelt rules are read as rules about targets that no event has.

A field can be asked for by its name, or by its name and its value: `{name=value}`. The
value is a number or a `Pattern`. A rule with another value cannot be read, although no
event here is asked for the value of a field.

Blanks around a rule do not count when it is taken apart, but they do when the places
found in this way are looked up in its text. So a blank before a rule moves all of its
parts, and one behind it belongs to the level, or to the target if that is all there
is. No event has such a target, and no level such a name.
-/

namespace Dwarf

/-- A limit on the level of some events. -/
structure FilterRule where
  /-- The events with targets that start like this; all events if there is none. -/
  target : Option String := none
  /-- The events that carry this field; all events if there is none. -/
  field : Option String := none
  /-- The rule asks for a surrounding span, or for the value of a field of one. No
  event here is surrounded by a span. -/
  needsSpan : Bool := false
  /-- The most talkative level that is told. Zero tells nothing. -/
  verbosity : Nat
  deriving DecidableEq, Repr, Inhabited

namespace FilterRule

/-- The most talkative level of all. -/
def everything : Nat := Level.trace.verbosity

/-- The rule says something about the event. -/
def applies (r : FilterRule) (e : Event) : Bool :=
  !r.needsSpan
    && (match r.target with
      | none => true
      | some start => start.toList.isPrefixOf e.target.toList)
    && (match r.field with
      | none => true
      | some name => e.fieldNames.contains name)

/-- Longer targets make stronger rules, and any target makes a stronger one than
none. -/
def strength (r : FilterRule) : Nat :=
  match r.target with
  | none => 0
  | some start => start.length + 1

/-- The name of the field that the rule asks for, empty if there is none. -/
def fieldName (r : FilterRule) : String := r.field.getD ""

/-- The other rule decides where both apply: it is stronger, or its field has the
later name, or neither of these tells them apart. -/
def yieldsTo (r other : FilterRule) : Bool :=
  r.strength < other.strength
    || (r.strength == other.strength && !decide (other.fieldName < r.fieldName))

/-! ### Reading a rule -/

/-- The number that decimal digits spell, after a plus sign or without. -/
def number? (cs : List Char) : Option Nat :=
  let digits := match cs with
    | '+' :: digits => digits
    | _ => cs
  if digits.isEmpty || !digits.all Char.isDigit then none
  else some (digits.foldl (fun n c => 10 * n + (c.toNat - '0'.toNat)) 0)

/-- The level with this number, or with this name in any case of letters. -/
def verbosityOf? (cs : List Char) : Option Nat :=
  match number? cs with
  | some n => if n ≤ everything then some n else none
  | none =>
    [("off", 0), ("error", 1), ("warn", 2), ("info", 3), ("debug", 4), ("trace", 5)].lookup
      (String.ofList cs).toLower

/-! ### Values -/

/-- Decimal digits with a point and an exponent, both of which may be missing. There
is a digit before the point or after it, and one in the exponent. -/
def isDecimal (cs : List Char) : Bool :=
  let whole := cs.takeWhile Char.isDigit
  let rest := cs.dropWhile Char.isDigit
  let (fraction, rest) := match rest with
    | '.' :: rest => (rest.takeWhile Char.isDigit, rest.dropWhile Char.isDigit)
    | _ => ([], rest)
  !(whole.isEmpty && fraction.isEmpty)
    && match rest with
      | [] => true
      | e :: exponent =>
        let digits := match exponent with
          | '+' :: digits | '-' :: digits => digits
          | _ => exponent
        (e == 'e' || e == 'E') && !digits.isEmpty && digits.all Char.isDigit

/-- A number with a sign or without one: a decimal number, an infinite one, or one
that is undefined. -/
def isNumber (cs : List Char) : Bool :=
  let value := match cs with
    | '+' :: value | '-' :: value => value
    | _ => cs
  ["inf", "infinity", "nan"].contains (String.ofList value).toLower || isDecimal value

/-- A value that a field can be asked for. -/
def isValue (cs : List Char) : Bool := isNumber cs || Pattern.isValid cs

/-- What is asked of a field. -/
structure FieldTest where
  /-- The name of the field. -/
  name : String
  /-- A value is asked for. -/
  hasValue : Bool
  deriving DecidableEq, Repr, Inhabited

/-- Read the test of a field. The name ends before the first equals sign, and the
value before the second. -/
def FieldTest.ofChars? (cs : List Char) : Option FieldTest :=
  let name := cs.takeWhile (· != '=')
  match cs.drop name.length with
  | [] => some ⟨String.ofList name, false⟩
  | _ :: rest =>
    if isValue (rest.takeWhile (· != '=')) then some ⟨String.ofList name, true⟩ else none

/-! ### Parts -/

/-- What a rule can start with. -/
def canStart (c : Char) : Bool :=
  c == '[' || c == ':' || c == '-' || c == '_' || CharClass.isAlphanumeric c

/-- The parts of a rule as they are written. -/
structure Parts where
  /-- What stands before a bracket or an equals sign. -/
  target : List Char
  /-- What stands in brackets: the name of a span and the test of a field. -/
  span : Option (List Char × Option (List Char)) := none
  /-- What stands after the equals sign. -/
  level : Option (List Char) := none
  deriving DecidableEq, Repr, Inhabited

/-- The name of a span and the test of a field that start after an opening bracket,
and what follows the closing one. A test stands in braces and is not empty; it is the
last thing in the brackets. -/
def span? (cs : List Char) : Option ((List Char × Option (List Char)) × List Char) :=
  let name := cs.takeWhile fun c => c != ']' && c != '\x7b'
  match cs.drop name.length with
  | ']' :: rest => some ((name, none), rest)
  | '\x7b' :: inner =>
    let test := inner.takeWhile (· != '\x7d')
    match inner.drop test.length with
    | '\x7d' :: ']' :: rest => if test.isEmpty then none else some ((name, some test), rest)
    | _ => none
  | _ => none

/-- Take a rule apart. -/
def Parts.ofChars? (cs : List Char) : Option Parts :=
  let target := cs.takeWhile fun c => c != '[' && c != '='
  match cs.drop target.length with
  | [] => some { target }
  | '=' :: level => some { target, level := some level }
  | _ :: inner =>
    match span? inner with
    | none => none
    | some (span, []) => some { target, span := some span }
    | some (span, '=' :: level) => some { target, span := some span, level := some level }
    | some _ => none

/-- The number of bytes that the characters take. -/
def byteCount (cs : List Char) : Nat := (bytesOfString (String.ofList cs)).length

/-- The characters of a stretch of bytes. A stretch that ends inside of a character has
none. -/
def charsAt? (bytes : Bytes) (start size : Nat) : Option (List Char) :=
  (text? ((bytes.drop start).take size)).map String.toList

/-- What stands in `bytes` in the places of a name and a test from `start` on. -/
def spanAt? (bytes : Bytes) (start : Nat) :
    List Char × Option (List Char) → Option (List Char × Option (List Char))
  | (name, none) => (charsAt? bytes start (byteCount name)).map fun placed => (placed, none)
  | (name, some test) => do
    let placed ← charsAt? bytes start (byteCount name)
    let test ← charsAt? bytes (start + byteCount name + 1) (byteCount test)
    return (placed, some test)

/-- What stands in `bytes` in the places where these are the parts of a rule of `size`
bytes. A level runs to the end, and so does a target without anything else. -/
def Parts.within? (p : Parts) (bytes : Bytes) (size : Nat) : Option Parts :=
  match p.span, p.level with
  | none, none => (charsAt? bytes 0 bytes.length).map fun target => { target }
  | _, _ => do
    let target ← charsAt? bytes 0 (byteCount p.target)
    let span ← match p.span with
      | none => some none
      | some span => (spanAt? bytes (byteCount p.target + 1) span).map some
    let level ← match p.level with
      | none => some none
      | some level => (charsAt? bytes (size - byteCount level) bytes.length).map some
    return { target, span, level }

/-! ### Rules -/

/-- The level of a rule whose level is written like this. Without one, and with an
empty one, everything is told. -/
def levelOf? : Option (List Char) → Option Nat
  | none | some [] => some everything
  | some cs => verbosityOf? cs

/-- The rule with these parts. A single part is a level if it can be. -/
def ofParts? (p : Parts) : Option FilterRule :=
  let target := if p.target.isEmpty then none else some (String.ofList p.target)
  match p.span with
  | none =>
    match p.level, verbosityOf? p.target with
    | none, some verbosity => some { verbosity }
    | level, _ => (levelOf? level).map fun verbosity => { target, verbosity }
  | some (_, none) =>
    (levelOf? p.level).map fun verbosity => { target, needsSpan := true, verbosity }
  | some (name, some test) =>
    match FieldTest.ofChars? test with
    | none => none
    | some test =>
      -- A field is only asked for by its name where neither a span nor a value is.
      let needsSpan := !name.isEmpty || test.hasValue
      (levelOf? p.level).map fun verbosity =>
        { target, field := some test.name, needsSpan, verbosity }

/-- The characters without the blanks around them. -/
def withoutBlanksAround (cs : List Char) : List Char :=
  ((cs.dropWhile CharClass.blank.contains).reverse.dropWhile CharClass.blank.contains).reverse

/-- Read a rule. -/
def ofText? (text : String) : Option FilterRule :=
  match withoutBlanksAround text.toList with
  | [] => none
  | c :: cs =>
    if !canStart c then none
    else do
      let parts ← Parts.ofChars? (c :: cs)
      ofParts? (← parts.within? (bytesOfString text) (byteCount (c :: cs)))

end FilterRule

end Dwarf
