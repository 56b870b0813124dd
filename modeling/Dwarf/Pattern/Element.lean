import Dwarf.Text.CharClass
/-!
# What patterns are made of

A pattern describes texts. Most of its characters stand for themselves, a few for
something else, and a backslash turns one into the other. A `Mode` says how they are
read, and which of them can be used at all.

Patterns are matched byte by byte, without tables about the scripts of the world.
This leaves out what such tables are needed for: letters without regard to case, and
digits, blanks and words of any script. It also leaves out what could match a part
of a character.
-/

namespace Dwarf

namespace Pattern

/-! ### Modes -/

/-- How a pattern is read. -/
structure Mode where
  /-- Small letters and capitals are the same. -/
  ignoreCase : Bool := false
  /-- The pattern is about characters. Otherwise it is about bytes. -/
  unicode : Bool := true
  /-- Blanks between elements are for reading only, and so are remarks. -/
  extended : Bool := false
  deriving DecidableEq, Repr, Inhabited

/-- What follows the blanks and remarks at the start. A remark runs from `#` to the
end of its line. -/
def afterRemarks : (inRemark : Bool) → List Char → List Char
  | _, [] => []
  | true, c :: cs => afterRemarks (c != '\n') cs
  | false, c :: cs =>
    if CharClass.blank.contains c then afterRemarks false cs
    else if c == '#' then afterRemarks true cs
    else c :: cs

namespace Mode

/-- What follows the characters at the start that are not a part of the pattern. -/
def skip (m : Mode) (cs : List Char) : List Char :=
  if m.extended then afterRemarks false cs else cs

/-- A switch after these letters were set. Letters after a minus sign are set off. -/
def switched (letters : List Char) (letter : Char) (before : Bool) : Bool :=
  if (letters.takeWhile (· != '-')).contains letter then true
  else if letters.contains letter then false
  else before

/-- The mode after these letters were set. -/
def set (m : Mode) (letters : List Char) : Mode where
  ignoreCase := switched letters 'i' m.ignoreCase
  unicode := switched letters 'u' m.unicode
  extended := switched letters 'x' m.extended

end Mode

/-! ### Elements -/

/-- What matches a single character, or a place between two. -/
inductive Element where
  /-- A character, which may be written as the number of a byte. -/
  | char (c : Char) (asByte : Bool := false)
  /-- Any character but the end of a line. -/
  | any
  /-- The start or the end of a line or of the text. -/
  | anchor
  /-- The start or the end of a word, or any other place. -/
  | boundary
  /-- A digit, a blank or a character of a word, or any other character. -/
  | family (negated : Bool)
  deriving DecidableEq, Repr, Inhabited

namespace Element

/-- The element can be used by itself. -/
def isSupported (m : Mode) : Element → Bool
  | char c asByte => if m.unicode then !m.ignoreCase else !(asByte && c.toNat > 0x7f)
  | any => m.unicode
  | anchor => true
  | boundary => !m.unicode
  | family negated => !m.unicode && !negated

/-- The element can be used in a set. -/
def isSupportedInSet (m : Mode) : Element → Bool
  | char c _ => if m.unicode then !m.ignoreCase else c.toNat ≤ 0x7f
  | family negated => !m.unicode && !negated
  | any | anchor | boundary => false

/-- Both elements are characters, and the second is not before the first. -/
def isRange : Element → Element → Bool
  | char first _, char last _ => first.toNat ≤ last.toNat
  | _, _ => false

end Element

/-! ### Characters after a backslash -/

/-- The value of a hexadecimal digit. -/
def hexDigit? (c : Char) : Option Nat :=
  if c.isDigit then some (c.toNat - '0'.toNat)
  else if 'a' ≤ c ∧ c ≤ 'f' then some (c.toNat - 'a'.toNat + 10)
  else if 'A' ≤ c ∧ c ≤ 'F' then some (c.toNat - 'A'.toNat + 10)
  else none

/-- The number that so many hexadecimal digits spell, and what follows them. -/
def hexNumber? (m : Mode) : (digits value : Nat) → List Char → Option (Nat × List Char)
  | 0, value, cs => some (value, cs)
  | _ + 1, _, [] => none
  | digits + 1, value, c :: cs =>
    match hexDigit? c with
    | none => none
    | some digit => hexNumber? m digits (16 * value + digit) (m.skip cs)

/-- How many digits follow a letter that announces the number of a character. -/
def codeLength? (c : Char) : Option Nat := [('x', 2), ('u', 4), ('U', 8)].lookup c

/-- The letters for control characters, with their numbers. -/
def controlCodes : List (Char × Nat) :=
  [('a', 0x07), ('t', 0x09), ('n', 0x0a), ('v', 0x0b), ('f', 0x0c), ('r', 0x0d)]

/-- What a single character after a backslash stands for. -/
def escaped? (c : Char) : Option Element :=
  if ['d', 's', 'w'].contains c then some (.family false)
  else if ['D', 'S', 'W'].contains c then some (.family true)
  else if ['A', 'z'].contains c then some .anchor
  else if ['b', 'B', '<', '>'].contains c then some .boundary
  else match controlCodes.lookup c with
    | some code => some (.char (Char.ofNat code))
    | none => if c.toNat ≤ 0x7f && !c.isAlphanum then some (.char c) else none

/-- The element after a backslash, and what follows it. -/
def escape? (m : Mode) : List Char → Option (Element × List Char)
  | [] => none
  | c :: cs =>
    match codeLength? c with
    | none => (escaped? c).map fun e => (e, cs)
    | some digits =>
      match hexNumber? m digits 0 (m.skip cs) with
      | none => none
      | some (code, rest) =>
        if code.isValidChar then some (.char (Char.ofNat code) (c == 'x'), rest) else none

end Pattern

end Dwarf
