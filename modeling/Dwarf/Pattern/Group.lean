import Dwarf.Pattern.Bracket
import Dwarf.Text.Alphanumeric
/-!
# Patterns that can be used

A pattern is read from left to right. Its elements and sets match one after the
other, `|` stands between alternatives, and parentheses make groups. `?`, `*` and `+`
repeat what stands before them. A group can have a name, and it can set the mode of
what it holds; `(?x)` sets the mode up to the end of the group around it.

A pattern is valid if it is read to its end, no group is left open, and it is not
nested deeper than `deepest`.
-/

namespace Dwarf

namespace Pattern

/-! ### What is read of a group -/

/-- The alternatives of a group, as far as they are read. -/
structure Alternatives where
  /-- The alternatives before the last `|`. -/
  before : Row := {}
  /-- The parts of the alternative being read. -/
  parts : Row := {}
  /-- The nesting of the last part, if it can be repeated. -/
  last : Option Nat := none
  deriving DecidableEq, Repr, Inhabited

namespace Alternatives

/-- Add a part. -/
def push (a : Alternatives) (depth : Nat) : Alternatives :=
  { a with parts := a.parts.push depth, last := some depth }

/-- Add a part that sets the mode. There is nothing to repeat in it. -/
def pushSetting (a : Alternatives) : Alternatives :=
  { a with parts := a.parts.push 0, last := none }

/-- Repeat the last part. -/
def repeated? (a : Alternatives) : Option Alternatives :=
  a.last.map fun depth =>
    { a with
      parts := { a.parts with depth := max a.parts.depth (depth + 1) }
      last := some (depth + 1) }

/-- Go on to the next alternative. -/
def next (a : Alternatives) : Alternatives := { before := a.before.push a.parts.nesting }

/-- The nesting of what was read. -/
def nesting (a : Alternatives) : Nat := (a.before.push a.parts.nesting).nesting

end Alternatives

/-! ### Opening parentheses -/

/-- What an opening parenthesis begins. -/
inductive Opening where
  /-- A group, in this mode and perhaps with a name. -/
  | group (mode : Mode) (name : Option (List Char))
  /-- Nothing: the mode is set for what follows. -/
  | setting (mode : Mode)
  deriving DecidableEq, Repr, Inhabited

/-- A name for groups: a letter or an underscore, then letters, numbers and a few
other characters. -/
def isGroupName : List Char → Bool
  | [] => false
  | c :: cs =>
    (c == '_' || CharClass.alphabetic.contains c)
      && cs.all fun c => ['_', '.', '[', ']'].contains c || CharClass.isAlphanumeric c

/-- A group with a name that starts here and ends before `>`. -/
def namedGroup? (m : Mode) (cs : List Char) : Option (Opening × List Char) :=
  let name := cs.takeWhile (· != '>')
  match cs.drop name.length with
  | '>' :: rest => if isGroupName name then some (.group m (some name), rest) else none
  | _ => none

/-- The letters of switches. Each is set once, and a minus sign has letters to set off. -/
def areSwitches (letters : List Char) : Bool :=
  letters.all ['i', 'm', 's', 'U', 'u', 'R', 'x', '-'].contains
    && letters.eraseDups.length == letters.length
    && letters.getLast? != some '-'

/-- Switches that end with `)`, or with `:` before what they are set for. -/
def switches? (m : Mode) (cs : List Char) : Option (Opening × List Char) :=
  let letters := cs.takeWhile fun c => c != ':' && c != ')'
  if !areSwitches letters then none
  else match cs.drop letters.length with
    | ':' :: rest => some (.group (m.set letters) none, rest)
    | ')' :: rest => if letters.isEmpty then none else some (.setting (m.set letters), rest)
    | _ => none

/-- What a parenthesis before these characters begins, and what follows. -/
def opening? (m : Mode) (cs : List Char) : Option (Opening × List Char) :=
  match m.skip cs with
  | '?' :: 'P' :: '<' :: cs => namedGroup? m cs
  | '?' :: '<' :: cs => namedGroup? m cs
  | '?' :: cs => switches? m cs
  | cs => some (.group m none, cs)

/-! ### Patterns -/

/-- The element that a character stands for outside of a set. -/
def Element.ofChar (c : Char) : Element :=
  match c with
  | '.' => .any
  | '^' | '$' => .anchor
  | _ => .char c

/-- The element at the start and what follows it, if it can be used. A brace would
count repetitions, but there is no closing one in a pattern. -/
def element? (m : Mode) (cs : List Char) : Option (List Char) :=
  match cs with
  | [] | '\x7b' :: _ => none
  | '\\' :: cs =>
    match escape? m cs with
    | none => none
    | some (e, rest) => if e.isSupported m then some rest else none
  | c :: rest => if (Element.ofChar c).isSupported m then some rest else none

/-- What follows a sign of repetition. With a question mark as few repetitions are
made as will do. -/
def afterRepetition : List Char → List Char
  | '?' :: cs => cs
  | cs => cs

/-- The nesting of a pattern whose groups are open to some depth. The groups `around`
go on in the modes they come with; `names` are in use. Each step takes at least one
character, so there are no more steps than characters. -/
def openGroups? : (steps : Nat) → Mode → (names : List (List Char)) → Alternatives →
    (around : List (Mode × Alternatives)) → List Char → Option Nat
  | 0, _, _, _, _, _ => none
  | steps + 1, m, names, a, around, cs =>
    match m.skip cs with
    | [] => if around.isEmpty then some a.nesting else none
    | '(' :: cs =>
      match opening? m cs with
      | none => none
      | some (.setting mode, rest) => openGroups? steps mode names a.pushSetting around rest
      | some (.group mode none, rest) => openGroups? steps mode names {} ((m, a) :: around) rest
      | some (.group mode (some name), rest) =>
        if names.contains name then none
        else openGroups? steps mode (name :: names) {} ((m, a) :: around) rest
    | ')' :: rest =>
      match around with
      | [] => none
      | (mode, outer) :: around =>
        openGroups? steps mode names (outer.push (a.nesting + 1)) around rest
    | '|' :: rest => openGroups? steps m names a.next around rest
    | '[' :: cs =>
      match set? m cs with
      | none => none
      | some (depth, rest) => openGroups? steps m names (a.push depth) around rest
    | '?' :: rest | '*' :: rest | '+' :: rest =>
      match a.repeated? with
      | none => none
      | some a => openGroups? steps m names a around (afterRepetition rest)
    | cs =>
      match element? m cs with
      | none => none
      | some rest => openGroups? steps m names (a.push 0) around rest

/-- How deeply a pattern may be nested. -/
def deepest : Nat := 250

/-- The pattern can be used. -/
def isValid (cs : List Char) : Bool :=
  match openGroups? (cs.length + 1) {} [] {} [] cs with
  | none => false
  | some depth => depth ≤ deepest

end Pattern

end Dwarf
