import Dwarf.Log.Rule
/-!
# Which events are told

A filter is a list of rules, written with commas between them. Where several rules
apply to an event, the strongest decides, and of equals the last. An event that no
rule applies to is not told.

Without a filter, and with one that cannot be read, warnings and errors are told; a
filter without rules leaves errors only.
-/

namespace Dwarf

/-- Rules for telling events. -/
structure LogFilter where
  /-- The rules. Their order matters between equally strong rules only. -/
  rules : List FilterRule
  deriving DecidableEq, Repr, Inhabited

namespace LogFilter

/-- Tell events up to this level. -/
def upTo (level : Level) : LogFilter := ⟨[{ verbosity := level.verbosity }]⟩

/-- Read a filter. -/
def ofText? (text : String) : Option LogFilter :=
  match ((text.splitOn ",").filter fun part => !part.isEmpty).mapM FilterRule.ofText? with
  | none => none
  | some [] => some (upTo .error)
  | some rules => some ⟨rules⟩

/-- The filter that a setting asks for, which may be absent or beyond reading. -/
def ofSetting (setting : Option String) : LogFilter :=
  (setting.bind ofText?).getD (upTo .warn)

/-- The rule that decides about an event. -/
def decisive? (f : LogFilter) (e : Event) : Option FilterRule :=
  (f.rules.filter fun r => r.applies e).foldl (fun best r =>
    match best with
    | none => some r
    | some b => if b.yieldsTo r then some r else some b) none

/-- The event is told. -/
def tells (f : LogFilter) (e : Event) : Bool :=
  match f.decisive? e with
  | none => false
  | some r => e.level.verbosity ≤ r.verbosity

end LogFilter

end Dwarf
