import Dwarf.Command.Options
import Dwarf.Dump.Abbrev
import Dwarf.Dump.Info
import Dwarf.Dump.Strings
import Dwarf.Log.Filter
/-!
# A run of the command

A run dumps the files whose paths it is given, in order, and of each file the
sections that are wanted. What goes wrong in a dump is told in a line with the
path, and takes nothing from any other dump; the status of the run says whether
anything went wrong.

> The report on a list of files is the reports on each of them put together by
> `++`, and that on a file the reports on each of its dumps.
-/

namespace Dwarf

/-- Something that a run says beside its output. -/
inductive Notice where
  /-- Lines that are always said. -/
  | lines (ls : List String)
  /-- An event, which is said if the filter lets it. -/
  | event (e : Event)

namespace Notice

/-- The lines of a notice, under a filter. -/
def shown (filter : LogFilter) : Notice → List String
  | lines ls => ls
  | event e => if filter.tells e then [e.line] else []

end Notice

/-- The outcome of one or more dumps. -/
structure Report where
  /-- The output. -/
  text : String
  /-- What is said beside it. -/
  notices : List Notice
  /-- Nothing went wrong. -/
  ok : Bool

namespace Report

/-- A report of nothing. -/
def empty : Report := ⟨"", [], true⟩

/-- A report of something to say that is no failure. -/
def ofEvent (e : Event) : Report := ⟨"", [.event e], true⟩

/-- A report of a failure that concerns a path. -/
def failure (path reason : String) : Report := ⟨"", [.lines [path ++ ": " ++ reason]], false⟩

/-- One report after another. -/
def append (a b : Report) : Report := ⟨a.text ++ b.text, a.notices ++ b.notices, a.ok && b.ok⟩

instance : Append Report := ⟨append⟩

/-- Reports one after another. -/
def concat : List Report → Report
  | [] => empty
  | a :: rest => a ++ concat rest

/-- The report on a dump of the file at a path. -/
def ofOutput (path : String) (o : Output) : Report :=
  let events : Report := ⟨o.text, o.events.map .event, true⟩
  match o.fault with
  | none => events
  | some e => events ++ failure path e.message

/-- The report on the dumps of a file that are wanted. -/
def ofFile (wanted : Selection) (path : String) (f : ElfFile) : Report :=
  (if wanted.abbrevs then ofOutput path f.dumpAbbrevs else empty)
    ++ (if wanted.info then ofOutput path f.dumpInfo else empty)
    ++ (if wanted.line then ofEvent (.noLineDump path) else empty)
    ++ (if wanted.strings then ofOutput path f.dumpStr else empty)

/-- The report on what is at a path: its bytes, or the reason why there are none. -/
def ofPath (wanted : Selection) (path : String) (contents : Except String Bytes) : Report :=
  match contents with
  | .error reason => failure path reason
  | .ok bytes =>
    match ElfFile.ofBytes bytes with
    | .error e => ofEvent (.rejected path e.kind) ++ failure path e.message
    | .ok f => ofFile wanted path f

end Report

namespace Command

/-- How to use the command. -/
def usageLines : List String := [
  "Usage: dwarfscan [-ails] <file>...",
  "",
  "Options:",
  "    -a                  print .debug_abbrev section",
  "    -i                  print .debug_info section",
  "    -l                  print .debug_line section",
  "    -s                  print .debug_str section",
  "    -h, --help          print this help"]

/-- Why a path has no contents when there is no file. -/
def noSuchFile : String := "No such file or directory (os error 2)"

/-- The report on usage, which counts as a failure. -/
def usage (before : List String) : Report := ⟨"", [.lines (before ++ usageLines)], false⟩

/-- The paths that a run with these arguments looks at. -/
def paths (args : List String) : List String :=
  match Arguments.ofList args with
  | .error _ => []
  | .ok a => if a.flags.contains .help then [] else a.paths

/-- The report on a run with these arguments, where `read` gives the contents of
files. -/
def report (read : String → Except String Bytes) (args : List String) : Report :=
  match Arguments.ofList args with
  | .error e => usage [e.message, ""]
  | .ok a =>
    if a.flags.contains .help || a.paths.isEmpty then usage []
    else
      let wanted := Selection.ofFlags a.flags
      Report.concat (a.paths.map fun path => Report.ofPath wanted path (read path))

/-- The exit status for a report. -/
def status (r : Report) : Nat := if r.ok then 0 else 1

/-- The lines that are said beside the output, under the filter that a setting asks
for. -/
def messages (setting : Option String) (r : Report) : List String :=
  r.notices.flatMap (Notice.shown (LogFilter.ofSetting setting))

end Command

end Dwarf
