/-!
# Command line arguments

An argument is an option if it starts with a dash and is more than the dash. One
dash is followed by one-letter options, two by a long one; two dashes alone end
the options. Everything else is the path of a file, and options and paths may
come in any order.

No option takes a value and none may be given twice. Arguments are read from the
left and the first one in error is reported; that an option was repeated is found
only when all of them have been read.
-/

namespace Dwarf

/-- An option of the command. -/
inductive Flag where
  /-- Dump abbreviation tables. -/
  | abbrevs
  /-- Dump units. -/
  | info
  /-- Dump line number programs. -/
  | line
  /-- Dump strings. -/
  | strings
  /-- Explain the command. -/
  | help
  deriving DecidableEq, Repr, Inhabited

namespace Flag

/-- Every option, in the order in which they are explained. -/
def all : List Flag := [abbrevs, info, line, strings, help]

/-- The letter of an option. -/
def letter : Flag → Char
  | abbrevs => 'a'
  | info => 'i'
  | line => 'l'
  | strings => 's'
  | help => 'h'

/-- The name by which an option is reported: the long one, if there is one. -/
def name : Flag → String
  | abbrevs => "a"
  | info => "i"
  | line => "l"
  | strings => "s"
  | help => "help"

/-- The option with this letter. -/
def ofLetter? (c : Char) : Option Flag := all.find? fun f => f.letter == c

/-- The option with this name after two dashes. A name of one letter is that
letter. -/
def ofName? (name : String) : Option Flag :=
  match name.toList with
  | [c] => ofLetter? c
  | _ => if name = "help" then some help else none

end Flag

/-- What is wrong with the arguments. -/
inductive UsageFault where
  /-- There is no such option. -/
  | unknown (name : String)
  /-- The option was given a value. -/
  | takesNoValue (name : String)
  /-- The option was given twice. -/
  | repeated (flag : Flag)
  deriving DecidableEq, Repr

namespace UsageFault

/-- The fault in words. -/
def message : UsageFault → String
  | unknown name => "Unrecognized option: '" ++ name ++ "'"
  | takesNoValue name => "Option '" ++ name ++ "' does not take an argument"
  | repeated flag => "Option '" ++ flag.name ++ "' given more than once"

end UsageFault

/-- Arguments that have been read: the options and the paths, each in order. -/
structure Arguments where
  /-- The options, with repetitions. -/
  flags : List Flag
  /-- The paths. -/
  paths : List String
  deriving DecidableEq, Repr, Inhabited

namespace Arguments

/-- The options that the letters after one dash stand for. -/
def flagsOfLetters : List Char → Except UsageFault (List Flag)
  | [] => .ok []
  | c :: cs =>
    match Flag.ofLetter? c with
    | none => .error (.unknown (String.singleton c))
    | some flag =>
      match flagsOfLetters cs with
      | .error e => .error e
      | .ok flags => .ok (flag :: flags)

/-- The option that the text after two dashes stands for. What follows the first
equals sign would be its value. -/
def flagOfLong (text : List Char) : Except UsageFault Flag :=
  let name := String.ofList (text.takeWhile (· != '='))
  match Flag.ofName? name with
  | none => .error (.unknown name)
  | some flag => if text.contains '=' then .error (.takesNoValue name) else .ok flag

/-- Read arguments from the left. -/
def scan : List String → Except UsageFault Arguments
  | [] => .ok ⟨[], []⟩
  | arg :: args =>
    match arg.toList with
    | ['-', '-'] => .ok ⟨[], args⟩
    | '-' :: '-' :: long =>
      match flagOfLong long with
      | .error e => .error e
      | .ok flag => (scan args).map fun a => { a with flags := flag :: a.flags }
    | '-' :: c :: letters =>
      match flagsOfLetters (c :: letters) with
      | .error e => .error e
      | .ok flags => (scan args).map fun a => { a with flags := flags ++ a.flags }
    | _ => (scan args).map fun a => { a with paths := arg :: a.paths }

/-- Read arguments, and refuse options that are given twice. -/
def ofList (args : List String) : Except UsageFault Arguments :=
  match scan args with
  | .error e => .error e
  | .ok a =>
    -- The order of `Flag.all` decides which of two repeated options is reported.
    match Flag.all.find? fun f => 1 < a.flags.count f with
    | some flag => .error (.repeated flag)
    | none => .ok a

end Arguments

/-- Which dumps are wanted. -/
structure Selection where
  /-- The dump of abbreviation tables. -/
  abbrevs : Bool
  /-- The dump of units. -/
  info : Bool
  /-- The dump of line number programs. -/
  line : Bool
  /-- The dump of strings. -/
  strings : Bool
  deriving DecidableEq, Repr, Inhabited

namespace Selection

/-- The dumps that options ask for. Without any of these options all dumps are
wanted that there are, which is all but the one of line number programs. -/
def ofFlags (flags : List Flag) : Selection :=
  let asked : Selection := {
    abbrevs := flags.contains .abbrevs
    info := flags.contains .info
    line := flags.contains .line
    strings := flags.contains .strings }
  if asked.abbrevs || asked.info || asked.line || asked.strings then asked
  else { abbrevs := true, info := true, line := false, strings := true }

end Selection

end Dwarf
