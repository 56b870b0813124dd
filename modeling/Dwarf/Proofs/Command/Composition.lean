import Dwarf.Command.Run
import Dwarf.Proofs.Elf.Lookup
/-!
# Runs are made of smaller runs

A run looks at some files and makes some dumps of each. Such a run is as good as one run for each
file and each dump, in order, and it goes wrong if one of these does. What goes wrong in one dump
is no matter for another, of the same file or of another file.

> `Command.report_composed`: the output of a run is that of these smaller runs put together, and
> its status is 1 exactly if that of one of them is 1.

Reports form a monoid, and a run is the product of its dumps (`Report.ofFile_eq`) wherever there is
a file to dump. Where there is none, no dump writes anything and each of them fails, which comes to
the same.
-/

namespace Dwarf

namespace Flag

/-- The options that stand for dumps, in the order of the dumps. -/
def dumps : List Flag := [abbrevs, info, line, strings]

/-- The dumps that options ask for, in order. Options that ask for none are taken to ask for all
but the one of line number programs. -/
def asked (flags : List Flag) : List Flag :=
  if ∃ flag ∈ dumps, flag ∈ flags then dumps.filter (· ∈ flags) else [abbrevs, info, strings]

/-- An option as an argument. -/
def argument (flag : Flag) : String := String.ofList ['-', flag.letter]

variable {flags : List Flag} {flag : Flag}

theorem mem_dumps : flag ∈ dumps ↔ flag ≠ help := by cases flag <;> decide

theorem ne_help_of_asked (h : flag ∈ asked flags) : flag ≠ help := by
  rw [asked] at h
  split at h
  · exact mem_dumps.mp (List.mem_filter.mp h).1
  · rintro rfl
    exact absurd h (by decide)

theorem asked_ne_nil (flags : List Flag) : asked flags ≠ [] := by
  rw [asked]
  split
  next h =>
    obtain ⟨flag, hdump, hflag⟩ := h
    exact List.ne_nil_of_mem (List.mem_filter.mpr ⟨hdump, decide_eq_true hflag⟩)
  next => simp

theorem asked_singleton (h : flag ≠ help) : asked [flag] = [flag] := by
  cases flag with
  | help => exact absurd rfl h
  | abbrevs | info | line | strings => rfl

end Flag

namespace Selection

variable {flags flags' : List Flag}

/-- The dump that an option stands for is wanted. -/
def wants (wanted : Selection) : Flag → Bool
  | .abbrevs => wanted.abbrevs
  | .info => wanted.info
  | .line => wanted.line
  | .strings => wanted.strings
  | .help => false

/-- The dumps that are wanted if options are taken by the letter. -/
def named (flags : List Flag) : Selection where
  abbrevs := flags.contains .abbrevs
  info := flags.contains .info
  line := flags.contains .line
  strings := flags.contains .strings

theorem ofFlags_of_some (h : ∃ flag ∈ Flag.dumps, flag ∈ flags) : ofFlags flags = named flags := by
  apply if_pos
  simpa [Flag.dumps, or_assoc] using h

theorem ofFlags_of_none (h : ¬ ∃ flag ∈ Flag.dumps, flag ∈ flags) :
    ofFlags flags = ⟨true, true, false, true⟩ := by
  apply if_neg
  simpa [Flag.dumps, and_assoc] using h

theorem filter_wants (flags : List Flag) :
    Flag.dumps.filter (ofFlags flags).wants = Flag.asked flags := by
  rw [Flag.asked]
  split
  next h =>
    rw [ofFlags_of_some h]
    apply List.filter_congr
    intro flag hflag
    rw [← List.contains_eq_mem]
    cases flag with
    | help => exact absurd rfl (Flag.mem_dumps.mp hflag)
    | abbrevs | info | line | strings => rfl
  next h =>
    rw [ofFlags_of_none h]
    rfl

/-- The order of options is no matter, nor is anything but which they are. -/
theorem ofFlags_congr (h : ∀ flag, flag ∈ flags' ↔ flag ∈ flags) :
    ofFlags flags' = ofFlags flags := by
  have hcontains : ∀ flag, flags'.contains flag = flags.contains flag := by
    intro flag
    rw [Bool.eq_iff_iff, List.contains_iff_mem, List.contains_iff_mem, h]
  simp only [ofFlags, hcontains]

/-- The option for line number programs changes nothing else beside another one. -/
theorem ofFlags_line (h : ∀ flag, flag ∈ flags' ↔ flag = .line ∨ flag ∈ flags)
    (hother : ∃ flag ∈ Flag.dumps, flag ∈ flags) :
    ofFlags flags' = { ofFlags flags with line := true } := by
  have hcontains : ∀ flag ≠ Flag.line, flags'.contains flag = flags.contains flag := by
    intro flag hflag
    rw [Bool.eq_iff_iff, List.contains_iff_mem, List.contains_iff_mem, h, or_iff_right hflag]
  have hline : flags'.contains .line = true := List.contains_iff_mem.mpr ((h _).mpr (.inl rfl))
  obtain ⟨flag, hdump, hflag⟩ := hother
  have hdump' : ∃ flag ∈ Flag.dumps, flag ∈ flags' := ⟨flag, hdump, (h flag).mpr (.inr hflag)⟩
  rw [ofFlags_of_some hdump', ofFlags_of_some ⟨flag, hdump, hflag⟩, named, named,
    hcontains .abbrevs (by decide), hcontains .info (by decide), hcontains .strings (by decide),
    hline]

end Selection

namespace Report

theorem text_append (a b : Report) : (a ++ b).text = a.text ++ b.text := rfl

theorem ok_append (a b : Report) : (a ++ b).ok = (a.ok && b.ok) := rfl

theorem empty_append (a : Report) : empty ++ a = a := by
  show append empty a = a
  rw [append, empty, String.empty_append, List.nil_append, Bool.true_and]

theorem append_empty (a : Report) : a ++ empty = a := by
  show append a empty = a
  rw [append, empty, String.append_empty, List.append_nil, Bool.and_true]

theorem append_assoc (a b c : Report) : a ++ b ++ c = a ++ (b ++ c) := by
  show append (append a b) c = append a (append b c)
  simp only [append, String.append_assoc, List.append_assoc, Bool.and_assoc]

theorem text_concat (rs : List Report) : (concat rs).text = String.join (rs.map text) := by
  induction rs with
  | nil => rfl
  | cons r rs ih => rw [concat, text_append, ih, List.map_cons, String.join_cons]

theorem ok_concat (rs : List Report) : (concat rs).ok = true ↔ ∀ r ∈ rs, r.ok = true := by
  induction rs with
  | nil => exact iff_of_true rfl (List.forall_mem_nil _)
  | cons r rs ih => rw [concat, ok_append, Bool.and_eq_true, ih, List.forall_mem_cons]

theorem join_flatMap (texts : String → List String) (paths : List String) :
    String.join (paths.flatMap texts) =
      String.join (paths.map fun path => String.join (texts path)) := by
  induction paths with
  | nil => rfl
  | cons path paths ih =>
    rw [List.flatMap_cons, String.join_append, ih, List.map_cons, String.join_cons]

theorem join_blank (flags : List Flag) : String.join (flags.map fun _ => "") = "" := by
  induction flags with
  | nil => rfl
  | cons flag flags ih => rw [List.map_cons, String.join_cons, ih, String.empty_append]

/-- The report on the dump of a file that an option stands for. -/
def ofDump (path : String) (f : ElfFile) : Flag → Report
  | .abbrevs => ofOutput path f.dumpAbbrevs
  | .info => ofOutput path f.dumpInfo
  | .line => ofEvent (.noLineDump path)
  | .strings => ofOutput path f.dumpStr
  | .help => empty

theorem concat_filter (wants : Flag → Bool) (dump : Flag → Report) (flags : List Flag) :
    concat ((flags.filter wants).map dump) =
      concat (flags.map fun flag => if wants flag then dump flag else empty) := by
  induction flags with
  | nil => rfl
  | cons flag flags ih =>
    rw [List.map_cons, concat, ← ih]
    by_cases hflag : wants flag = true
    · rw [List.filter_cons_of_pos hflag, List.map_cons, concat, if_pos hflag]
    · rw [List.filter_cons_of_neg hflag, if_neg hflag, empty_append]

/-- The report on a file is made of those on the dumps that are asked for. -/
theorem ofFile_eq (flags : List Flag) (path : String) (f : ElfFile) :
    ofFile (.ofFlags flags) path f = concat ((Flag.asked flags).map (ofDump path f)) := by
  rw [← Selection.filter_wants, concat_filter]
  simp only [Flag.dumps, List.map_cons, List.map_nil, concat, append_empty, ← append_assoc]
  rfl

/-- There is a file at a path, or else the report is a failure whatever is asked for. -/
theorem ofPath_cases (path : String) (contents : Except String Bytes) :
    (∃ f, ∀ wanted, ofPath wanted path contents = ofFile wanted path f) ∨
      ∃ r : Report, r.text = "" ∧ r.ok = false ∧ ∀ wanted, ofPath wanted path contents = r := by
  cases contents with
  | error reason => exact .inr ⟨failure path reason, rfl, rfl, fun _ => rfl⟩
  | ok bytes =>
    cases hfile : ElfFile.ofBytes bytes with
    | ok f =>
      refine .inl ⟨f, fun wanted => ?_⟩
      simp only [ofPath, hfile]
    | error e =>
      refine .inr ⟨ofEvent (.rejected path e.kind) ++ failure path e.message, rfl, rfl,
        fun wanted => ?_⟩
      simp only [ofPath, hfile]

/-- The report on a path is made of those on the dumps that are asked for, as far as its text and
whether all went well are concerned: that there is no file is told once, not for each dump. -/
theorem ofPath_eq (flags : List Flag) (path : String) (contents : Except String Bytes) :
    (ofPath (.ofFlags flags) path contents).text =
        String.join ((Flag.asked flags).map fun flag =>
          (ofPath (.ofFlags [flag]) path contents).text) ∧
      ((ofPath (.ofFlags flags) path contents).ok = true ↔
        ∀ flag ∈ Flag.asked flags, (ofPath (.ofFlags [flag]) path contents).ok = true) := by
  rcases ofPath_cases path contents with ⟨f, hfile⟩ | ⟨r, htext, hok, hfailure⟩
  · have hsingle : ∀ flag ∈ Flag.asked flags,
        ofPath (.ofFlags [flag]) path contents = ofDump path f flag := by
      intro flag hflag
      rw [hfile, ofFile_eq, Flag.asked_singleton (Flag.ne_help_of_asked hflag), List.map_singleton,
        concat, concat, append_empty]
    rw [hfile, ofFile_eq, text_concat, ok_concat, List.map_map, List.forall_mem_map]
    constructor
    · refine congrArg String.join (List.map_congr_left fun flag hflag => ?_)
      rw [hsingle flag hflag, Function.comp_apply]
    · refine forall₂_congr fun flag hflag => ?_
      rw [hsingle flag hflag]
  · simp only [hfailure, htext, hok]
    -- At least one dump is asked for, so that the failure is not lost.
    obtain ⟨flag, hflag⟩ := List.exists_mem_of_ne_nil _ (Flag.asked_ne_nil flags)
    refine ⟨(join_blank _).symm, iff_of_false Bool.false_ne_true fun h => ?_⟩
    exact Bool.false_ne_true (h flag hflag)

/-- The option for line number programs makes no text and no failure. -/
theorem ofPath_line (wanted : Selection) (b : Bool) (path : String)
    (contents : Except String Bytes) :
    (ofPath { wanted with line := b } path contents).text = (ofPath wanted path contents).text ∧
      (ofPath { wanted with line := b } path contents).ok = (ofPath wanted path contents).ok := by
  rcases ofPath_cases path contents with ⟨f, hfile⟩ | ⟨r, -, -, hfailure⟩
  · have hline : ∀ b : Bool, (if b then ofEvent (.noLineDump path) else empty).text = "" ∧
        (if b then ofEvent (.noLineDump path) else empty).ok = true := by
      intro b
      cases b <;> exact ⟨rfl, rfl⟩
    rw [hfile, hfile]
    simp only [ofFile, text_append, ok_append, hline, and_self]
  · rw [hfailure, hfailure]
    exact ⟨rfl, rfl⟩

end Report

namespace Arguments

/-- An option by its letter is read as that option. -/
theorem scan_argument (flag : Flag) (args : List String) :
    scan (flag.argument :: args) =
      (scan args).map fun a => { a with flags := flag :: a.flags } := by
  rw [scan, Flag.argument, String.toList_ofList]
  cases flag <;> rfl

end Arguments

namespace Command

/-- The arguments that name options one by one, and then paths. Two dashes keep a path that starts
with a dash from being taken for an option. -/
def arguments (flags : List Flag) (paths : List String) : List String :=
  flags.map Flag.argument ++ "--" :: paths

/-- The report on a run that makes one dump of what is at one path. -/
def single (read : String → Except String Bytes) (flag : Flag) (path : String) : Report :=
  report read (arguments [flag] [path])

theorem scan_arguments (flags : List Flag) (paths : List String) :
    Arguments.scan (arguments flags paths) = .ok ⟨flags, paths⟩ := by
  induction flags with
  | nil => rfl
  | cons flag flags ih =>
    have hcons : arguments (flag :: flags) paths = flag.argument :: arguments flags paths := rfl
    rw [hcons, Arguments.scan_argument, ih]
    rfl

/-- Options that are named once each are taken as they are named. -/
theorem ofList_arguments {flags : List Flag} (h : flags.Nodup) (paths : List String) :
    Arguments.ofList (arguments flags paths) = .ok ⟨flags, paths⟩ := by
  have honce : Flag.all.find? (fun f => 1 < flags.count f) = none := by
    rw [List.find?_eq_none]
    intro flag _
    simpa using List.nodup_iff_count.mp h flag
  rw [Arguments.ofList, scan_arguments]
  simp only [honce]

variable {read : String → Except String Bytes} {args : List String} {a : Arguments}

theorem report_eq (hargs : Arguments.ofList args = .ok a) (hhelp : Flag.help ∉ a.flags)
    (hpaths : a.paths ≠ []) :
    report read args =
      Report.concat (a.paths.map fun path =>
        Report.ofPath (.ofFlags a.flags) path (read path)) := by
  have hdumps : ¬ (a.flags.contains .help || a.paths.isEmpty) = true := by
    simp [hhelp, hpaths]
  rw [report, hargs]
  exact if_neg hdumps

theorem single_eq {flag : Flag} (h : flag ≠ .help) (path : String) :
    single read flag path = Report.ofPath (.ofFlags [flag]) path (read path) := by
  have hargs : Arguments.ofList (arguments [flag] [path]) = .ok ⟨[flag], [path]⟩ :=
    ofList_arguments (by simp) [path]
  rw [single, report_eq hargs (by simpa using h.symm) (List.cons_ne_nil _ _)]
  exact Report.append_empty _

theorem status_eq_one {r : Report} : status r = 1 ↔ ¬ r.ok = true := by
  rw [status]
  split
  next h => simp [h]
  next h => simp [h]

theorem text_report (hargs : Arguments.ofList args = .ok a) (hhelp : Flag.help ∉ a.flags)
    (hpaths : a.paths ≠ []) :
    (report read args).text = String.join (a.paths.flatMap fun path =>
      (Flag.asked a.flags).map fun flag => (single read flag path).text) := by
  rw [report_eq hargs hhelp hpaths, Report.text_concat, Report.join_flatMap, List.map_map]
  refine congrArg String.join (List.map_congr_left fun path _ => ?_)
  rw [Function.comp_apply, (Report.ofPath_eq ..).1]
  refine congrArg String.join (List.map_congr_left fun flag hflag => ?_)
  rw [single_eq (Flag.ne_help_of_asked hflag)]

theorem ok_report (hargs : Arguments.ofList args = .ok a) (hhelp : Flag.help ∉ a.flags)
    (hpaths : a.paths ≠ []) :
    (report read args).ok = true ↔
      ∀ path ∈ a.paths, ∀ flag ∈ Flag.asked a.flags, (single read flag path).ok = true := by
  rw [report_eq hargs hhelp hpaths, Report.ok_concat, List.forall_mem_map]
  refine forall₂_congr fun path _ => ?_
  rw [(Report.ofPath_eq ..).2]
  refine forall₂_congr fun flag hflag => ?_
  rw [single_eq (Flag.ne_help_of_asked hflag)]

theorem report_line {args' : List String} {a' : Arguments}
    (hargs : Arguments.ofList args = .ok a) (hargs' : Arguments.ofList args' = .ok a')
    (hhelp : Flag.help ∉ a.flags) (hpaths : a.paths ≠ []) (hsame : a'.paths = a.paths)
    (hflags : ∀ flag, flag ∈ a'.flags ↔ flag = .line ∨ flag ∈ a.flags) (hother : a.flags ≠ []) :
    (report read args').text = (report read args).text ∧
      (report read args').ok = (report read args).ok := by
  have hhelp' : Flag.help ∉ a'.flags := by
    rw [hflags]
    simpa using hhelp
  have hdump : ∃ flag ∈ Flag.dumps, flag ∈ a.flags := by
    obtain ⟨flag, hflag⟩ := List.exists_mem_of_ne_nil _ hother
    refine ⟨flag, Flag.mem_dumps.mpr ?_, hflag⟩
    rintro rfl
    exact hhelp hflag
  rw [report_eq hargs' hhelp' (hsame ▸ hpaths), report_eq hargs hhelp hpaths, hsame,
    Selection.ofFlags_line hflags hdump]
  constructor
  · rw [Report.text_concat, Report.text_concat, List.map_map, List.map_map]
    refine congrArg String.join (List.map_congr_left fun path _ => ?_)
    exact (Report.ofPath_line ..).1
  · rw [Bool.eq_iff_iff, Report.ok_concat, Report.ok_concat, List.forall_mem_map,
      List.forall_mem_map]
    refine forall₂_congr fun path _ => ?_
    rw [(Report.ofPath_line ..).2]

/-- **A run is made of runs on one path for one dump.** Any options and paths can be written as
arguments. If arguments ask for dumps of some paths, the text of the run is that of the runs for one
of the paths and one of the dumps each, path by path and for each path in the order of the dumps;
and the run fails exactly if one of these fails. The order of the options is no matter, and neither
is the option for line number programs beside another one. What a run on one path does depends on
what is at this path alone. -/
theorem report_composed (read : String → Except String Bytes) :
    (∀ flags paths, flags.Nodup →
      Arguments.ofList (arguments flags paths) = .ok ⟨flags, paths⟩) ∧
    (∀ flag ≠ Flag.help, ∀ path read', read' path = read path →
      single read' flag path = single read flag path) ∧
    (∀ path, (single read .line path).text = "") ∧
    ∀ args a, Arguments.ofList args = .ok a → .help ∉ a.flags → a.paths ≠ [] →
      (report read args).text = String.join (a.paths.flatMap fun path =>
        (Flag.asked a.flags).map fun flag => (single read flag path).text) ∧
      (status (report read args) = 1 ↔
        ∃ path ∈ a.paths, ∃ flag ∈ Flag.asked a.flags, status (single read flag path) = 1) ∧
      ∀ args' a', Arguments.ofList args' = .ok a' → a'.paths = a.paths →
        ((∀ flag, flag ∈ a'.flags ↔ flag ∈ a.flags) → report read args' = report read args) ∧
        ((∀ flag, flag ∈ a'.flags ↔ flag = .line ∨ flag ∈ a.flags) → a.flags ≠ [] →
          (report read args').text = (report read args).text ∧
          status (report read args') = status (report read args)) := by
  refine ⟨fun flags paths h => ofList_arguments h paths, ?_, ?_, ?_⟩
  · intro flag hflag path read' hread
    rw [single_eq hflag, single_eq hflag, hread]
  · intro path
    rw [single_eq (by decide)]
    rcases Report.ofPath_cases path (read path) with ⟨f, hfile⟩ | ⟨r, htext, -, hfailure⟩
    · rw [hfile]
      rfl
    · rw [hfailure, htext]
  · intro args a hargs hhelp hpaths
    refine ⟨text_report hargs hhelp hpaths, ?_, ?_⟩
    · simp only [status_eq_one, ok_report hargs hhelp hpaths, Classical.not_forall, exists_prop]
    · intro args' a' hargs' hsame
      have hpaths' : a'.paths ≠ [] := hsame ▸ hpaths
      refine ⟨fun hflags => ?_, fun hflags hother => ?_⟩
      · rw [report_eq hargs' (fun h => hhelp ((hflags _).mp h)) hpaths',
          report_eq hargs hhelp hpaths, hsame, Selection.ofFlags_congr hflags]
      · obtain ⟨htext, hok⟩ := report_line hargs hargs' hhelp hpaths hsame hflags hother
        exact ⟨htext, by rw [status, status, hok]⟩

/-- One path has a file with strings and no abbreviation tables, the others have none. -/
def sampleFiles (path : String) : Except String Bytes :=
  if path = "some.o" then
    .ok (ElfFile.sampleFile
      [⟨0, 0, 0, 0, 0, 0, 0, 0⟩, ⟨1, 0, 3, 0, 52, 12, 0, 0⟩, ⟨2, 1, 1, 0, 53, 11, 0, 0⟩])
  else .error noSuchFile

theorem report_composed_sampleFiles :
    (report sampleFiles ["-s", "none.o", "some.o", "-a"]).text =
      "The section .debug_str contains:\n\n  [     0]  .debug_str\n\n" ∧
    status (report sampleFiles ["-s", "none.o", "some.o", "-a"]) = 1 := by
  obtain ⟨-, -, -, hrun⟩ := report_composed sampleFiles
  obtain ⟨htext, hstatus, -⟩ := hrun ["-s", "none.o", "some.o", "-a"]
    ⟨[.strings, .abbrevs], ["none.o", "some.o"]⟩ rfl (by decide) (by decide)
  constructor
  · rw [htext]
    decide +kernel
  · rw [hstatus]
    exact ⟨"none.o", by decide, .strings, by decide, by decide +kernel⟩

end Command

end Dwarf
