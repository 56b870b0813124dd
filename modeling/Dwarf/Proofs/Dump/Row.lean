import Dwarf.Proofs.Dump.Constant
import Dwarf.Proofs.Dump.Parts
import Dwarf.Proofs.Text.Numeral
import Dwarf.Proofs.Text.Utf8
/-!
# What the rows of a dump say

Here is written down what a reader finds in each row: the offset of a table and of a string, the
code and the tag of a declaration, the fields of a header, the depth and the offset of an entry, and
the name and the value of an attribute. Numbers are told by their digits, strings by their
characters and codes by their names (`Numeral`, `Utf8.Lossy`, `CodeSpace.Shows`), so that nothing
that writes a row is used to say what is in it. The rows of a thing are its own row and those of all
things in it, one after another.

> `AbbrevTable.Rows`, `StringRow`, `UnitHeader.Rows`: the rows of a table, a string and a unit.
>
> `UnitHeader.CutRows`: those of a unit with a fault.
-/

namespace Dwarf

/-! ### Codes and constants -/

/-- A code is shown by its name, or by the space and the number if it has none. -/
inductive CodeSpace.Shows (space : CodeSpace) (code : Nat) : (text : String) → Prop where
  | named {name : String} (hname : (code, name) ∈ space.names) : Shows space code name
  | unnamed {number : String} (hnone : ∀ name, (code, name) ∉ space.names)
    (hnumber : IsDecimal code number) :
    Shows space code ("Unknown " ++ space.label ++ ": " ++ number)

/-- A constant of the attribute called `name` is shown as a code if the attribute is an enumeration
and the constant is small enough to be one of its codes. -/
inductive ShowsConstant (name value : Nat) : (text : String) → Prop where
  | symbol {space : CodeSpace} {text : String} (hspace : valueSpace? name = some space)
    (hcode : value < space.limit) (htext : space.Shows value text) : ShowsConstant name value text
  | number {text : String} (hnone : ∀ space, valueSpace? name = some space → space.limit ≤ value)
    (htext : IsDecimal value text) : ShowsConstant name value text

theorem CodeSpace.shows_render (space : CodeSpace) (code : Nat) :
    space.Shows code (space.render code) := by
  cases hname : space.name? code with
  | some name =>
    rw [render_of_named hname]
    exact .named (mem_of_name? hname)
  | none =>
    rw [render_of_unnamed hname]
    refine .unnamed (fun name hmem => ?_) (isDecimal_iff.mpr rfl)
    have hother := List.lookup_eq_none_iff.mp hname _ hmem
    exact absurd hother (by simp)

theorem showsConstant_constantText (name value : Nat) :
    ShowsConstant name value (constantText name value) := by
  have hshown := shown_constantText name value
  generalize constantText name value = text at hshown ⊢
  cases hshown with
  | symbol hspace hcode => exact .symbol hspace hcode (CodeSpace.shows_render _ value)
  | number hnone => exact .number hnone (isDecimal_iff.mpr rfl)

/-! ### Abbreviation tables -/

/-- The row of an attribute of a declaration: its name, its form, and the constant if the
declaration has it. -/
inductive AttrSpec.Row (spec : AttrSpec) : (text : String) → Prop where
  | plain {name form : String} (hname : CodeSpace.attributeName.Shows spec.name name)
    (hform : CodeSpace.formName.Shows spec.form form) (hconst : spec.implicitConst? = none) :
    Row spec ("      " ++ name ++ "\t" ++ form ++ "\n")
  | const {name form number : String} {value : Int}
    (hname : CodeSpace.attributeName.Shows spec.name name)
    (hform : CodeSpace.formName.Shows spec.form form) (hconst : spec.implicitConst? = some value)
    (hnumber : IsSignedDecimal value number) :
    Row spec ("      " ++ name ++ "\t" ++ form ++ ": " ++ number ++ "\n")

/-- The rows of a declaration: its code, its tag, whether it has children, and its attributes. -/
def Declaration.Rows (d : Declaration) (text : String) : Prop :=
  ∃ code tag rows, IsDecimal d.code code ∧ CodeSpace.tag.Shows d.tag tag ∧
    InTurn AttrSpec.Row d.attributes rows ∧
    text = "[" ++ code ++ "] " ++ tag ++ "\t\t[" ++ (if d.hasChildren then "has" else "no") ++
      " children]" ++ "\n" ++ rows

/-- The rows of a table: its offset, and its declarations. -/
def AbbrevTable.Rows (found : Nat × AbbrevTable) (text : String) : Prop :=
  ∃ offset rows, IsHexadecimal found.1 offset ∧ InTurn Declaration.Rows found.2.toList rows ∧
    text = "  Abbreviation table @ offset " ++ offset ++ ":" ++ "\n" ++ rows

theorem AttrSpec.row_dumpLine (spec : AttrSpec) : spec.Row (linesText [spec.dumpLine]) := by
  have hname := CodeSpace.attributeName.shows_render spec.name
  have hform := CodeSpace.formName.shows_render spec.form
  rw [linesText_singleton, dumpLine]
  cases hconst : spec.implicitConst? with
  | none =>
    show spec.Row (_ ++ "" ++ "\n")
    rw [String.append_empty]
    exact .plain hname hform hconst
  | some value =>
    show spec.Row (_ ++ (": " ++ signedDecimal value) ++ "\n")
    rw [← String.append_assoc]
    exact .const hname hform hconst (isSignedDecimal_iff.mpr rfl)

/-- If the lines of each are its rows, those of all are their rows. -/
theorem inTurn_linesText {α : Type} {rows : α → String → Prop} {lines : α → List String}
    (hrows : ∀ x, rows x (linesText (lines x))) (xs : List α) :
    InTurn rows xs (linesText (xs.flatMap lines)) := by
  induction xs with
  | nil => exact .nil
  | cons x xs ih =>
    rw [List.flatMap_cons, linesText_append]
    exact .cons (hrows x) ih

theorem Declaration.rows_dumpLines (d : Declaration) : d.Rows (linesText d.dumpLines) := by
  have hattributes := inTurn_linesText AttrSpec.row_dumpLine d.attributes
  rw [← List.map_eq_flatMap] at hattributes
  refine ⟨_, _, _, isDecimal_iff.mpr rfl, CodeSpace.tag.shows_render d.tag, hattributes, ?_⟩
  rw [dumpLines, linesText_cons]

theorem AbbrevTable.rows_itemLines (found : Nat × AbbrevTable) :
    Rows found (linesText (itemLines found)) := by
  have hdeclarations := inTurn_linesText Declaration.rows_dumpLines found.2.toList
  refine ⟨_, _, isHexadecimal_iff.mpr rfl, hdeclarations, ?_⟩
  rw [itemLines, dumpLines, linesText_cons]

/-! ### Strings -/

/-- The row of a string: its offset at the right edge of six columns, and its text. -/
def StringRow (found : Nat × Bytes) (text : String) : Prop :=
  ∃ offset blanks string, IsHexDigits found.1 offset ∧ Fills ' ' 6 offset blanks ∧
    IsTextOf found.2 string ∧ text = "  [" ++ blanks ++ offset ++ "]  " ++ string ++ "\n"

theorem stringRow_stringLines (found : Nat × Bytes) :
    StringRow found (linesText (stringLines found)) := by
  refine ⟨_, _, _, isHexDigits_iff.mpr rfl, fills_iff.mpr rfl, isTextOf_iff.mpr rfl, ?_⟩
  rw [stringLines, linesText_singleton, stringDumpLine, padLeft, ← String.append_assoc]

/-! ### Attributes -/

/-- The text of a value of the attribute called `name`. -/
inductive Value.Reads (s : Sections) (name : Nat) : (v : Value) → (text : String) → Prop where
  | addr {address : Nat} {text : String} (htext : IsHexadecimal address text) :
    Reads s name (.addr address) text
  | block {bytes : Bytes} {size : String} (hsize : IsDecimal bytes.length size) :
    Reads s name (.block bytes) (size ++ " byte block")
  | exprloc {bytes : Bytes} {size : String} (hsize : IsDecimal bytes.length size) :
    Reads s name (.exprloc bytes) (size ++ " byte block")
  | data {size value : Nat} {text : String} (htext : ShowsConstant name value text) :
    Reads s name (.data size value) text
  | udata {value : Nat} {text : String} (htext : ShowsConstant name value text) :
    Reads s name (.udata value) text
  | sdata {value : Int} {text : String} (htext : IsSignedDecimal value text) :
    Reads s name (.sdata value) text
  | set : Reads s name (.flag true) "1"
  | clear : Reads s name (.flag false) "0"
  | secOffset {offset : Nat} {text : String} (htext : IsHexadecimal offset text) :
    Reads s name (.secOffset offset) text
  | unitRef {offset : Nat} {number : String} (hnumber : IsHexadecimal offset number) :
    Reads s name (.unitRef offset) ("<" ++ number ++ ">")
  | infoRef {offset : Nat} {number : String} (hnumber : IsHexadecimal offset number) :
    Reads s name (.infoRef offset) ("<" ++ number ++ ">")
  | supInfoRef {offset : Nat} {number : String} (hnumber : IsHexadecimal offset number) :
    Reads s name (.supInfoRef offset) ("<alt " ++ number ++ ">")
  | typeRef {signature : Nat} {number : String} (hnumber : IsWideHexadecimal signature number) :
    Reads s name (.typeRef signature) ("signature: " ++ number)
  | strRef {offset : Nat} {bytes : Bytes} {number string : String}
    (hlookup : s.stringOf (.strRef offset) = .ok bytes) (hnumber : IsHexadecimal offset number)
    (hstring : IsTextOf bytes string) :
    Reads s name (.strRef offset) ("(indirect string, offset: " ++ number ++ "): " ++ string)
  | supStrRef {offset : Nat} {number : String} (hnumber : IsHexadecimal offset number) :
    Reads s name (.supStrRef offset) ("(alt indirect string, offset: " ++ number ++ ")")
  | lineStrRef {offset : Nat} {bytes : Bytes} {number string : String}
    (hlookup : s.stringOf (.lineStrRef offset) = .ok bytes)
    (hnumber : IsHexadecimal offset number) (hstring : IsTextOf bytes string) :
    Reads s name (.lineStrRef offset)
      ("(indirect line string, offset: " ++ number ++ "): " ++ string)
  | strIndex {index : Nat} {number : String} (hnumber : IsHexadecimal index number) :
    Reads s name (.strIndex index) ("(indexed string: " ++ number ++ ")")
  | addrIndex {index : Nat} {number : String} (hnumber : IsHexadecimal index number) :
    Reads s name (.addrIndex index) ("(index: " ++ number ++ ")")
  | locListIndex {index : Nat} {number : String} (hnumber : IsHexadecimal index number) :
    Reads s name (.locListIndex index) ("(location list index: " ++ number ++ ")")
  | rngListIndex {index : Nat} {number : String} (hnumber : IsHexadecimal index number) :
    Reads s name (.rngListIndex index) ("(range list index: " ++ number ++ ")")
  | string {bytes : Bytes} {string : String} (hstring : IsTextOf bytes string) :
    Reads s name (.string bytes) ("\"" ++ string ++ "\"")

/-- What is in front of the value: the name of the attribute, in a column of eighteen. -/
def Attribute.Label (a : Attribute) (text : String) : Prop :=
  ∃ name blanks, CodeSpace.attributeName.Shows a.name name ∧ Fills ' ' 18 name blanks ∧
    text = "     " ++ (name ++ blanks) ++ ": "

/-- The row of an attribute: its name and its value. -/
def Attribute.Row (s : Sections) (a : Attribute) (text : String) : Prop :=
  ∃ label value, a.Label label ∧ a.value.Reads s a.name value ∧ text = label ++ (value ++ "\n")

/-- The row of an attribute with a string that cannot be had, up to the string. -/
def Attribute.CutRow (s : Sections) (a : Attribute) (text : String) (cause : Fault) : Prop :=
  a.value.RefersToString ∧ s.stringOf a.value = .error cause ∧ a.Label text

section Rows

variable {s : Sections}

theorem Value.reads_of_dumpText {v : Value} {name : Nat} {text : String}
    (h : v.dumpText s name = .ok text) : v.Reads s name text := by
  have hhexadecimal : ∀ value, IsHexadecimal value (hexadecimal value) := fun value =>
    isHexadecimal_iff.mpr rfl
  cases v with
  | strRef offset =>
    obtain ⟨bytes, hlookup, hdone⟩ := Fallible.bind_eq_ok.mp h
    cases hdone
    exact .strRef hlookup (hhexadecimal offset) (isTextOf_iff.mpr rfl)
  | lineStrRef offset =>
    obtain ⟨bytes, hlookup, hdone⟩ := Fallible.bind_eq_ok.mp h
    cases hdone
    exact .lineStrRef hlookup (hhexadecimal offset) (isTextOf_iff.mpr rfl)
  | flag set =>
    cases h
    cases set with
    | true => exact .set
    | false => exact .clear
  | addr => cases h; exact .addr (hhexadecimal _)
  | block => cases h; exact .block (isDecimal_iff.mpr rfl)
  | exprloc => cases h; exact .exprloc (isDecimal_iff.mpr rfl)
  | data => cases h; exact .data (showsConstant_constantText name _)
  | udata => cases h; exact .udata (showsConstant_constantText name _)
  | sdata => cases h; exact .sdata (isSignedDecimal_iff.mpr rfl)
  | secOffset => cases h; exact .secOffset (hhexadecimal _)
  | unitRef => cases h; exact .unitRef (hhexadecimal _)
  | infoRef => cases h; exact .infoRef (hhexadecimal _)
  | supInfoRef => cases h; exact .supInfoRef (hhexadecimal _)
  | typeRef => cases h; exact .typeRef (isWideHexadecimal_iff.mpr rfl)
  | supStrRef => cases h; exact .supStrRef (hhexadecimal _)
  | strIndex => cases h; exact .strIndex (hhexadecimal _)
  | addrIndex => cases h; exact .addrIndex (hhexadecimal _)
  | locListIndex => cases h; exact .locListIndex (hhexadecimal _)
  | rngListIndex => cases h; exact .rngListIndex (hhexadecimal _)
  | string => cases h; exact .string (isTextOf_iff.mpr rfl)

theorem Attribute.label_dumpLabel (a : Attribute) : a.Label a.dumpLabel :=
  ⟨_, _, CodeSpace.attributeName.shows_render a.name, fills_iff.mpr rfl, rfl⟩

theorem Attribute.Line.row {a : Attribute} {text : String} (h : a.Line s text) : a.Row s text := by
  obtain ⟨value, hvalue, rfl⟩ := h
  rw [linesText_singleton]
  exact ⟨_, value, a.label_dumpLabel, Value.reads_of_dumpText hvalue, rfl⟩

theorem Attribute.Cut.row {a : Attribute} {text : String} {cause : Fault}
    (h : a.Cut s text cause) : a.CutRow s text cause := by
  obtain ⟨hrefers, hlookup, rfl⟩ := h
  exact ⟨hrefers, hlookup, a.label_dumpLabel⟩

/-! ### Entries -/

/-- The row that opens an entry: its depth, its offset, and the code and tag of its declaration. -/
def Entry.Opening (e : Entry) (text : String) : Prop :=
  ∃ depth offset code tag, IsDecimal e.depth depth ∧ IsHexadecimal e.offset offset ∧
    IsDecimal e.code code ∧ CodeSpace.tag.Shows e.tag tag ∧
    text = " <" ++ depth ++ "><" ++ offset ++ ">: Abbrev Number: " ++ code ++ " (" ++ tag ++ ")" ++
      "\n"

/-- The rows of an entry: its own, and those of all its attributes. -/
def Entry.Rows (s : Sections) (e : Entry) (text : String) : Prop :=
  ∃ opening rows, e.Opening opening ∧ InTurn (Attribute.Row s) e.attributes rows ∧
    text = opening ++ rows

/-- The rows of an entry, up to an attribute with a string that cannot be had. -/
def Entry.CutRows (s : Sections) (e : Entry) (text : String) (cause : Fault) : Prop :=
  ∃ opening rows, e.Opening opening ∧
    CutOff (Attribute.Row s) (Attribute.CutRow s) e.attributes rows cause ∧ text = opening ++ rows

theorem Entry.opening_dumpLine (e : Entry) : e.Opening (linesText [e.dumpLine]) := by
  rw [linesText_singleton]
  exact ⟨_, _, _, _, isDecimal_iff.mpr rfl, isHexadecimal_iff.mpr rfl, isDecimal_iff.mpr rfl,
    CodeSpace.tag.shows_render e.tag, rfl⟩

theorem Entry.Block.rows {e : Entry} {text : String} (h : e.Block s text) : e.Rows s text := by
  obtain ⟨lines, hlines, rfl⟩ := h
  exact ⟨_, lines, e.opening_dumpLine, hlines.mono fun _ _ => Attribute.Line.row, rfl⟩

theorem Entry.Cut.rows {e : Entry} {text : String} {cause : Fault} (h : e.Cut s text cause) :
    e.CutRows s text cause := by
  obtain ⟨lines, hlines, rfl⟩ := h
  exact ⟨_, lines, e.opening_dumpLine,
    hlines.mono (fun _ _ => Attribute.Line.row) (fun _ _ _ => Attribute.Cut.row), rfl⟩

/-! ### Units -/

/-- The rows of what a header has because of the type of the unit. -/
inductive UnitKind.Rows : (kind : UnitKind) → (text : String) → Prop where
  | compilation : Rows .compilation ""
  | partialUnit : Rows .partialUnit ""
  | typeUnit {signature offset : Nat} {name place : String}
    (hname : IsWideHexadecimal signature name) (hplace : IsHexadecimal offset place) :
    Rows (.typeUnit signature offset)
      ("   Signature:     " ++ name ++ "\n" ++ ("   Type Offset:   " ++ place ++ "\n"))
  | splitType {signature offset : Nat} {name place : String}
    (hname : IsWideHexadecimal signature name) (hplace : IsHexadecimal offset place) :
    Rows (.splitType signature offset)
      ("   Signature:     " ++ name ++ "\n" ++ ("   Type Offset:   " ++ place ++ "\n"))
  | skeleton {id : Nat} {name : String} (hname : IsWideHexadecimal id name) :
    Rows (.skeleton id) ("   DWO Id:        " ++ name ++ "\n")
  | splitCompilation {id : Nat} {name : String} (hname : IsWideHexadecimal id name) :
    Rows (.splitCompilation id) ("   DWO Id:        " ++ name ++ "\n")

/-- The rows of the unit type, which a header has from version 5 on. -/
inductive UnitFields.TypeRows (fields : UnitFields) : (text : String) → Prop where
  | untyped (hversion : fields.version < 5) : TypeRows fields ""
  | typed {name rows : String} (hversion : 5 ≤ fields.version)
    (hname : CodeSpace.unitType.Shows fields.kind.code name) (hrows : fields.kind.Rows rows) :
    TypeRows fields ("   Unit Type:     " ++ name ++ "\n" ++ rows)

/-- The rows of a header: its offset, its fields, and what the unit type adds. -/
def UnitHeader.Opening (h : UnitHeader) (text : String) : Prop :=
  ∃ offset length version table size rows, IsHexadecimal h.offset offset ∧
    IsDecimal h.length length ∧ IsDecimal h.fields.version version ∧
    IsDecimal h.fields.abbrevOffset table ∧ IsDecimal h.fields.addressSize size ∧
    h.fields.TypeRows rows ∧
    text = "  Compilation Unit @ offset " ++ offset ++ ":" ++ "\n" ++
      ("   Length:        " ++ length ++ "\n" ++
      ("   Version:       " ++ version ++ "\n" ++
      ("   Abbrev Offset: " ++ table ++ "\n" ++
      ("   Pointer Size:  " ++ size ++ "\n" ++ rows))))

/-- The rows of a unit: those of its header, and those of all its entries. -/
def UnitHeader.Rows (s : Sections) (h : UnitHeader) (text : String) : Prop :=
  ∃ u opening rows, UnitTree.decode s.abbrevs h = .ok u ∧ h.Opening opening ∧
    InTurn (Entry.Rows s) u.entries.toList rows ∧ text = opening ++ rows

/-- The rows of a unit with a fault behind its header. -/
inductive UnitHeader.CutRows (s : Sections) (h : UnitHeader) :
    (text : String) → (cause : Fault) → Prop where
  /-- The table or an entry cannot be read. There are the rows of the header, and no more. -/
  | unread {opening : String} {cause : Fault}
    (hdecode : UnitTree.decode s.abbrevs h = .error cause) (hopening : h.Opening opening) :
    CutRows s h opening cause
  /-- An entry has an attribute with a string that cannot be had. There are all rows up to it. -/
  | unresolved {u : UnitTree} {opening rows : String} {cause : Fault}
    (hdecode : UnitTree.decode s.abbrevs h = .ok u) (hopening : h.Opening opening)
    (hcut : CutOff (Entry.Rows s) (Entry.CutRows s) u.entries.toList rows cause) :
    CutRows s h (opening ++ rows) cause

theorem UnitKind.rows_dumpKindLines (kind : UnitKind) :
    kind.Rows (linesText (UnitHeader.dumpKindLines kind)) := by
  cases kind with
  | compilation => exact .compilation
  | partialUnit => exact .partialUnit
  | typeUnit =>
    rw [UnitHeader.dumpKindLines, linesText_cons, linesText_singleton]
    exact .typeUnit (isWideHexadecimal_iff.mpr rfl) (isHexadecimal_iff.mpr rfl)
  | splitType =>
    rw [UnitHeader.dumpKindLines, linesText_cons, linesText_singleton]
    exact .splitType (isWideHexadecimal_iff.mpr rfl) (isHexadecimal_iff.mpr rfl)
  | skeleton =>
    rw [UnitHeader.dumpKindLines, linesText_singleton]
    exact .skeleton (isWideHexadecimal_iff.mpr rfl)
  | splitCompilation =>
    rw [UnitHeader.dumpKindLines, linesText_singleton]
    exact .splitCompilation (isWideHexadecimal_iff.mpr rfl)

theorem UnitHeader.opening_dumpLines (h : UnitHeader) : h.Opening (linesText h.dumpLines) := by
  have htype : h.fields.TypeRows (linesText (if 5 ≤ h.fields.version then
      ("   Unit Type:     " ++ CodeSpace.unitType.render h.fields.kind.code)
        :: dumpKindLines h.fields.kind
      else [])) := by
    split
    · rename_i hversion
      rw [linesText_cons]
      exact .typed hversion (CodeSpace.unitType.shows_render _) h.fields.kind.rows_dumpKindLines
    · rename_i hversion
      exact .untyped (Nat.lt_of_not_le hversion)
  refine ⟨_, _, _, _, _, _, isHexadecimal_iff.mpr rfl, isDecimal_iff.mpr rfl, isDecimal_iff.mpr rfl,
    isDecimal_iff.mpr rfl, isDecimal_iff.mpr rfl, htype, ?_⟩
  rw [dumpLines, List.cons_append, List.cons_append, List.cons_append, List.cons_append,
    List.cons_append, List.nil_append]
  simp only [linesText_cons]

theorem UnitHeader.Block.rows {h : UnitHeader} {text : String} (hblock : h.Block s text) :
    h.Rows s text := by
  obtain ⟨u, blocks, hdecode, hblocks, rfl⟩ := hblock
  exact ⟨u, _, blocks, hdecode, h.opening_dumpLines, hblocks.mono fun _ _ => Entry.Block.rows, rfl⟩

theorem UnitHeader.Cut.rows {h : UnitHeader} {text : String} {cause : Fault}
    (hcut : h.Cut s text cause) : h.CutRows s text cause := by
  cases hcut with
  | unread hdecode => exact .unread hdecode h.opening_dumpLines
  | unresolved hdecode hcut =>
    have hrows := hcut.mono (fun _ _ => Entry.Block.rows) (fun _ _ _ => Entry.Cut.rows)
    exact .unresolved hdecode h.opening_dumpLines hrows

end Rows

end Dwarf
