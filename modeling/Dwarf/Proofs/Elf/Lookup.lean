import Dwarf.Proofs.Elf.Accepted
/-!
# Which bytes a name stands for

The sections of debugging information are found by their names, in a table that may hold
anything: headers whose name starts behind the name table or has no end in it, several sections
of one name, sections that are said to lie outside the file. So this is said of all tables:
which header answers to a name, and which bytes come of it.

> `ElfFile.FirstNamed`: the header that answers to a name is the first that has it. What has
> the name as a part of its own has another one.

> `ElfFile.debugSection_of_ofBytes`: the section is missing only if no header answers to its
> name; otherwise it is as its header has it, or the fault gives the place that the header
> gives. There is no second try.

Where a section lies is checked by its end alone, and a section without bytes has none:

> `ElfFile.sectionData_of_ofBytes`: the places at which a section is accepted.
-/

namespace Dwarf

theorem SectionId.nameBytes_injective {id id' : SectionId} (h : id.nameBytes = id'.nameBytes) :
    id = id' := by
  cases id <;> cases id' <;> first
    | rfl
    | exact absurd h (by decide)

namespace ElfFile

open Elf

variable {file name : Bytes} {f : ElfFile} {h : SectionHeader}

/-- The header has this name, and its link leads to a section. -/
structure Named (f : ElfFile) (name : Bytes) (h : SectionHeader) : Prop where
  link : h.link < f.sections.length
  name : NameAt f.names h.name name

instance (f : ElfFile) (name : Bytes) (h : SectionHeader) : Decidable (f.Named name h) :=
  decidable_of_iff (h.link < f.sections.length ∧ NameAt f.names h.name name)
    ⟨fun hboth => ⟨hboth.1, hboth.2⟩, fun hnamed => ⟨hnamed.link, hnamed.name⟩⟩

/-- The header is the first with this name, in the order of the table. -/
def FirstNamed (f : ElfFile) (name : Bytes) (h : SectionHeader) : Prop :=
  ∃ before after, f.sections = before ++ h :: after ∧ (∀ h' ∈ before, ¬ f.Named name h') ∧
    f.Named name h

/-- A header has one name. -/
theorem Named.eq {name' : Bytes} (hname : f.Named name h) (hname' : f.Named name' h) :
    name = name' := by
  have hfound := (nameAt_iff.mp hname.name).2
  have hfound' := (nameAt_iff.mp hname'.name).2
  exact Option.some.inj (hfound.symm.trans hfound')

/-! ### Finding a section -/

/-- The test that the search makes of a header. -/
theorem Accepted.tests_iff (hf : Accepted file f) (hh : h ∈ f.sections) :
    (h.link < f.sections.length && f.sectionName? h.index == some name) = true ↔
      f.Named name h := by
  have hinside := hf.nameTableInside
  rw [← hf.bytes] at hinside
  have hname : f.sectionName? h.index = some name ↔ NameAt f.names h.name name := by
    unfold sectionName?
    rw [hf.getElem?_index hh]
    exact nameAt?_eq_some hinside
  rw [Bool.and_eq_true, decide_eq_true_iff, beq_iff_eq, hname]
  exact ⟨fun hboth => ⟨hboth.1, hboth.2⟩, fun hnamed => ⟨hnamed.link, hnamed.name⟩⟩

theorem Accepted.sectionNamed?_eq_some (hf : Accepted file f) :
    f.sectionNamed? name = some h ↔ f.FirstNamed name h := by
  unfold sectionNamed?
  rw [List.find?_eq_some_iff_append]
  constructor
  · rintro ⟨htest, before, after, hsplit, hbefore⟩
    have hh : h ∈ f.sections := by simp [hsplit]
    refine ⟨before, after, hsplit, ?_, (hf.tests_iff hh).mp htest⟩
    intro h' hh' hnamed
    have hmem : h' ∈ f.sections := by simp [hsplit, hh']
    have hfalse := hbefore h' hh'
    rw [(hf.tests_iff hmem).mpr hnamed] at hfalse
    cases hfalse
  · rintro ⟨before, after, hsplit, hbefore, hnamed⟩
    have hh : h ∈ f.sections := by simp [hsplit]
    refine ⟨(hf.tests_iff hh).mpr hnamed, before, after, hsplit, ?_⟩
    intro h' hh'
    have hmem : h' ∈ f.sections := by simp [hsplit, hh']
    rw [Bool.not_eq_true', Bool.eq_false_iff, ne_eq, hf.tests_iff hmem]
    exact hbefore h' hh'

/-! ### The bytes of a section -/

/-- A header of the table leads to its own section. -/
theorem Accepted.sectionData_eq_ok (hf : Accepted file f) (hh : h ∈ f.sections) {bytes : Bytes}
    (hcontents : h.contents? file = some bytes) : f.sectionData h = .ok bytes := by
  unfold sectionData
  simp only [hf.getElem?_index hh, hf.bytes, hcontents]

theorem Accepted.sectionData_of_empty (hf : Accepted file f) (hh : h ∈ f.sections)
    (hempty : h.type = noBitsType ∨ h.size = 0) : f.sectionData h = .ok [] :=
  hf.sectionData_eq_ok hh (SectionHeader.contents?_of_empty hempty)

theorem Accepted.sectionData_of_stored (hf : Accepted file f) (hh : h ∈ f.sections)
    (htype : h.type ≠ noBitsType) (hsize : h.size ≠ 0) (hin : h.offset + h.size ≤ file.length) :
    f.sectionData h = .ok ((file.take (h.offset + h.size)).drop h.offset) :=
  hf.sectionData_eq_ok hh (SectionHeader.contents?_of_stored htype hsize hin)

theorem Accepted.sectionData_of_outside (hf : Accepted file f) (hh : h ∈ f.sections)
    (htype : h.type ≠ noBitsType) (hsize : h.size ≠ 0) (hout : file.length < h.offset + h.size) :
    f.sectionData h = .error (.sectionBounds h.offset h.size) := by
  have hnone := SectionHeader.contents?_eq_none.mpr ⟨htype, hsize, hout⟩
  unfold sectionData
  simp only [hf.getElem?_index hh, hf.bytes, hnone]

/-! ### What comes of a name -/

theorem Accepted.debugSection_of_first (hf : Accepted file f) {id : SectionId}
    (hfirst : f.FirstNamed id.nameBytes h) : f.debugSection id = f.sectionData h := by
  unfold debugSection
  rw [hf.sectionNamed?_eq_some.mpr hfirst]

/-- Where the bytes of a section cannot be had, the fault gives their place. -/
theorem sectionData_eq_error {cause : Fault} (hdata : f.sectionData h = .error cause) :
    cause = .sectionBounds h.offset h.size := by
  unfold sectionData at hdata
  split at hdata
  · cases hdata
    rfl
  · split at hdata <;> cases hdata
    rfl

theorem sectionData_ne_missing (f : ElfFile) (h : SectionHeader) (id : SectionId) :
    f.sectionData h ≠ .error (.missingSection id) := by
  intro hmissing
  cases sectionData_eq_error hmissing

theorem debugSection_eq_error {id : SectionId} {cause : Fault}
    (hdata : f.debugSection id = .error cause) :
    cause = .missingSection id ∨ ∃ h : SectionHeader, cause = .sectionBounds h.offset h.size := by
  unfold debugSection at hdata
  split at hdata
  · cases hdata
    exact .inl rfl
  · next h _ => exact .inr ⟨h, sectionData_eq_error hdata⟩

theorem Accepted.debugSection_eq_missing (hf : Accepted file f) {id : SectionId} :
    f.debugSection id = .error (.missingSection id) ↔ ¬ ∃ h, f.FirstNamed id.nameBytes h := by
  simp only [← hf.sectionNamed?_eq_some]
  unfold debugSection
  cases f.sectionNamed? id.nameBytes with
  | none => simp
  | some h => simp [sectionData_ne_missing]

theorem order_of_load {s : Sections} (hload : f.load = .ok s) : s.order = f.order := by
  unfold load Sections.load at hload
  obtain ⟨_, -, hload⟩ := Fallible.bind_eq_ok.mp hload
  obtain ⟨_, -, hload⟩ := Fallible.bind_eq_ok.mp hload
  obtain ⟨_, -, hload⟩ := Fallible.bind_eq_ok.mp hload
  obtain ⟨_, -, hload⟩ := Fallible.bind_eq_ok.mp hload
  cases hload
  rfl

/-- **A section is never taken for another one, nor read from outside the file.** Of every file
that is accepted: a section is missing exactly if no header has its name and a link that leads
to a section. Otherwise the first such header, which has no other section's name, decides. If
it has no bytes, the section is empty; if it has, these are the bytes of the file at its place
if and only if they end inside the file, and else the fault gives this place, whatever other
headers have the name. The byte order is that of the file. -/
theorem debugSection_of_ofBytes (hf : ofBytes file = .ok f) (id : SectionId) :
    (f.debugSection id = .error (.missingSection id) ↔
      ¬ ∃ h, f.FirstNamed id.nameBytes h) ∧
    (∀ h, f.FirstNamed id.nameBytes h →
      (∀ id' : SectionId, f.Named id'.nameBytes h → id' = id) ∧
      (h.type = noBitsType ∨ h.size = 0 → f.debugSection id = .ok []) ∧
      (h.type ≠ noBitsType → h.size ≠ 0 →
        (f.debugSection id = .ok ((file.take (h.offset + h.size)).drop h.offset) ↔
          h.offset + h.size ≤ file.length) ∧
        (file.length < h.offset + h.size →
          f.debugSection id = .error (.sectionBounds h.offset h.size)))) ∧
    f.bytes = file ∧ f.nameTable ∈ f.sections ∧ file[5]? = some f.order.identByte ∧
    ∀ s, f.load = .ok s → s.order = f.order := by
  have hf := accepted_of_ofBytes hf
  refine ⟨hf.debugSection_eq_missing, ?_, hf.bytes, hf.nameTable,
    (identified_of_identify hf.identified).dataByte, fun s => order_of_load⟩
  intro h hfirst
  have hdata := hf.debugSection_of_first hfirst
  obtain ⟨before, after, hsplit, -, hnamed⟩ := hfirst
  have hh : h ∈ f.sections := by simp [hsplit]
  rw [hdata]
  refine ⟨fun id' hnamed' => SectionId.nameBytes_injective (hnamed'.eq hnamed),
    hf.sectionData_of_empty hh, fun htype hsize => ?_⟩
  have hout := hf.sectionData_of_outside hh htype hsize
  refine ⟨⟨fun hok => ?_, hf.sectionData_of_stored hh htype hsize⟩, hout⟩
  rcases Nat.lt_or_ge file.length (h.offset + h.size) with hlt | hin
  · rw [hout hlt] at hok
    cases hok
  · exact hin

/-- A file of these sections, with 12 bytes of names behind the header. -/
def sampleFile (sections : List SectionHeader) : Bytes :=
  magic ++ [1, 1, 1] ++ List.replicate 25 0 ++ [64, 0, 0, 0, 0, 0, 0, 0, 52, 0, 0, 0, 0, 0, 40, 0]
    ++ [UInt8.ofNat sections.length, 0, 1, 0] ++ 0 :: SectionId.str.nameBytes ++ [0]
    ++ sections.flatMap (SectionHeader.encode .elf32 .little)

/-- Three sections have the name of the string section. The link of the first leads nowhere, the
second lies behind the file. -/
def namesakes : List SectionHeader :=
  [⟨0, 0, 0, 0, 0, 0, 0, 0⟩, ⟨1, 0, 3, 0, 52, 12, 0, 0⟩, ⟨2, 1, 1, 0, 53, 4, 9, 0⟩,
    ⟨3, 1, 1, 0, 300, 8, 0, 0⟩, ⟨4, 1, 1, 0, 53, 11, 0, 0⟩]

theorem debugSection_of_namesakes : ∃ f, ofBytes (sampleFile namesakes) = .ok f ∧
    f.FirstNamed SectionId.str.nameBytes ⟨3, 1, 1, 0, 300, 8, 0, 0⟩ ∧
    f.debugSection .str = .error (.sectionBounds 300 8) ∧
    f.debugSection .info = .error (.missingSection .info) := by
  have hread : (ofBytes (sampleFile namesakes)).toOption.map (fun f => (f.sections, f.names)) =
      some (namesakes, 0 :: SectionId.str.nameBytes ++ [0]) := by
    decide +kernel
  obtain ⟨f, hf, hparts⟩ := Fallible.exists_of_map hread
  obtain ⟨hsections, hnames⟩ := Prod.mk.inj hparts
  have hnamed : ∀ name h, f.Named name h ↔
      h.link < namesakes.length ∧ NameAt (0 :: SectionId.str.nameBytes ++ [0]) h.name name := by
    intro name h
    rw [← hsections, ← hnames]
    exact ⟨fun hnamed => ⟨hnamed.link, hnamed.name⟩, fun hboth => ⟨hboth.1, hboth.2⟩⟩
  have hfirst : f.FirstNamed SectionId.str.nameBytes ⟨3, 1, 1, 0, 300, 8, 0, 0⟩ := by
    refine ⟨namesakes.take 3, namesakes.drop 4, hsections.trans rfl, ?_⟩
    simp only [hnamed]
    decide +kernel
  obtain ⟨-, hstr, -⟩ := debugSection_of_ofBytes hf .str
  obtain ⟨-, -, hstored⟩ := hstr _ hfirst
  obtain ⟨hinfo, -⟩ := debugSection_of_ofBytes hf .info
  refine ⟨f, hf, hfirst, (hstored (by decide) (by decide)).2 (by decide +kernel), hinfo.mpr ?_⟩
  have hother : ∀ h ∈ f.sections, ¬ f.Named SectionId.info.nameBytes h := by
    simp only [hsections, hnamed]
    decide +kernel
  rintro ⟨h, before, after, hsplit, -, hinfoNamed⟩
  exact hother h (by simp [hsplit]) hinfoNamed

/-! ### Where a section may lie -/

/-- **Places are checked by where the bytes end.** Of every file that is accepted: a section that
is not without bytes by its type is read if and only if its size is zero, or it starts and
ends inside the file; if it has a size and does not, the fault gives its place. The name
table, too, has the size zero or lies inside the file. -/
theorem sectionData_of_ofBytes (hf : ofBytes file = .ok f) :
    (∀ h ∈ f.sections, h.type ≠ noBitsType →
      ((∃ bytes, f.sectionData h = .ok bytes) ↔
        h.size = 0 ∨ h.offset ≤ file.length ∧ h.offset + h.size ≤ file.length) ∧
      (h.size ≠ 0 → file.length < h.offset ∨ file.length < h.offset + h.size →
        f.sectionData h = .error (.sectionBounds h.offset h.size))) ∧
    (f.nameTable.size = 0 ∨
      f.nameTable.offset ≤ file.length ∧ f.nameTable.offset + f.nameTable.size ≤ file.length) := by
  have hf := accepted_of_ofBytes hf
  constructor
  · intro h hh htype
    have hout := hf.sectionData_of_outside hh htype
    refine ⟨⟨?_, ?_⟩, fun hsize hplace => hout hsize (by omega)⟩
    · rintro ⟨bytes, hok⟩
      by_cases hsize : h.size = 0
      · exact .inl hsize
      · by_cases hlt : file.length < h.offset + h.size
        · rw [hout hsize hlt] at hok
          cases hok
        · exact .inr ⟨by omega, by omega⟩
    · intro hplace
      by_cases hsize : h.size = 0
      · exact ⟨_, hf.sectionData_of_empty hh (.inr hsize)⟩
      · exact ⟨_, hf.sectionData_of_stored hh htype hsize (by omega)⟩
  · have hinside := hf.nameTableInside
    unfold SectionHeader.Inside at hinside
    omega

theorem sectionData_of_namesakes : ∃ f, ofBytes (sampleFile namesakes) = .ok f ∧
    f.sectionData ⟨3, 1, 1, 0, 300, 8, 0, 0⟩ = .error (.sectionBounds 300 8) ∧
    ∃ bytes, f.sectionData ⟨4, 1, 1, 0, 53, 11, 0, 0⟩ = .ok bytes := by
  have hread : (ofBytes (sampleFile namesakes)).toOption.map (·.sections) = some namesakes := by
    decide +kernel
  obtain ⟨f, hf, hsections⟩ := Fallible.exists_of_map hread
  obtain ⟨hdata, -⟩ := sectionData_of_ofBytes hf
  rw [hsections] at hdata
  obtain ⟨-, hout⟩ := hdata ⟨3, 1, 1, 0, 300, 8, 0, 0⟩ (by decide) (by decide)
  obtain ⟨hin, -⟩ := hdata ⟨4, 1, 1, 0, 53, 11, 0, 0⟩ (by decide) (by decide)
  exact ⟨f, hf, hout (by decide) (.inl (by decide +kernel)), hin.mpr (.inr (by decide +kernel))⟩

/-- The last section has no bytes, far behind the end of the file. -/
def vacantSection : List SectionHeader :=
  [⟨0, 0, 0, 0, 0, 0, 0, 0⟩, ⟨1, 0, 3, 0, 52, 12, 0, 0⟩, ⟨2, 1, 1, 0, 4096, 0, 0, 0⟩]

/-- The name table has no bytes, far behind the end of the file. -/
def vacantNameTable : List SectionHeader :=
  [⟨0, 0, 0, 0, 0, 0, 0, 0⟩, ⟨1, 0, 3, 0, 4096, 0, 0, 0⟩]

/-- A section may start behind the end of the file, if it has the size zero. -/
theorem vacant_outside :
    (∃ f, ofBytes (sampleFile vacantSection) = .ok f ∧ ∃ h ∈ f.sections, h.type ≠ noBitsType ∧
      (sampleFile vacantSection).length < h.offset ∧ f.sectionData h = .ok []) ∧
    ∃ f, ofBytes (sampleFile vacantNameTable) = .ok f ∧
      (sampleFile vacantNameTable).length < f.nameTable.offset := by
  constructor
  · have hread : (ofBytes (sampleFile vacantSection)).toOption.map (·.sections) =
        some vacantSection := by
      decide +kernel
    obtain ⟨f, hf, hsections⟩ := Fallible.exists_of_map hread
    have hh : (⟨2, 1, 1, 0, 4096, 0, 0, 0⟩ : SectionHeader) ∈ f.sections := by
      rw [hsections]
      decide
    exact ⟨f, hf, _, hh, by decide, by decide +kernel,
      (accepted_of_ofBytes hf).sectionData_of_empty hh (.inr rfl)⟩
  · have hread : (ofBytes (sampleFile vacantNameTable)).toOption.map (·.nameTable.offset) =
        some 4096 := by
      decide +kernel
    obtain ⟨f, hf, hoffset⟩ := Fallible.exists_of_map hread
    exact ⟨f, hf, by rw [hoffset]; decide +kernel⟩

end ElfFile

end Dwarf
