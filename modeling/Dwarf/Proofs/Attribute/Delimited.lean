import Dwarf.Attribute.Decode
import Dwarf.Proofs.Bytes.Delimited
/-!
# Attributes end where their own bytes say

An attribute has no length in front of it. Its form fixes the bytes, and where the
form is read from the entry it is part of those bytes. So every attribute is
delimited by its own bytes, and a run of attributes is a run of such pieces, one
for each specification:

> `Attribute.spells_decodeAll`: the bytes of a list of attributes are the bytes of
> the attributes, end to end.
-/

namespace Dwarf

theorem Layout.delimited_decode (order : ByteOrder) (layout : Layout) :
    Decoder.Delimited (layout.decode order) := by
  cases layout with
  | uint width => exact Decoder.delimited_uint order width
  | address size => exact Decoder.delimited_address order size
  | unsigned => exact Decoder.delimited_unsigned
  | signed => exact Decoder.delimited_signed
  | block width => exact Decoder.delimited_block order width
  | countedBlock => exact Decoder.delimited_countedBlock
  | raw count => exact Decoder.delimited_take count
  | terminated => exact Decoder.delimited_terminated
  | nothing => exact .pure _
  | given value =>
    cases value with
    | none => exact .fail _
    | some value => exact .pure _

/-- A layout does not ask for an integer of no bytes, or of more than eight. -/
def Layout.Readable : Layout → Prop
  | uint width => 1 ≤ width ∧ width ≤ 8
  | _ => True

theorem Form.readable_layout (enc : Encoding) (const : Option Int) (form : Form) :
    (form.layout enc const).Readable := by
  have hword : 1 ≤ enc.format.wordSize ∧ enc.format.wordSize ≤ 8 := by
    cases enc.format <;> decide
  cases form <;> first | exact True.intro | exact hword | exact ⟨by decide, by decide⟩

namespace Form

/-! ### One step through an indirect form -/

theorem readCode_of_ne {code : Nat} (h : code ≠ indirectCode) (bs : Bytes) :
    readCode code bs = .ok code bs := by
  rw [readCode, if_neg h]

theorem readCode_indirect {bs rest : Bytes} {code : Nat}
    (h : Decoder.unsigned.run bs = .ok code rest) :
    readCode indirectCode bs =
      if 0xffff < code then .fault (.formRange code) rest else readCode code rest := by
  rw [readCode, if_pos rfl]
  split <;> simp_all

theorem readCode_fault {bs rest : Bytes} {cause : Fault}
    (h : Decoder.unsigned.run bs = .fault cause rest) :
    readCode indirectCode bs = .fault cause rest := by
  rw [readCode, if_pos rfl]
  split <;> simp_all

/-- A chain of indirect forms is found in its own bytes. -/
theorem delimited_resolve (code : Nat) : Decoder.Delimited (resolve code) where
  ok {bs rest value} h := by
    replace h : readCode code bs = .ok value rest := h
    show ∃ head, bs = head ++ rest ∧ ∀ tail, readCode code (head ++ tail) = .ok value tail
    fun_induction readCode code bs with
    | case1 bs cause rest' hnext => cases h
    | case2 bs code rest' hnext hrange => cases h
    | case3 bs code rest' hnext hrange ih =>
      obtain ⟨first, rfl, hfirst⟩ := Decoder.delimited_unsigned.ok hnext
      obtain ⟨head, rfl, hhead⟩ := ih h
      refine ⟨first ++ head, (List.append_assoc ..).symm, fun tail => ?_⟩
      rw [List.append_assoc, readCode_indirect (hfirst _), if_neg hrange]
      exact hhead tail
    | case4 code bs hcode =>
      cases h
      exact ⟨[], rfl, fun tail => readCode_of_ne hcode tail⟩
  fault {bs rest cause} h hcause tail := by
    replace h : readCode code bs = .fault cause rest := h
    show readCode code (bs ++ tail) = .fault cause (rest ++ tail)
    fun_induction readCode code bs with
    | case1 bs cause' rest' hnext =>
      cases h
      exact readCode_fault (Decoder.delimited_unsigned.fault hnext hcause tail)
    | case2 bs code rest' hnext hrange =>
      cases h
      obtain ⟨first, rfl, hfirst⟩ := Decoder.delimited_unsigned.ok hnext
      rw [List.append_assoc, readCode_indirect (hfirst _), if_pos hrange]
    | case3 bs code rest' hnext hrange ih =>
      obtain ⟨first, rfl, hfirst⟩ := Decoder.delimited_unsigned.ok hnext
      rw [List.append_assoc, readCode_indirect (hfirst _), if_neg hrange]
      exact ih h
    | case4 code bs hcode => cases h

end Form

namespace Attribute

theorem delimited_decode (enc : Encoding) (spec : AttrSpec) :
    Decoder.Delimited (decode enc spec) := by
  apply (Form.delimited_resolve spec.form).bind
  intro code
  unfold decodeAs
  split
  · exact .fail _
  · exact (Layout.delimited_decode enc.order _).bind fun _ => .pure _

theorem delimited_decodeAll (enc : Encoding) (specs : List AttrSpec) :
    Decoder.Delimited (decodeAll enc specs) := by
  induction specs with
  | nil => exact .pure _
  | cons spec specs ih => exact (delimited_decode enc spec).bind fun _ => ih.bind fun _ => .pure _

/-- Each part is the bytes and the value of one attribute, for each of `specs` in turn. -/
inductive Parts (enc : Encoding) : List AttrSpec → List (Bytes × Attribute) → Prop where
  | nil : Parts enc [] []
  | cons {spec : AttrSpec} {specs : List AttrSpec} {part : Bytes × Attribute}
      {parts : List (Bytes × Attribute)} (first : (decode enc spec).Spells part.1 part.2)
      (others : Parts enc specs parts) : Parts enc (spec :: specs) (part :: parts)

theorem spells_decodeAll {enc : Encoding} {specs : List AttrSpec} {bytes : Bytes}
    {attributes : List Attribute} :
    (decodeAll enc specs).Spells bytes attributes ↔
      ∃ parts, Parts enc specs parts ∧ bytes = parts.flatMap (·.1) ∧
        attributes = parts.map (·.2) := by
  induction specs generalizing bytes attributes with
  | nil =>
    rw [decodeAll, Decoder.spells_pure]
    constructor
    · intro h
      obtain ⟨rfl, rfl⟩ := h
      exact ⟨[], .nil, rfl, rfl⟩
    · intro h
      obtain ⟨parts, hparts, rfl, rfl⟩ := h
      cases hparts
      exact ⟨rfl, rfl⟩
  | cons spec specs ih =>
    rw [decodeAll, (delimited_decode enc spec).spells_bind]
    constructor
    · intro h
      obtain ⟨first, head, tail, rfl, hfirst, htail⟩ := h
      rw [(delimited_decodeAll enc specs).spells_bind] at htail
      obtain ⟨others, mid, last, rfl, hothers, hlast⟩ := htail
      obtain ⟨rfl, rfl⟩ := Decoder.spells_pure.mp hlast
      obtain ⟨parts, hparts, rfl, rfl⟩ := ih.mp hothers
      exact ⟨(head, first) :: parts, .cons hfirst hparts, by simp, rfl⟩
    · intro h
      obtain ⟨parts, hparts, rfl, rfl⟩ := h
      cases hparts with
      | @cons _ _ part parts hfirst hothers =>
        refine ⟨part.2, part.1, parts.flatMap (·.1), rfl, hfirst, ?_⟩
        rw [(delimited_decodeAll enc specs).spells_bind]
        exact ⟨_, _, [], by simp, ih.mpr ⟨parts, hothers, rfl, rfl⟩,
          Decoder.spells_pure.mpr ⟨rfl, rfl⟩⟩

section Parts

variable {enc : Encoding} {specs : List AttrSpec} {parts parts' : List (Bytes × Attribute)}

/-- Bytes start with one list of attributes at most. -/
theorem Parts.unique (h : Parts enc specs parts) (h' : Parts enc specs parts') {x y : Bytes}
    (heq : parts.flatMap (·.1) ++ x = parts'.flatMap (·.1) ++ y) : parts = parts' ∧ x = y := by
  induction h generalizing parts' with
  | nil =>
    cases h'
    exact ⟨rfl, heq⟩
  | @cons spec specs part parts hfirst hothers ih =>
    cases h' with
    | @cons _ _ part' parts' hfirst' hothers' =>
      simp only [List.flatMap_cons, List.append_assoc] at heq
      obtain ⟨hbytes, hvalue, hlater⟩ := (delimited_decode enc spec).unique hfirst hfirst' heq
      obtain ⟨rfl, hrest⟩ := ih hothers' hlater
      rw [Prod.ext hbytes hvalue]
      exact ⟨rfl, hrest⟩

/-- The first attribute that cannot be read ends the reading of a list. -/
theorem Parts.run_decodeAll (h : Parts enc specs parts) {spec : AttrSpec} {rest left : Bytes}
    {cause : Fault} (hfault : (decode enc spec).run rest = .fault cause left)
    (after : List AttrSpec) :
    (decodeAll enc (specs ++ spec :: after)).run (parts.flatMap (·.1) ++ rest) =
      .fault cause left := by
  induction h with
  | nil =>
    show (decodeAll enc (spec :: after)).run rest = _
    rw [decodeAll, Decoder.run_bind, hfault]
  | @cons first specs part parts hfirst hothers ih =>
    rw [List.flatMap_cons, List.append_assoc, List.cons_append, decodeAll, Decoder.run_bind,
      hfirst.run (delimited_decode enc first)]
    simp only [Decoder.run_bind, ih]

theorem exists_parts_of_fault {bs left : Bytes} {cause : Fault}
    (h : (decodeAll enc specs).run bs = .fault cause left) : ∃ before spec after parts rest,
      specs = before ++ spec :: after ∧ Parts enc before parts ∧
        bs = parts.flatMap (·.1) ++ rest ∧ (decode enc spec).run rest = .fault cause left := by
  induction specs generalizing bs with
  | nil => cases h
  | cons first specs ih =>
    rw [decodeAll, Decoder.run_bind] at h
    cases hrun : (decode enc first).run bs with
    | fault cause' mid =>
      rw [hrun] at h
      cases h
      exact ⟨[], first, specs, [], bs, rfl, .nil, rfl, hrun⟩
    | ok value mid =>
      obtain ⟨bytes, rfl, hspells⟩ := (delimited_decode enc first).run_eq_ok.mp hrun
      simp only [hrun, Decoder.run_bind] at h
      cases hlater : (decodeAll enc specs).run mid with
      | ok values rest =>
        rw [hlater] at h
        cases h
      | fault cause' rest =>
        rw [hlater] at h
        cases h
        obtain ⟨before, spec, after, parts, rest', rfl, hparts, rfl, hfault⟩ := ih hlater
        refine ⟨first :: before, spec, after, (bytes, value) :: parts, rest', rfl,
          .cons hspells hparts, ?_, hfault⟩
        rw [List.flatMap_cons, List.append_assoc]

end Parts

end Attribute

end Dwarf
