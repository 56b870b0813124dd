import Dwarf.Proofs.Abbrev.Table
import Dwarf.Proofs.Attribute.Delimited
/-!
# A value that is cut off is noticed

A section may end anywhere, also in the middle of a value. What is left of the value must
then not be taken for another value, nor for a fault in the bytes: the bytes are fine, there
are too few of them. So a reader of a stream may wait for more bytes on `unexpectedEnd`, and
only on that.

> `Decoder.Delimited.selfDelimiting`: every delimited decoder reports a lack of bytes at each
> place where its value can be cut.

Nothing is to be shown for the single forms and fields. If a run on part of a value ended in
any other way it would, being delimited, end in the same way on the whole value.
-/

namespace Dwarf

namespace Decoder

variable {α : Type} {d : Decoder α}

/-- The bytes of a value tell where it ends. -/
structure SelfDelimiting (d : Decoder α) : Prop where
  /-- A run takes the same bytes for the same value whatever follows them, and no less of them
  is any value, or any fault but a lack of bytes. -/
  ok : ∀ {bs rest : Bytes} {value : α}, d.run bs = .ok value rest → ∃ head, bs = head ++ rest ∧
    (∀ tail, d.run (head ++ tail) = .ok value tail) ∧
    ∀ short, short <+: head → short ≠ head → d.value short = .error .unexpectedEnd
  /-- Every other fault stays as it is when more bytes follow. -/
  fault : ∀ {bs : Bytes} {cause : Fault}, d.value bs = .error cause → cause ≠ .unexpectedEnd →
    ∀ tail, d.value (bs ++ tail) = .error cause

/-- Where bytes are missing from a value, a run says so. -/
theorem Delimited.value_of_cut (hd : Delimited d) {short missing : Bytes} {value : α}
    (hmissing : missing ≠ []) (h : d.Spells (short ++ missing) value) :
    d.value short = .error .unexpectedEnd := by
  cases hshort : d.run short with
  | ok other rest =>
    -- The whole value would then be read as `other`, with the missing bytes left over.
    obtain ⟨head, rfl, hrun⟩ := hd.ok hshort
    have hother := hrun (rest ++ missing)
    rw [← List.append_assoc, h] at hother
    injection hother with hvalue hnil
    exact absurd (List.append_eq_nil_iff.mp hnil.symm).2 hmissing
  | fault cause rest =>
    by_cases hcause : cause = .unexpectedEnd
    · rw [Decoder.value, hshort, hcause]
      rfl
    · have hfault := hd.fault hshort hcause missing
      rw [h] at hfault
      cases hfault

theorem Delimited.selfDelimiting (hd : Delimited d) : SelfDelimiting d where
  ok {bs rest value} h := by
    obtain ⟨head, rfl, hspells⟩ := hd.run_eq_ok.mp h
    refine ⟨head, rfl, hspells.run hd, ?_⟩
    intro short hprefix hne
    obtain ⟨missing, rfl⟩ := hprefix
    have hmissing : missing ≠ [] := by
      intro hnil
      rw [hnil, List.append_nil] at hne
      exact hne rfl
    exact hd.value_of_cut hmissing hspells
  fault {bs cause} h hcause tail := by
    obtain ⟨rest, hrun⟩ := value_eq_error.mp h
    exact value_eq_error.mpr ⟨rest ++ tail, hd.fault hrun hcause tail⟩

end Decoder

/-- **Attributes and tables end where their own bytes say, and truncation is detected.** An
attribute of any form and encoding, and a table of abbreviations, is read from its own bytes
whatever follows them, and from no beginning of these: wherever they are cut, reading ends
for want of bytes. A fault in the bytes is the same however they go on. -/
theorem truncation_detected :
    (∀ (enc : Encoding) (spec : AttrSpec), (Attribute.decode enc spec).SelfDelimiting) ∧
      AbbrevTable.decode.SelfDelimiting :=
  ⟨fun enc spec => (Attribute.delimited_decode enc spec).selfDelimiting,
    AbbrevTable.delimited_decode.selfDelimiting⟩

/-- A form that the entry gives, in two bytes, and then half of a two-byte constant. -/
example : (Attribute.decode ⟨.little, 8, .dwarf32, 4⟩ ⟨3, Form.indirectCode, none⟩).run
    [0x85, 0, 1] = .fault .unexpectedEnd [1] := by decide +kernel

end Dwarf
