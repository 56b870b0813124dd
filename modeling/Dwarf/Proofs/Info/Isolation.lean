import Dwarf.Info.Tree
import Dwarf.Proofs.Abbrev.Table
import Dwarf.Proofs.Info.Header
/-!
# What a unit depends on

A header and a table are read from the place where they start to wherever their section
ends, since only reading them tells how long they are. The sections may hold anything
else there, so it has to be shown that nothing else is looked at. Two runs are compared:
one that reads a unit, and one on sections that agree with the first ones on the bytes
of the unit and on the bytes of its table.

> `UnitTree.decode_isolated`: both runs give the same header and the same unit.

The argument is the same for both sections. What was read is spelled by some bytes in
the section (`UnitHeader.atOffset_eq_ok`, `AbbrevTable.atOffset_eq_ok`), a section that
agrees on them has them in the same place (`AgreeOn.split`), and there they spell the
same.
-/

namespace Dwarf

/-- `bs'` reaches as far as `high` and has the bytes of `bs` from `low` up to there. -/
structure AgreeOn (bs bs' : Bytes) (low high : Nat) : Prop where
  inside : high ≤ bs'.length
  same : ∀ k, low ≤ k → k < high → bs'[k]? = bs[k]?

/-- Bytes that two strings agree on stand in both of them, between others. -/
theorem AgreeOn.split {before middle after bs' : Bytes}
    (h : AgreeOn (before ++ (middle ++ after)) bs' before.length (before.length + middle.length)) :
    ∃ before' after', bs' = before' ++ (middle ++ after') ∧ before'.length = before.length := by
  have hinside := h.inside
  have hmiddle : (bs'.drop before.length).take middle.length = middle := by
    apply List.ext_getElem?
    intro k
    rw [List.getElem?_take]
    split
    · next hk =>
      rw [List.getElem?_drop, h.same _ (by omega) (by omega),
        List.getElem?_append_right (by omega), Nat.add_sub_cancel_left,
        List.getElem?_append_left hk]
    · next hk => rw [List.getElem?_eq_none (Nat.not_lt.mp hk)]
  have hdrop : bs'.drop before.length =
      middle ++ (bs'.drop before.length).drop middle.length := by
    calc bs'.drop before.length
      _ = (bs'.drop before.length).take middle.length ++
            (bs'.drop before.length).drop middle.length := (List.take_append_drop ..).symm
      _ = middle ++ (bs'.drop before.length).drop middle.length := by rw [hmiddle]
  refine ⟨bs'.take before.length, (bs'.drop before.length).drop middle.length, ?_, ?_⟩
  · rw [← hdrop, List.take_append_drop]
  · rw [List.length_take]
    omega

/-- A header that is found at an offset is written there, with its entries behind it. -/
theorem UnitHeader.atOffset_eq_ok {order : ByteOrder} {info : Bytes} {offset : Nat}
    {h : UnitHeader} : atOffset order info offset = .ok h ↔
      h.WellFormed order offset ∧ ∃ before after : Bytes,
        info = before ++ ((h.encode ++ h.entries) ++ after) ∧ before.length = offset := by
  unfold atOffset
  constructor
  · intro hfound
    split at hfound
    · cases hfound
    · next hinside =>
      obtain ⟨after, hrun⟩ := Decoder.value_eq_ok.mp hfound
      obtain ⟨hh, hbytes⟩ := run_decode_eq_ok.mp hrun
      rw [← List.append_assoc] at hbytes
      obtain ⟨before, hinfo, hlength⟩ := Decoder.drop_eq_iff.mp ⟨Nat.not_lt.mp hinside, hbytes⟩
      exact ⟨hh, before, after, hinfo, hlength⟩
  · intro hwritten
    obtain ⟨hh, before, after, hinfo, hlength⟩ := hwritten
    obtain ⟨hinside, hbytes⟩ := Decoder.drop_eq_iff.mpr ⟨before, hinfo, hlength⟩
    rw [List.append_assoc] at hbytes
    rw [if_neg (Nat.not_lt.mpr hinside)]
    exact Decoder.value_eq_ok.mpr ⟨after, run_decode_eq_ok.mpr ⟨hh, hbytes⟩⟩

theorem UnitHeader.WellFormed.endOffset {order : ByteOrder} {offset : Nat} {h : UnitHeader}
    (hh : h.WellFormed order offset) : h.endOffset = offset + (h.encode ++ h.entries).length := by
  have hoffset : h.offset = offset := by rw [hh.computed]; rfl
  rw [UnitHeader.endOffset, UnitHeader.entriesOffset, hoffset, hh.headerSize, List.length_append,
    Nat.add_assoc]

/-- A header does not depend on the bytes around its unit. -/
theorem UnitHeader.atOffset_of_agreeOn {order : ByteOrder} {info info' : Bytes} {offset : Nat}
    {h : UnitHeader} (hfound : atOffset order info offset = .ok h)
    (hagree : AgreeOn info info' offset h.endOffset) : atOffset order info' offset = .ok h := by
  obtain ⟨hh, before, after, rfl, rfl⟩ := atOffset_eq_ok.mp hfound
  rw [hh.endOffset] at hagree
  obtain ⟨before', after', hinfo', hlength⟩ := hagree.split
  exact atOffset_eq_ok.mpr ⟨hh, before', after', hinfo', hlength⟩

/-- A table does not depend on the bytes around it. -/
theorem AbbrevTable.atOffset_of_agreeOn {abbrevs abbrevs' : Bytes} {offset n : Nat}
    {t : AbbrevTable} (hfound : atOffset abbrevs offset = .ok (t, n))
    (hagree : AgreeOn abbrevs abbrevs' offset (offset + n)) :
    atOffset abbrevs' offset = .ok (t, n) := by
  obtain ⟨before, bytes, after, rfl, rfl, rfl, hspells⟩ := atOffset_eq_ok.mp hfound
  obtain ⟨before', after', habbrevs', hlength⟩ := hagree.split
  exact atOffset_eq_ok.mpr ⟨before', bytes, after', habbrevs', hlength, rfl, hspells⟩

namespace UnitTree

/-- **Units are isolated.** A unit that was read is read again from any sections that have
the bytes of its unit and of its table in the same places. The bytes of other units and of
other tables make no difference. -/
theorem decode_isolated {order : ByteOrder} {info info' abbrevs abbrevs' : Bytes} {offset n : Nat}
    {h : UnitHeader} {t : AbbrevTable} {u : UnitTree}
    (hheader : UnitHeader.atOffset order info offset = .ok h)
    (htable : AbbrevTable.atOffset abbrevs h.fields.abbrevOffset = .ok (t, n))
    (hunit : decode abbrevs h = .ok u) (hinfo : AgreeOn info info' offset h.endOffset)
    (habbrevs : AgreeOn abbrevs abbrevs' h.fields.abbrevOffset (h.fields.abbrevOffset + n)) :
    UnitHeader.atOffset order info' offset = .ok h ∧ decode abbrevs' h = .ok u := by
  refine ⟨UnitHeader.atOffset_of_agreeOn hheader hinfo, ?_⟩
  -- The entries are read from the header, so of the section only the table matters.
  have htable' := AbbrevTable.atOffset_of_agreeOn htable habbrevs
  rw [decode, htable] at hunit
  rw [decode, htable']
  exact hunit

/-- A unit of version 4 with one entry, behind another unit. -/
def pairedInfo : Bytes :=
  [7, 0, 0, 0, 4, 0, 0, 0, 0, 0, 8] ++ [9, 0, 0, 0, 4, 0, 2, 0, 0, 0, 8, 1, 5]

/-- The same unit between other bytes. -/
def changedInfo : Bytes :=
  [0xff, 0xff, 0xff, 0xff, 0xff, 0xff, 0xff, 0xff, 0xff, 0xff, 0xff] ++
    [9, 0, 0, 0, 4, 0, 2, 0, 0, 0, 8, 1, 5] ++ [0xee]

/-- Its table, behind an empty one. -/
def pairedAbbrevs : Bytes := [0, 0] ++ [1, 0x11, 0, 3, 0x0b, 0, 0, 0] ++ [0]

/-- The same table behind other bytes, at the end of its section. -/
def changedAbbrevs : Bytes := [0xaa, 0xbb] ++ [1, 0x11, 0, 3, 0x0b, 0, 0, 0]

/-- The header of the unit. -/
def pairedHeader : UnitHeader where
  offset := 11
  length := 9
  format := .dwarf32
  order := .little
  fields := { version := 4, addressSize := 8, abbrevOffset := 2, kind := .compilation }
  headerSize := 11
  entries := [1, 5]

theorem decode_isolated_changedInfo : UnitHeader.atOffset .little pairedInfo 11 = .ok pairedHeader ∧
    UnitHeader.atOffset .little changedInfo 11 = .ok pairedHeader ∧
    ∃ u, decode pairedAbbrevs pairedHeader = .ok u ∧ decode changedAbbrevs pairedHeader = .ok u ∧
      u.entries.size = 1 := by
  have hheader : UnitHeader.atOffset .little pairedInfo 11 = .ok pairedHeader := rfl
  have hinfo : AgreeOn pairedInfo changedInfo 11 pairedHeader.endOffset := by
    refine ⟨by decide, fun k hlow hhigh => ?_⟩
    have hall : ∀ k, k < 24 → 11 ≤ k → changedInfo[k]? = pairedInfo[k]? := by decide
    exact hall k hhigh hlow
  have habbrevs : AgreeOn pairedAbbrevs changedAbbrevs 2 (2 + 8) := by
    refine ⟨by decide, fun k hlow hhigh => ?_⟩
    have hall : ∀ k, k < 10 → 2 ≤ k → changedAbbrevs[k]? = pairedAbbrevs[k]? := by decide
    exact hall k hhigh hlow
  have htaken : (AbbrevTable.atOffset pairedAbbrevs 2).toOption.map (·.2) = some 8 := by
    decide +kernel
  have hsize : (decode pairedAbbrevs pairedHeader).toOption.map (·.entries.size) = some 1 := by
    decide +kernel
  obtain ⟨⟨t, n⟩, htable, rfl⟩ := Fallible.exists_of_map htaken
  obtain ⟨u, hunit, hone⟩ := Fallible.exists_of_map hsize
  obtain ⟨hheader', hunit'⟩ := decode_isolated hheader htable hunit hinfo habbrevs
  exact ⟨hheader, hheader', u, hunit, hunit', hone⟩

end UnitTree

end Dwarf
