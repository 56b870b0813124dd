import Dwarf.Proofs.Abbrev.Table
import Dwarf.Proofs.Bytes.Concatenation
import Dwarf.Proofs.Bytes.Tiling
/-!
# The tables of a section

A section of tables has no index. Where a table ends is known once it has been read, and the
next one is read from there, so if one table were taken to be a byte longer than it is, all
tables behind it would be spoiled. Two things keep the tables apart. The size that `atOffset`
tells is the distance to the byte behind the closing zero, padded or not, and no table has size
zero. And a table does not depend on what stands behind its closing zero.

> `AbbrevTable.endToEnd_of_tiled`: what a run reads is what the section has at each offset, and
> each table starts where the one before ends.
>
> `AbbrevTable.tables_tile`: the tables fill their section up to its end or to the first one
> that cannot be read, and two sections end to end have the tables of both.
-/

namespace Dwarf

namespace AbbrevTable

variable {contents : Bytes} {ts : List (Nat × AbbrevTable)} {start stop : Nat}

/-- The tables in `ts` follow each other from the first offset up to the second: the section has
each of them at its offset, and the one behind it starts as many bytes on as it takes. -/
inductive EndToEnd (contents : Bytes) : Nat → List (Nat × AbbrevTable) → Nat → Prop where
  | nil {offset : Nat} : EndToEnd contents offset [] offset
  | cons {offset size stop : Nat} {t : AbbrevTable} {ts : List (Nat × AbbrevTable)}
    (here : atOffset contents offset = .ok (t, size)) (pos : 1 ≤ size)
    (later : EndToEnd contents (offset + size) ts stop) :
    EndToEnd contents offset ((offset, t) :: ts) stop

/-- The same table in a place further on. -/
def shift (distance : Nat) (found : Nat × AbbrevTable) : Nat × AbbrevTable :=
  (found.1 + distance, found.2)

theorem forward_item : item.Forward := fun _ => forward_decode.bind fun _ => .pure _

theorem moves_item : item.Moves shift := by
  intro distance offset
  simp only [item, map_bind, map_pure, shift]

theorem keeps_item : item.Keeps := by
  intro offset bs rest found hrun tail
  have hdelimited : (item.decode offset).Delimited := delimited_decode.bind fun _ => .pure _
  obtain ⟨head, rfl, hhead⟩ := hdelimited.ok hrun
  rw [List.append_assoc]
  exact hhead (rest ++ tail)

/-! ### A table as an item and as what the section has at an offset -/

theorem atOffset_of_item {offset next : Nat} {found : Nat × AbbrevTable}
    (hrun : (item.decode offset).run (contents.drop offset) = .ok found (contents.drop next))
    (hlt : offset < next) (hnext : next ≤ contents.length) :
    found.1 = offset ∧ atOffset contents offset = .ok (found.2, next - offset) := by
  obtain ⟨t, rest, htable, hfound⟩ := Decoder.run_bind_eq_ok.mp hrun
  cases hfound
  refine ⟨rfl, ?_⟩
  have hsize : contents.length - offset - (contents.length - next) = next - offset := by omega
  rw [atOffset, if_neg (by omega)]
  simp only [htable, List.length_drop, hsize]

theorem atOffset_of_item_fault {offset : Nat} {cause : Fault} {rest : Bytes}
    (hrun : (item.decode offset).run (contents.drop offset) = .fault cause rest)
    (hin : offset < contents.length) : atOffset contents offset = .error cause := by
  rw [atOffset, if_neg (by omega)]
  cases htable : decode.run (contents.drop offset) with
  | ok t mid =>
    rw [item, Decoder.run_bind, htable] at hrun
    cases hrun
  | fault cause' mid =>
    rw [item, Decoder.run_bind, htable] at hrun
    cases hrun
    simp only [htable]

theorem endToEnd_of_tiled (h : Tiled item contents start ts stop) :
    EndToEnd contents start ts stop := by
  induction h with
  | nil => exact .nil
  | @cons offset next stop found ts hrun hlt hlater ih =>
    have hnext := Nat.le_trans hlater.le_stop hlater.stop_le
    obtain ⟨rfl, hhere⟩ := atOffset_of_item hrun hlt hnext
    have hsum : found.1 + (next - found.1) = next := by omega
    refine .cons hhere (by omega) ?_
    rw [hsum]
    exact ih

/-! ### Whole sections -/

theorem tables_append (hdone : (tables contents).fault = none) (tail : Bytes) :
    tables (contents ++ tail) =
      ((tables tail).map (shift contents.length)).prepend (tables contents).items := by
  have hrun : tables (contents ++ tail) =
      (Cursor.run item ⟨0 + contents.length, tail⟩).prepend (tables contents).items :=
    Cursor.run_append keeps_item hdone tail
  have hshift : Cursor.run item ⟨0 + contents.length, tail⟩ =
      (tables tail).map (shift contents.length) :=
    Cursor.run_shift moves_item (Cursor.atStart tail) contents.length
  rw [hrun, hshift]

/-- **Tables tile their section.** Calls give the tables, then at most one fault, and then
nothing. The first table starts at 0 and every other where the one before ends, and the section
has each of them at its offset. Without a fault the last table ends with the section, and only
an empty section has none; otherwise the fault is the one that the section has where the last
table ends.

If the tables of a section can all be read, then behind it another section has its own tables,
with offsets further on by the length of the first, and ends with its own fault if it has one. -/
theorem tables_tile (contents : Bytes) :
    (∀ k, (Cursor.atStart contents).answer item k = (tables contents).answer k) ∧
    (∃ stop, EndToEnd contents 0 (tables contents).items stop ∧
      ((tables contents).fault = none → stop = contents.length ∧
        ((tables contents).items = [] ↔ contents = [])) ∧
      ∀ cause, (tables contents).fault = some cause → atOffset contents stop = .error cause) ∧
    ((tables contents).fault = none → ∀ tail, tables (contents ++ tail) =
      ((tables tail).map (shift contents.length)).prepend (tables contents).items) := by
  have hstart := Cursor.on_atStart contents
  have htiled : Tiled item contents 0 (tables contents).items
      ((Cursor.atStart contents).stop item).offset := Cursor.tiled_run forward_item hstart
  refine ⟨Cursor.answer_eq item _, ⟨_, endToEnd_of_tiled htiled, ?_, ?_⟩, tables_append⟩
  · intro hdone
    have hend := Cursor.stop_of_done forward_item hstart hdone
    refine ⟨hend, ?_⟩
    rw [htiled.eq_nil_iff, hend, eq_comm, List.length_eq_zero_iff]
  · intro cause hfault
    obtain ⟨hin, rest, hrun⟩ := Cursor.stop_of_fault forward_item hstart hfault
    exact atOffset_of_item_fault hrun hin

/-- A table of one declaration, and a table of none whose closing zero is padded. -/
def twoTables : Bytes := [1, 0x11, 1, 0, 0, 0, 0x80, 0]

/-- A table of none, and the code of a declaration that breaks off. -/
def brokenTables : Bytes := [0, 1]

theorem tables_tile_twoTables :
    (tables twoTables).fault = none ∧
    EndToEnd twoTables 0 (tables twoTables).items 8 ∧
    tables (twoTables ++ brokenTables) =
      ((tables brokenTables).map (shift 8)).prepend (tables twoTables).items ∧
    (tables (twoTables ++ brokenTables)).items.map (fun found => (found.1, found.2.size)) =
      [(0, 1), (6, 0), (8, 0)] ∧
    (tables brokenTables).fault = some .unexpectedEnd ∧
    ∃ stop, EndToEnd brokenTables 0 (tables brokenTables).items stop ∧
      atOffset brokenTables stop = .error .unexpectedEnd := by
  have hdone : (tables twoTables).fault = none := by decide +kernel
  have hfault : (tables brokenTables).fault = some .unexpectedEnd := by decide +kernel
  obtain ⟨-, ⟨stop, hchain, hend, -⟩, happend⟩ := tables_tile twoTables
  obtain ⟨-, ⟨stop', hchain', -, hstopped⟩, -⟩ := tables_tile brokenTables
  obtain ⟨rfl, -⟩ := hend hdone
  exact ⟨hdone, hchain, happend hdone brokenTables, by decide +kernel, hfault, stop', hchain',
    hstopped _ hfault⟩

end AbbrevTable

end Dwarf
