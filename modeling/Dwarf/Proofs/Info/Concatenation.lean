import Dwarf.Info.Tree
import Dwarf.Proofs.Fallible
import Dwarf.Proofs.Info.Header
import Dwarf.Proofs.Info.Walk
/-!
# Units of one section behind those of another

The offsets in a unit are of two kinds. Where the unit and its entries start is counted from
the start of the section, and moves with the unit. What attributes refer to is stored in
the bytes, and does not, even if it is an offset into the section of units. `shift` moves
the first and keeps the second, for a header, an entry and a whole unit:

> `UnitHeader.moves_item`, `Entry.walk_shift`, `UnitTree.decode_shift`: a header, a list of
> entries and a unit that are read further on are the same ones, shifted.

So a section that is put behind another one is read as before, but for the shift:

> `UnitTree.all_append`: the units of both sections are those of the first and then those of
> the second, unless the second cannot be read.
-/

namespace Dwarf

namespace UnitHeader

variable {order : ByteOrder}

/-- The header of the same unit in a place further on. -/
def shift (distance : Nat) (h : UnitHeader) : UnitHeader := { h with offset := h.offset + distance }

theorem moves_item (order : ByteOrder) : (item order).Moves shift := by
  intro distance offset
  show decode order (offset + distance) = shift distance <$> decode order offset
  simp only [decode, map_bind, map_pure, shift]

theorem keeps_item (order : ByteOrder) : (item order).Keeps := by
  intro offset bs rest h hrun tail
  obtain ⟨hh, rfl⟩ := run_decode_eq_ok.mp hrun
  refine run_decode_eq_ok.mpr ⟨hh, ?_⟩
  simp only [List.append_assoc]

theorem all_of_append {info : Bytes} (hdone : (all order info).fault = none) (tail : Bytes) :
    all order (info ++ tail) =
      ((all order tail).map (shift info.length)).prepend (all order info).items := by
  have hrun : all order (info ++ tail) =
      (Cursor.run (item order) ⟨0 + info.length, tail⟩).prepend (all order info).items :=
    Cursor.run_append (keeps_item order) hdone tail
  have hshift : Cursor.run (item order) ⟨0 + info.length, tail⟩ =
      (all order tail).map (shift info.length) :=
    Cursor.run_shift (moves_item order) (Cursor.atStart tail) info.length
  rw [hrun, hshift]

end UnitHeader

namespace Entry

/-- The same entry in a place further on. -/
def shift (distance : Nat) (e : Entry) : Entry := { e with offset := e.offset + distance }

theorem walk_shift (enc : Encoding) (table : AbbrevTable) (index : Nat) (scopes : List Nat)
    (c : Cursor) (distance : Nat) :
    walk enc table index scopes (c.shift distance) =
      (walk enc table index scopes c).map (shift distance) := by
  -- Both walks look at the same bytes, so each step of one is a step of the other.
  have hrest : (c.shift distance).rest = c.rest := rfl
  fun_induction walk enc table index scopes c with
  | case1 index scopes c hnil hscopes =>
    rw [walk_eq, hrest, if_pos hnil, if_pos hscopes]
    rfl
  | case2 index scopes c hnil hscopes =>
    rw [walk_eq, hrest, if_pos hnil, if_neg hscopes]
    rfl
  | case3 index scopes c hcons cause rest hcode =>
    rw [walk_eq, hrest, if_neg hcons, hcode]
    rfl
  | case4 index c hcons rest hcode =>
    rw [walk_eq, hrest, if_neg hcons, hcode]
    rfl
  | case5 index c hcons rest hcode scope outer htrailing =>
    rw [walk_eq, hrest, if_neg hcons, hcode]
    simp only [if_pos htrailing]
    rfl
  | case6 index c hcons rest hcode scope outer htrailing ih =>
    rw [walk_eq, hrest, if_neg hcons, hcode]
    simp only [if_neg htrailing, Cursor.advance_shift]
    exact ih rfl
  | case7 index scopes c hcons code rest hne hcode hd =>
    rw [walk_eq, hrest, if_neg hcons, hcode]
    simp only [hd]
    rfl
  | case8 index scopes c hcons code rest hne hcode d hd cause rest' hattrs =>
    rw [walk_eq, hrest, if_neg hcons, hcode]
    simp only [hd, hattrs]
    rfl
  | case9 index scopes c hcons code rest hne hcode d hd attributes rest' hattrs entry inner ih =>
    rw [walk_eq, hrest, if_neg hcons, hcode]
    simp only [hd, hattrs, Cursor.advance_shift, Progress.map_cons]
    rw [← ih rfl]
    rfl

theorem all_shift (h : UnitHeader) (table : AbbrevTable) (distance : Nat) :
    all (h.shift distance) table = (all h table).map (shift distance) := by
  have hstart : (⟨(h.shift distance).entriesOffset, h.entries⟩ : Cursor) =
      (⟨h.entriesOffset, h.entries⟩ : Cursor).shift distance := by
    simp only [UnitHeader.entriesOffset, UnitHeader.shift, Cursor.shift, Nat.add_right_comm]
  rw [all, all, ← walk_shift, ← hstart]
  rfl

end Entry

namespace UnitTree

/-- The same unit in a place further on: its header and its entries start there, and all
else is as it was. -/
def shift (distance : Nat) (u : UnitTree) : UnitTree where
  header := u.header.shift distance
  table := u.table
  entries := u.entries.map (Entry.shift distance)

theorem decode_shift (abbrevs : Bytes) (h : UnitHeader) (distance : Nat) :
    decode abbrevs (h.shift distance) = (decode abbrevs h).map (shift distance) := by
  have hfields : (h.shift distance).fields = h.fields := rfl
  rw [decode, decode, hfields]
  cases AbbrevTable.atOffset abbrevs h.fields.abbrevOffset with
  | error cause => rfl
  | ok found =>
    show (Entry.all (h.shift distance) found.1).complete.bind _ =
      ((Entry.all h found.1).complete.bind _).map _
    rw [Entry.all_shift, Progress.complete_map]
    cases (Entry.all h found.1).complete with
    | error cause => rfl
    | ok entries => simp [Except.map, Except.bind, shift, pure, Except.pure]

theorem all_eq_ok {s : Sections} {us : List UnitTree} : all s = .ok us ↔
    (UnitHeader.all s.order s.info).fault = none ∧
      (UnitHeader.all s.order s.info).items.mapM (decode s.abbrevs) = .ok us := by
  rw [all, Fallible.bind_eq_ok]
  constructor
  · intro h
    obtain ⟨units, hunits, hdone⟩ := h
    split at hdone
    · next hfault =>
      cases hdone
      exact ⟨hfault, hunits⟩
    · cases hdone
  · intro h
    obtain ⟨hfault, hunits⟩ := h
    exact ⟨us, hunits, by rw [hfault]; rfl⟩

/-- **Concatenating sections concatenates units.** If the units of a section can be read,
then the units of that section with another one behind it are its own, and after them those
of the other section, shifted by the length of the first; and where these cannot be read,
the fault is the same one. -/
theorem all_append {s : Sections} {us : List UnitTree} (h : all s = .ok us) (tail : Bytes) :
    all { s with info := s.info ++ tail } =
      (all { s with info := tail }).map fun later => us ++ later.map (shift s.info.length) := by
  obtain ⟨hdone, hunits⟩ := all_eq_ok.mp h
  have hlater := Fallible.mapM_map (fun h => decode_shift s.abbrevs h s.info.length)
    (UnitHeader.all s.order tail).items
  rw [all, all]
  simp only [UnitHeader.all_of_append hdone tail, Progress.prepend, Progress.map, List.mapM_append,
    hunits, hlater]
  cases (UnitHeader.all s.order tail).items.mapM (decode s.abbrevs) with
  | error cause => rfl
  | ok later => cases (UnitHeader.all s.order tail).fault <;> rfl

/-- A unit of version 4 with one entry at 11, which refers to the entry at 11 of the section. -/
def referringUnit : Sections where
  order := .little
  abbrevs := [1, 0x11, 0, 0x49, 0x10, 0, 0, 0]
  info := [12, 0, 0, 0, 4, 0, 0, 0, 0, 0, 8, 1, 11, 0, 0, 0]

theorem all_append_referringUnit :
    ∃ u, all referringUnit = .ok [u] ∧
      u.entries.toList.map (fun e => (e.offset, e.value? 0x49)) = [(11, some (.infoRef 11))] ∧
      all { referringUnit with info := referringUnit.info ++ referringUnit.info } =
        .ok [u, u.shift 16] ∧
      all { referringUnit with info := referringUnit.info ++ [7, 0] } = .error .unexpectedEnd := by
  have hread : (all referringUnit).toOption.map (fun us => us.map fun u =>
      u.entries.toList.map fun e => (e.offset, e.value? 0x49)) = some [[(11, some (.infoRef 11))]] := by
    decide +kernel
  obtain ⟨us, h, hunits⟩ := Fallible.exists_of_map hread
  obtain ⟨u, none, rfl, hu, hnone⟩ := List.map_eq_cons_iff.mp hunits
  obtain rfl := List.map_eq_nil_iff.mp hnone
  have htwice := all_append h referringUnit.info
  have hagain : all { referringUnit with info := referringUnit.info } = .ok [u] := h
  rw [hagain] at htwice
  have hcut := all_append h [7, 0]
  have htail : all { referringUnit with info := [7, 0] } = .error .unexpectedEnd := by
    have hheaders : UnitHeader.all .little [7, 0] = .stop .unexpectedEnd := by decide +kernel
    simp only [all, referringUnit, hheaders]
    rfl
  rw [htail] at hcut
  exact ⟨u, h, hu, htwice, hcut⟩

end UnitTree

end Dwarf
