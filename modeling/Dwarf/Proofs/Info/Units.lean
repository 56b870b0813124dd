import Dwarf.Info.Header
import Dwarf.Proofs.Bytes.Delimited
import Dwarf.Proofs.Bytes.Tiling
/-!
# Units tile their section

A header says twice where its unit ends: by its length field, and by the entries
that are left after the header. A third answer is the place that the cursor of the
section moves to. `UnitHeader.Occupies` is the reading of a header in these terms,
and all three agree:

> `UnitHeader.occupies_of_run`: a header that was read says where its unit starts
> and ends, and has just the bytes in between.

With it a run over the section is a tiling of it, in which every unit can be read
again at its own offset.
-/

namespace Dwarf

namespace Decoder

/-- The length field has the size that its format says. -/
theorem initialLength_eq_ok {order : ByteOrder} {length : Nat} {format : Format} {bs rest : Bytes}
    (h : (initialLength order).run bs = .ok (length, format) rest) :
    ∃ head, bs = head ++ rest ∧ head.length = format.initialLengthSize := by
  obtain ⟨short, mid, hshort, hlater⟩ := run_bind_eq_ok.mp h
  obtain ⟨head, rfl, hhead⟩ := (delimited_uint order 4).run_eq_ok.mp hshort
  have hsize := (spells_uint.mp hhead).length
  split at hlater
  · cases hlater
    exact ⟨head, rfl, hsize⟩
  · split at hlater
    · obtain ⟨long, mid', hlong, hlast⟩ := run_bind_eq_ok.mp hlater
      obtain ⟨head', rfl, hhead'⟩ := (delimited_uint order 8).run_eq_ok.mp hlong
      have hsize' := (spells_uint.mp hhead').length
      cases hlast
      refine ⟨head ++ head', (List.append_assoc ..).symm, ?_⟩
      rw [List.length_append, hsize, hsize']
      rfl
    · cases hlater

end Decoder

theorem UnitKind.forward_decode (order : ByteOrder) (format : Format) (code : Nat) :
    (UnitKind.decode order format code).Forward := by
  have hid : ∀ make : Nat → UnitKind, Decoder.Forward (do
      let id ← Decoder.uint order 8
      return make id) :=
    fun _ => (Decoder.forward_uint order 8).bind fun _ => .pure _
  have htype : ∀ make : Nat → Nat → UnitKind, Decoder.Forward (do
      let signature ← Decoder.uint order 8
      let offset ← Decoder.offset order format
      return make signature offset) :=
    fun _ => (Decoder.forward_uint order 8).bind fun _ =>
      (Decoder.forward_offset order format).bind fun _ => .pure _
  unfold UnitKind.decode
  split
  · exact .pure _
  · exact htype _
  · exact .pure _
  · exact hid _
  · exact hid _
  · exact htype _
  · exact .fail _

theorem UnitFields.forward_decodeSizes (order : ByteOrder) (format : Format) (version : Nat) :
    (UnitFields.decodeSizes order format version).Forward := by
  have hoffset := Decoder.forward_offset order format
  exact .ite (Decoder.forward_byte.bind fun _ => Decoder.forward_byte.bind fun _ =>
      hoffset.bind fun _ => .pure _)
    (hoffset.bind fun _ => Decoder.forward_byte.bind fun _ => .pure _)

theorem UnitFields.forward_decode (order : ByteOrder) (format : Format) :
    (UnitFields.decode order format).Forward :=
  (Decoder.forward_uint order 2).bind fun version => .ite (.fail _)
    ((UnitFields.forward_decodeSizes order format version).bind fun _ => .ite (.fail _)
      ((UnitKind.forward_decode order format _).bind fun _ => .pure _))

namespace UnitHeader

open Decoder

theorem forward_item (order : ByteOrder) : (item order).Forward := fun _ =>
  (forward_initialLength order).bind fun _ =>
    ((forward_take _).reporting _).bind fun _ => (forward_within _ _).bind fun _ => .pure _

/-- The bytes of a unit are its header and its entries, and as many as its length says. -/
theorem decode_eq_ok {order : ByteOrder} {offset : Nat} {bs rest : Bytes} {h : UnitHeader}
    (hrun : (decode order offset).run bs = .ok h rest) :
    ∃ head, bs = head ++ (h.entries ++ rest) ∧ head.length = h.headerSize ∧
      h.offset = offset ∧ h.totalLength = h.headerSize + h.entries.length := by
  obtain ⟨⟨length, format⟩, mid, hinit, hafter⟩ := run_bind_eq_ok.mp hrun
  obtain ⟨body, mid', htake, hbody⟩ := run_bind_eq_ok.mp hafter
  obtain ⟨⟨fields, entries⟩, mid'', hfields, hheader⟩ := run_bind_eq_ok.mp hbody
  obtain ⟨field, rfl, hfield⟩ := initialLength_eq_ok hinit
  obtain ⟨rfl, rfl⟩ := take_eq_ok (reporting_eq_ok htake)
  obtain ⟨rfl, hinner⟩ := within_eq_ok hfields
  -- The fields take the front of the body, and the entries are what they leave.
  obtain ⟨front, rfl⟩ := (UnitFields.forward_decode order format).suffix hinner
  cases hheader
  refine ⟨field ++ front, ?_, ?_, rfl, ?_⟩
  · simp only [List.append_assoc]
  · simp only [List.length_append, hfield]
    omega
  · simp only [totalLength, List.length_append]
    omega

/-- The unit of `h` has the bytes of the section from `offset` up to `next`. -/
structure Occupies (info : Bytes) (h : UnitHeader) (offset next : Nat) : Prop where
  starts : h.offset = offset
  ends : h.endOffset = next
  total : h.offset + h.totalLength = next
  entries : h.entries = (info.take next).drop (h.offset + h.headerSize)

variable {order : ByteOrder} {info : Bytes} {h : UnitHeader} {hs : List UnitHeader}

theorem occupies_of_run {offset next : Nat}
    (hrun : (decode order offset).run (info.drop offset) = .ok h (info.drop next))
    (hlt : offset < next) (hnext : next ≤ info.length) : h.Occupies info offset next := by
  obtain ⟨head, hbytes, hhead, rfl, htotal⟩ := decode_eq_ok hrun
  -- Behind the entries is what the section has from `next` on, so they end there.
  have hlength := congrArg List.length hbytes
  simp only [List.length_append, List.length_drop, hhead] at hlength
  have hend : h.offset + h.headerSize + h.entries.length = next := by omega
  have hsize : next - (h.offset + h.headerSize) = h.entries.length := by omega
  constructor
  · rfl
  · exact hend
  · omega
  · rw [List.drop_take, ← List.drop_drop, hbytes, ← hhead, List.drop_left, hhead, hsize,
      List.take_left]

/-- A unit of a tiling lies between those around it, and is found at its own offset. -/
theorem placed_of_tiled {start stop i : Nat} (ht : Tiled (item order) info start hs stop)
    (hi : hs[i]? = some h) : h.Occupies info h.offset h.endOffset ∧ h.endOffset ≤ info.length ∧
      atOffset order info h.offset = .ok h ∧
      Tiled (item order) info h.endOffset (hs.drop (i + 1)) stop := by
  obtain ⟨offset, next, hlt, -, hrun, hlater⟩ := ht.split hi
  have hle := hlater.le_stop
  have hstop := hlater.stop_le
  have hplace := occupies_of_run hrun hlt (by omega)
  obtain ⟨rfl, rfl⟩ : h.offset = offset ∧ h.endOffset = next := ⟨hplace.starts, hplace.ends⟩
  refine ⟨hplace, by omega, ?_, hlater⟩
  have hrun : (decode order h.offset).run (info.drop h.offset) = .ok h (info.drop h.endOffset) := hrun
  rw [atOffset, if_neg (by omega), Decoder.value, hrun]
  rfl

/-- The first unit of a tiling starts where the tiling does. -/
theorem offset_of_tiled {start stop : Nat} (ht : Tiled (item order) info start (h :: hs) stop) :
    h.offset = start := by
  cases ht with
  | cons hrun hlt hlater =>
    have hle := hlater.le_stop
    have hstop := hlater.stop_le
    exact (occupies_of_run hrun hlt (by omega)).starts

/-- Where the last of some units ends, or the start of the section if there is none. -/
def lastEnd (hs : List UnitHeader) : Nat := (hs.getLast?.map endOffset).getD 0

theorem lastEnd_of_tiled {stop : Nat} (ht : Tiled (item order) info 0 hs stop) :
    lastEnd hs = stop := by
  rw [lastEnd]
  cases hlast : hs.getLast? with
  | none =>
    rw [List.getLast?_eq_none_iff] at hlast
    exact (ht.eq_nil_iff.mp hlast)
  | some h =>
    rw [List.getLast?_eq_getElem?] at hlast
    obtain ⟨-, -, -, hlater⟩ := placed_of_tiled ht hlast
    -- No unit is left behind the last one, so the tiling stops where it ends.
    have hnil : hs.drop (hs.length - 1 + 1) = [] := List.drop_of_length_le (by omega)
    rw [hnil] at hlater
    exact hlater.eq_nil_iff.mp rfl

/-- **Units tile their section.** Calls give the units, then at most one fault, and then
nothing. The first unit starts at 0 and every other where the one before ends, which
is as far on as its length says; its entries are the bytes after its header up to
there, and it is found again at its offset. Without a fault the units reach the end
of the section, and otherwise the fault is found again where they end. -/
theorem all_tile (order : ByteOrder) (info : Bytes) :
    (∀ k, (Cursor.atStart info).answer (item order) k = (all order info).answer k) ∧
    (∀ h, (all order info).items[0]? = some h → h.offset = 0) ∧
    (∀ (i : Nat) (h h' : UnitHeader), (all order info).items[i]? = some h →
      (all order info).items[i + 1]? = some h' → h'.offset = h.endOffset) ∧
    (∀ h ∈ (all order info).items, h.endOffset = h.offset + h.totalLength ∧
      h.endOffset ≤ info.length ∧
      h.entries = (info.take h.endOffset).drop (h.offset + h.headerSize) ∧
      atOffset order info h.offset = .ok h) ∧
    ((all order info).fault = none → lastEnd (all order info).items = info.length ∧
      ((all order info).items = [] ↔ info = [])) ∧
    ∀ cause, (all order info).fault = some cause →
      atOffset order info (lastEnd (all order info).items) = .error cause := by
  have hf := forward_item order
  have hstart := Cursor.on_atStart info
  have ht : Tiled (item order) info 0 (all order info).items
      ((Cursor.atStart info).stop (item order)).offset := Cursor.tiled_run hf hstart
  have hlast := lastEnd_of_tiled ht
  refine ⟨Cursor.answer_eq (item order) _, ?_, ?_, ?_, ?_, ?_⟩
  · intro h hh
    cases hitems : (all order info).items with
    | nil =>
      rw [hitems] at hh
      cases hh
    | cons first later =>
      rw [hitems] at hh ht
      cases hh
      exact offset_of_tiled ht
  · intro i h h' hi hi'
    obtain ⟨-, -, -, hlater⟩ := placed_of_tiled ht hi
    obtain ⟨hlt, hget⟩ := List.getElem?_eq_some_iff.mp hi'
    rw [List.drop_eq_getElem_cons hlt, hget] at hlater
    exact offset_of_tiled hlater
  · intro h hh
    obtain ⟨i, hi⟩ := List.getElem?_of_mem hh
    obtain ⟨hplace, hinside, hread, -⟩ := placed_of_tiled ht hi
    exact ⟨hplace.total.symm, hinside, hplace.entries, hread⟩
  · intro hdone
    have hstop := Cursor.stop_of_done hf hstart hdone
    refine ⟨hlast.trans hstop, ?_⟩
    rw [ht.eq_nil_iff, hstop, eq_comm, List.length_eq_zero_iff]
  · intro cause hfault
    obtain ⟨hlt, rest, hrun⟩ := Cursor.stop_of_fault hf hstart hfault
    rw [hlast, atOffset, if_neg (by omega), Decoder.value]
    have hrun : (decode order _).run _ = .fault cause rest := hrun
    rw [hrun]
    rfl

/-- A unit of version 4 without entries, and one byte more. -/
def truncatedInfo : Bytes := [7, 0, 0, 0, 4, 0, 0, 0, 0, 0, 8, 1]

theorem all_tile_truncatedInfo :
    (all .little truncatedInfo).items.length = 1 ∧
    (all .little truncatedInfo).fault = some .unexpectedEnd ∧
    lastEnd (all .little truncatedInfo).items = 11 ∧
    atOffset .little truncatedInfo 11 = .error .unexpectedEnd := by
  have hlength : (all .little truncatedInfo).items.length = 1 := by decide +kernel
  have hfault : (all .little truncatedInfo).fault = some .unexpectedEnd := by decide +kernel
  have hlast : lastEnd (all .little truncatedInfo).items = 11 := by decide +kernel
  obtain ⟨-, -, -, -, -, hstopped⟩ := all_tile .little truncatedInfo
  have hagain := hstopped .unexpectedEnd hfault
  rw [hlast] at hagain
  exact ⟨hlength, hfault, hlast, hagain⟩

end UnitHeader

end Dwarf
