import Dwarf.Proofs.Machine.Unit
/-!
# Entries in the operations of a machine

The position of an entry is that of the first one and the distance between the slice that is
left and the slice of all entries. Both slices end where the unit ends, so the distance is that
of their lengths. A cursor adds up what was taken instead, and `entriesFrom_eq` shows that it
comes to the same.

> `unit_eq` and `units_eq`: the units of a section are read without a trap.
>
> `children_eq`, `entryAt_eq`, `referent_eq`: no index leaves the entries of a unit.
-/

namespace Dwarf

namespace Machine

open Reader

variable {limit : Nat}

/-! ### Entries -/

/-- The entry at a position, or `none` for the zero code that ends a list of children. -/
def entryOf (enc : Encoding) (table : AbbrevTable) (offset : Nat) (scopes : List Nat) :
    Reader (Option Entry) := do
  let code ← unsigned
  if code = 0 then return none
  else
    let found ← lift (lookup table code)
    match found with
    | none => fail (.unknownCode code)
    | some d =>
      let attributes ← attributesOf enc d.attributes
      return some {
        offset
        depth := scopes.length
        code
        tag := d.tag
        hasChildren := d.hasChildren
        parent := scopes.head?
        attributes }

/-- The entries of a unit from the one with this index on, where `bs` is left of them. The first
entry of the unit is at `start`. -/
def entriesFrom (h : UnitHeader) (table : AbbrevTable) (start index : Nat) (scopes : List Nat)
    (bs : Bytes) : Except Trap (Progress Entry) :=
  if bs.isEmpty then
    return if scopes.isEmpty then .done else .stop (.openScopes scopes.length)
  else do
    let distance ← sub h.entries.length bs.length
    let offset ← add start distance
    match ← (entryOf h.encoding table offset scopes).run bs with
    | .fault cause _ => return .stop cause
    | .ok none rest =>
      match scopes with
      | [] => return .stop .nullWithoutScope
      | _ :: outer =>
        if outer.isEmpty && !rest.isEmpty then return .stop .trailingEntries
        else if _h : rest.length < bs.length then entriesFrom h table start index outer rest
        else throw .standstill
    | .ok (some e) rest =>
      if _h : rest.length < bs.length then do
        let inner := if e.hasChildren then index :: scopes else scopes
        let later ← entriesFrom h table start (index + 1) inner rest
        return later.cons e
      else throw .standstill
  termination_by bs.length

/-- A unit with its table and its entries. -/
def unit (abbrevs : Bytes) (h : UnitHeader) : Except Trap (Except Fault UnitTree) := do
  match ← tableAt abbrevs h.fields.abbrevOffset with
  | .error cause => return .error cause
  | .ok (table, _) =>
    let start ← add h.offset h.headerSize
    let entries ← entriesFrom h table start 0 [] h.entries
    return entries.complete.map fun entries => { header := h, table, entries := entries.toArray }

/-- The units from a cursor on, or the first fault in any of them. -/
def unitsFrom (s : Sections) (c : Cursor) : Except Trap (Except Fault (List UnitTree)) := do
  match ← nextUnit s.order c with
  | (.error cause, _) => return .error cause
  | (.ok none, _) => return .ok []
  | (.ok (some h), later) =>
    match ← unit s.abbrevs h with
    | .error cause => return .error cause
    | .ok u =>
      if _h : later.rest.length < c.rest.length then do
        let others ← unitsFrom s later
        return others.map (u :: ·)
      else throw .standstill
  termination_by c.rest.length

/-- All units of a section, or the first fault in any of them. -/
def units (s : Sections) : Except Trap (Except Fault (List UnitTree)) :=
  unitsFrom s (.atStart s.info)

/-! ### Indices of entries -/

/-- The indices of the entries that the entry at `index` encloses most closely. -/
def children (u : UnitTree) (index : Nat) : Except Trap (List Nat) := do
  let next ← add index 1
  let others ← behind (List.range u.entries.size) (min next u.entries.size)
  let below := others.takeWhile fun i => u.depthAt index < u.depthAt i
  return below.filter fun i => u.parentAt i == some index

/-- The entry that starts at an offset of the section, at the index at which it was found. -/
def entryAt (u : UnitTree) (offset : Nat) : Except Trap (Option Entry) :=
  match u.indexAt? offset with
  | none => return none
  | some index => do
    let e ← element u.entries index
    return some e

/-- The entry of this unit that a reference points at. The sum of a reference within the unit is
checked, and no entry is found if it is no word. -/
def referent (u : UnitTree) : Value → Except Trap (Option Entry)
  | .unitRef distance =>
    match add u.header.offset distance with
    | .ok offset => entryAt u offset
    | .error _ => return none
  | .infoRef offset => entryAt u offset
  | _ => return none

/-! ### No traps -/

theorem computes_entryOf (enc : Encoding) (table : AbbrevTable) (offset : Nat) (scopes : List Nat) :
    (entryOf enc table offset scopes).Computes limit (Entry.decode enc table offset scopes) := by
  refine computes_unsigned.bind Decoder.forward_unsigned fun code => ?_
  refine .ite (fun _ => computes_pure _) fun _ => .lift_bind (lookup_eq table code) ?_
  cases table.get? code with
  | none => exact computes_fail _
  | some d =>
    exact (computes_attributesOf enc d.attributes).bind
      (Attribute.forward_decodeAll enc d.attributes) fun _ => computes_pure _

/-- One step of the loop, as long as what is left is no more than the entries of the unit. -/
theorem entriesFrom_step {h : UnitHeader} {start : Nat}
    (hstart : start + h.entries.length ≤ maxLength) (table : AbbrevTable) (index : Nat)
    (scopes : List Nat) {bs : Bytes} (hlen : bs.length ≤ h.entries.length) :
    entriesFrom h table start index scopes bs =
      if bs.isEmpty then
        .ok (if scopes.isEmpty then .done else .stop (.openScopes scopes.length))
      else match (Entry.decode h.encoding table (start + (h.entries.length - bs.length)) scopes).run
          bs with
        | .fault cause _ => .ok (.stop cause)
        | .ok none rest =>
          match scopes with
          | [] => .ok (.stop .nullWithoutScope)
          | _ :: outer =>
            if outer.isEmpty && !rest.isEmpty then .ok (.stop .trailingEntries)
            else entriesFrom h table start index outer rest
        | .ok (some e) rest =>
          (entriesFrom h table start (index + 1) (if e.hasChildren then index :: scopes else scopes)
            rest).map (.cons e) := by
  have hadd : add start (h.entries.length - bs.length) =
      .ok (start + (h.entries.length - bs.length)) :=
    add_eq (by unfold maxLength at hstart; omega)
  rw [entriesFrom]
  by_cases hnil : bs.isEmpty = true
  · rw [if_pos hnil, if_pos hnil]
    rfl
  · rw [if_neg hnil, if_neg hnil, sub_eq hlen]
    simp only [bind, Except.bind, hadd,
      computes_entryOf h.encoding table _ scopes bs (Nat.le_refl _)]
    cases hrun : (Entry.decode h.encoding table (start + (h.entries.length - bs.length)) scopes).run
        bs with
    | fault cause rest => rfl
    | ok found rest =>
      have hless := Entry.consuming_decode _ _ _ _ hrun
      cases found with
      | none =>
        cases scopes with
        | nil => rfl
        | cons scope outer =>
          simp only [dif_pos hless]
          rfl
      | some e =>
        simp only [dif_pos hless]
        cases entriesFrom h table start (index + 1) _ rest <;> rfl

/-- The invariant of the loop: the cursor of the walk is as far on as what is left is shorter than
the entries of the unit. -/
theorem entriesFrom_eq {h : UnitHeader} {start : Nat}
    (hstart : start + h.entries.length ≤ maxLength) (table : AbbrevTable) (index : Nat)
    (scopes : List Nat) {bs : Bytes} (hlen : bs.length ≤ h.entries.length) :
    entriesFrom h table start index scopes bs = .ok (Entry.walk h.encoding table index scopes
      ⟨start + (h.entries.length - bs.length), bs⟩) := by
  induction hn : bs.length using Nat.strongRecOn generalizing index scopes bs with
  | ind n ih =>
    subst hn
    rw [entriesFrom_step hstart table index scopes hlen, Entry.walk_eq_decode]
    by_cases hnil : bs.isEmpty = true
    · rw [if_pos hnil, if_pos hnil]
    · rw [if_neg hnil, if_neg hnil]
      cases hrun : (Entry.decode h.encoding table
          (start + (h.entries.length - bs.length)) scopes).run bs with
      | fault cause rest => rfl
      | ok found rest =>
        have hless := Entry.consuming_decode _ _ _ _ hrun
        have hadvance : Cursor.advance ⟨start + (h.entries.length - bs.length), bs⟩ rest =
            ⟨start + (h.entries.length - rest.length), rest⟩ := by
          simp only [Cursor.advance, Cursor.mk.injEq, and_true]
          omega
        cases found with
        | none =>
          cases scopes with
          | nil => rfl
          | cons scope outer =>
            simp only [hadvance, ih rest.length hless index outer (by omega) rfl]
            split <;> rfl
        | some e =>
          simp only [hadvance, ih rest.length hless (index + 1) _ (by omega) rfl]
          rfl

theorem unit_eq (abbrevs : Bytes) {h : UnitHeader} (hh : InMemory h) :
    unit abbrevs h = .ok (UnitTree.decode abbrevs h) := by
  unfold unit UnitTree.decode
  rw [tableAt_eq]
  cases htable : AbbrevTable.atOffset abbrevs h.fields.abbrevOffset with
  | error cause => rfl
  | ok found =>
    obtain ⟨table, taken⟩ := found
    have hstart : h.entriesOffset + h.entries.length ≤ maxLength := hh.endOffset
    show (add h.offset h.headerSize >>= _) = _
    rw [hh.entriesOffset_eq]
    show (entriesFrom h table h.entriesOffset 0 [] h.entries >>= _) = _
    rw [entriesFrom_eq hstart table 0 [] (Nat.le_refl _), Nat.sub_self, Nat.add_zero]
    show Except.ok ((Entry.all h table).complete.map _) = _
    cases hentries : (Entry.all h table).complete <;>
      · simp only [bind, Except.bind, hentries]
        rfl

/-- The units of headers that were read one after another. -/
def treesOf (abbrevs : Bytes) (p : Progress UnitHeader) : Except Fault (List UnitTree) := do
  let units ← p.items.mapM (UnitTree.decode abbrevs)
  match p.fault with
  | none => return units
  | some cause => throw cause

/-- It makes no difference whether a unit is read before or after the headers behind it. -/
theorem treesOf_cons (abbrevs : Bytes) (h : UnitHeader) (p : Progress UnitHeader) :
    treesOf abbrevs (p.cons h) = match UnitTree.decode abbrevs h with
      | .error cause => .error cause
      | .ok u => (treesOf abbrevs p).map (u :: ·) := by
  unfold treesOf Progress.cons
  rw [List.mapM_cons]
  cases UnitTree.decode abbrevs h with
  | error cause => rfl
  | ok u =>
    cases p.items.mapM (UnitTree.decode abbrevs) with
    | error cause => rfl
    | ok others => cases p.fault <;> rfl

theorem unitsFrom_eq (s : Sections) {c : Cursor} (hlen : c.offset + c.rest.length ≤ maxLength) :
    unitsFrom s c = .ok (treesOf s.abbrevs (c.run (UnitHeader.item s.order))) := by
  rw [unitsFrom, nextUnit_eq s.order hlen]
  fun_induction Cursor.run (UnitHeader.item s.order) c with
  | case1 c hnil =>
    rw [Cursor.next_at_end hnil]
    rfl
  | case2 c hcons h rest hrun ih =>
    have hless := UnitHeader.consuming_decode s.order c.offset hrun
    have hnext : c.next (UnitHeader.item s.order) = (.ok (some h), c.advance rest) :=
      Cursor.next_of_ok hrun
    have hlater : (c.advance rest).offset + (c.advance rest).rest.length ≤ maxLength := by
      have hends := c.next_ends_le (UnitHeader.item s.order)
      rw [hnext] at hends
      exact Nat.le_trans hends hlen
    rw [hnext, treesOf_cons]
    simp only [bind, Except.bind, unit_eq s.abbrevs (inMemory_of_decode hrun hlen)]
    cases UnitTree.decode s.abbrevs h with
    | error cause => rfl
    | ok u =>
      have hless' : (c.advance rest).rest.length < c.rest.length := hless
      have hothers := ih hlater
      rw [← nextUnit_eq s.order hlater] at hothers
      simp only [dif_pos hless']
      rw [unitsFrom, hothers]
      rfl
  | case3 c hcons cause rest hrun =>
    rw [Cursor.next_of_fault hcons hrun]
    rfl

theorem units_eq {s : Sections} (hlen : s.info.length ≤ maxLength) :
    units s = .ok (UnitTree.all s) :=
  unitsFrom_eq s (by
    show 0 + s.info.length ≤ maxLength
    omega)

/-- The slice of the entries behind an index starts no later than where the entries end. -/
theorem children_eq (u : UnitTree) {index : Nat} (h : index + 1 < 0x10000000000000000) :
    children u index = .ok (u.children index) := by
  have hslice : behind (List.range u.entries.size) (min (index + 1) u.entries.size) =
      .ok (List.range' (index + 1) (u.entries.size - (index + 1))) := by
    rw [behind_eq (by rw [List.length_range]; omega), List.range_eq_range', List.drop_range']
    congr 1
    by_cases hin : index + 1 ≤ u.entries.size
    · rw [Nat.min_eq_left hin]
      congr 1
      omega
    · rw [Nat.min_eq_right (by omega), Nat.sub_self, Nat.sub_eq_zero_of_le (by omega)]
      rfl
  unfold children UnitTree.children
  rw [add_eq h]
  show (behind (List.range u.entries.size) (min (index + 1) u.entries.size) >>= _) = _
  rw [hslice]
  rfl

/-- The index that bisection finds is one that it has looked at. -/
theorem entryAt_eq (u : UnitTree) (offset : Nat) : entryAt u offset = .ok (u.entryAt? offset) := by
  unfold entryAt UnitTree.entryAt?
  cases hindex : u.indexAt? offset with
  | none => rfl
  | some index =>
    obtain ⟨e, he, -⟩ := UnitTree.bisect_sound hindex
    simp only [element_eq he, Option.bind_some, he]
    rfl

theorem referent_eq (u : UnitTree) (value : Value) :
    referent u value = .ok (u.referent? value) := by
  unfold referent UnitTree.referent? UnitTree.resolve?
  cases value with
  | unitRef distance =>
    by_cases hsum : u.header.offset + distance < 0x10000000000000000
    · simp only [add_eq hsum, if_pos hsum]
      exact entryAt_eq u _
    · simp only [add, if_neg hsum]
      rfl
  | infoRef offset => exact entryAt_eq u offset
  | _ => rfl

end Machine

end Dwarf
