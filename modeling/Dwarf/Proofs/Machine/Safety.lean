import Dwarf.Proofs.Machine.Entry
import Dwarf.StringTable
/-!
# No bytes make the library trap

The bytes of the sections may be anything, and so may the offsets that are asked for. Only the
machine itself sets a bound: no slice is longer than `maxLength`. Under this bound alone every
operation of the library comes to an end without a trap, with the value or the fault that its
definition without a machine has.

> `no_traps`: what `Safe` lists holds for all sections that are slices.

For the most part this is what the functions compute one by one. The iterators are the systems
here, which take a step at each call: a step keeps to the invariant of the iterator, and by
`call_eq` so does every number of them.
-/

namespace Dwarf

namespace Machine

/-! ### Strings -/

/-- The string at `offset` in a section of strings. -/
def stringAt (contents : Bytes) (offset : Nat) : Except Trap (Except Fault Bytes) :=
  if contents.length ≤ offset then return .error .offsetBounds
  else do
    let input ← behind contents offset
    let outcome ← Reader.terminated.run input
    return outcome.toExcept

/-- The string under a cursor, and the cursor after it and its zero byte. After a fault nothing
is left. -/
def nextString (c : Cursor) : Except Trap (Except Fault (Option (Nat × Bytes)) × Cursor) :=
  if c.rest.isEmpty then return (.ok none, c)
  else do
    match ← Reader.terminated.run c.rest with
    | .fault cause _ => return (.error cause, { c with rest := [] })
    | .ok text rest =>
      let taken ← add text.length 1
      let offset ← add c.offset taken
      return (.ok (some (c.offset, text)), ⟨offset, rest⟩)

/-- The string that an attribute value holds or refers to. -/
def stringOf (s : Sections) : Value → Except Trap (Except Fault Bytes)
  | .string bytes => return .ok bytes
  | .strRef offset => stringAt s.str offset
  | .lineStrRef offset => stringAt s.lineStr offset
  | _ => return .error .notAString

theorem stringAt_eq (contents : Bytes) (offset : Nat) :
    stringAt contents offset = .ok (Dwarf.stringAt contents offset) := by
  unfold stringAt Dwarf.stringAt
  by_cases hout : contents.length ≤ offset
  · rw [if_pos hout, if_pos hout]
    rfl
  · rw [if_neg hout, if_neg hout, behind_eq (by omega)]
    show (Reader.terminated.run (contents.drop offset) >>= _) = _
    rw [Reader.computes_terminated _ (Nat.le_refl _)]
    rfl

/-- The iterator adds the length of the string and one, which is what was taken. -/
theorem nextString_eq {c : Cursor} (hlen : c.offset + c.rest.length ≤ maxLength) :
    nextString c = .ok (c.next stringItem) := by
  unfold nextString Cursor.next
  by_cases hnil : c.rest.isEmpty = true
  · rw [if_pos hnil, if_pos hnil]
    rfl
  · rw [if_neg hnil, if_neg hnil, Reader.computes_terminated c.rest (Nat.le_refl _)]
    simp only [stringItem, Decoder.run_bind]
    cases hrun : Decoder.terminated.run c.rest with
    | fault cause rest => rfl
    | ok text rest =>
      have htaken : text.length + 1 = c.rest.length - rest.length := by
        rw [(Decoder.terminated_eq_ok hrun).1, List.length_append, List.length_cons]
        omega
      have hadd : add c.offset (text.length + 1) =
          .ok (c.offset + (c.rest.length - rest.length)) := by
        rw [htaken]
        exact add_eq (by unfold maxLength at hlen; omega)
      show (add text.length 1 >>= fun taken => add c.offset taken >>= _) = _
      rw [add_eq (by unfold maxLength at hlen; omega)]
      show (add c.offset (text.length + 1) >>= _) = _
      rw [hadd]
      rfl

theorem stringOf_eq (s : Sections) (value : Value) : stringOf s value = .ok (s.stringOf value) := by
  cases value with
  | strRef offset => exact stringAt_eq s.str offset
  | lineStrRef offset => exact stringAt_eq s.lineStr offset
  | _ => rfl

/-! ### All operations -/

/-- The iterator over the units, or over strings, stands inside a slice. -/
theorem call_of_inside {α : Type} {next : Cursor → Except Trap (Except Fault (Option α) × Cursor)}
    {item : Item α}
    (hnext : ∀ {c : Cursor}, c.offset + c.rest.length ≤ maxLength → next c = .ok (c.next item))
    {contents : Bytes} (hlen : contents.length ≤ maxLength) (count : Nat) :
    call next (.atStart contents) count =
      .ok (((Cursor.atStart contents).run item).answer count) := by
  rw [← Cursor.answer_eq]
  refine call_eq (R := fun c c' => c = c' ∧ c.offset + c.rest.length ≤ maxLength) ?_ ⟨rfl, ?_⟩ count
  · rintro c _ ⟨rfl, hinside⟩
    exact ⟨_, hnext hinside, rfl, Nat.le_trans (c.next_ends_le item) hinside⟩
  · show 0 + contents.length ≤ maxLength
    omega

/-- The sections are slices of memory. -/
structure Addressable (s : Sections) : Prop where
  abbrevs : s.abbrevs.length ≤ maxLength
  info : s.info.length ≤ maxLength
  str : s.str.length ≤ maxLength
  lineStr : s.lineStr.length ≤ maxLength

/-- The header was read in the section of units, at some offset or by the iterator. -/
def HeaderOf (s : Sections) (h : UnitHeader) : Prop :=
  (∃ offset, UnitHeader.atOffset s.order s.info offset = .ok h) ∨
    h ∈ (UnitHeader.all s.order s.info).items

/-- No operation on these sections traps: each gives what its definition without a machine
gives. -/
structure Safe (s : Sections) : Prop where
  /-- The table at an offset. -/
  table : ∀ offset, tableAt s.abbrevs offset = .ok (AbbrevTable.atOffset s.abbrevs offset)
  /-- Each call of the iterator over the tables. -/
  tableCall : ∀ count, call (nextTable s.abbrevs) 0 count =
    .ok ((AbbrevTable.tables s.abbrevs).answer count)
  /-- The header at an offset. -/
  header : ∀ offset, headerAt s.order s.info offset =
    .ok (UnitHeader.atOffset s.order s.info offset)
  /-- Each call of the iterator over the units. -/
  headerCall : ∀ count, call (nextUnit s.order) (.atStart s.info) count =
    .ok ((UnitHeader.all s.order s.info).answer count)
  /-- The length of a unit, and where it ends. -/
  extent : ∀ h, HeaderOf s h → totalLength h = .ok h.totalLength ∧ endOffset h = .ok h.endOffset
  /-- The entries of a unit. -/
  tree : ∀ h, HeaderOf s h → unit s.abbrevs h = .ok (UnitTree.decode s.abbrevs h)
  /-- All units. -/
  trees : units s = .ok (UnitTree.all s)
  /-- The children of an entry, at every index but the greatest word. -/
  childrenOf : ∀ (u : UnitTree) (index : Nat), index < 0xffffffffffffffff →
    children u index = .ok (u.children index)
  /-- The entry at an offset. -/
  entry : ∀ (u : UnitTree) (offset : Nat), entryAt u offset = .ok (u.entryAt? offset)
  /-- The entry that a value refers to. -/
  reference : ∀ (u : UnitTree) (value : Value), referent u value = .ok (u.referent? value)
  /-- The string at an offset, in either section. -/
  string : ∀ contents ∈ [s.str, s.lineStr], ∀ offset,
    stringAt contents offset = .ok (Dwarf.stringAt contents offset)
  /-- Each call of the iterator over the strings. -/
  stringCall : ∀ contents ∈ [s.str, s.lineStr], ∀ count,
    call nextString (.atStart contents) count = .ok ((strings contents).answer count)
  /-- The string of an attribute value. -/
  valueString : ∀ value, stringOf s value = .ok (s.stringOf value)

theorem HeaderOf.inMemory {s : Sections} {h : UnitHeader} (hh : HeaderOf s h)
    (hlen : s.info.length ≤ maxLength) : InMemory h := by
  rcases hh with ⟨offset, hat⟩ | hmem
  · exact inMemory_of_atOffset hlen hat
  · exact inMemory_of_all hlen hmem

/-- **No content of the sections makes the library trap.** If the sections are slices of memory,
then whatever is in them and whatever offset is asked for, tables, headers, units, entries and
strings are read to a value or to a fault: no slice or index leaves its buffer, no integer is
read from too many or too few bytes, no declaration is made with code zero, and no sum or
difference of positions wraps. -/
theorem no_traps {s : Sections} (hs : Addressable s) : Safe s where
  table := tableAt_eq s.abbrevs
  tableCall count := by
    rw [AbbrevTable.tables, ← Cursor.answer_eq]
    exact call_eq (nextTable_eq hs.abbrevs) (.inl ⟨Cursor.on_atStart s.abbrevs, rfl⟩) count
  header := headerAt_eq hs.info
  headerCall := call_of_inside (nextUnit_eq s.order) hs.info
  extent h hh := ⟨(hh.inMemory hs.info).totalLength_eq, (hh.inMemory hs.info).endOffset_eq⟩
  tree h hh := unit_eq s.abbrevs (hh.inMemory hs.info)
  trees := units_eq hs.info
  childrenOf u index hindex := children_eq u (by omega)
  entry := entryAt_eq
  reference := referent_eq
  string contents _ := stringAt_eq contents
  stringCall contents hmem := by
    have hlen : contents.length ≤ maxLength := by
      simp only [List.mem_cons, List.not_mem_nil, or_false] at hmem
      rcases hmem with rfl | rfl
      · exact hs.str
      · exact hs.lineStr
    exact call_of_inside nextString_eq hlen
  valueString := stringOf_eq s

/-- A unit that says it has as many bytes as there are words, less one. -/
def endlessUnit : Sections where
  order := .big
  info := [0xff, 0xff, 0xff, 0xff, 0xff, 0xff, 0xff, 0xff, 0xff, 0xff, 0xff, 0xff, 0, 4]

theorem no_traps_endlessUnit : Safe endlessUnit ∧
    units endlessUnit = .ok (.error (.unitTooLong 0xffffffffffffffff)) ∧
    tableAt endlessUnit.abbrevs 0xffffffffffffffff = .ok (.error .offsetBounds) := by
  have hsafe : Safe endlessUnit := no_traps ⟨by decide, by decide, by decide, by decide⟩
  have hheaders :
      UnitHeader.all .big endlessUnit.info = .stop (.unitTooLong 0xffffffffffffffff) := by
    decide +kernel
  have htrees : UnitTree.all endlessUnit = .error (.unitTooLong 0xffffffffffffffff) := by
    simp only [UnitTree.all, show endlessUnit.order = .big from rfl, hheaders]
    rfl
  exact ⟨hsafe, hsafe.trees.trans (congrArg Except.ok htrees), hsafe.table _⟩

end Machine

end Dwarf
