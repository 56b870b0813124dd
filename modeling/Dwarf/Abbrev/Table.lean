import Std.Data.TreeMap
import Dwarf.Abbrev.Declaration
import Dwarf.Bytes.Sequence
/-!
# Abbreviation tables

A table holds declarations in the order in which its section lists them, and
finds one by its code through a map from codes to positions. The map and the
list are in step by construction: that is the field `inStep`, and
`insert?` refuses a code that the table has.

> `get?_eq_some`: looking up a code finds the declaration of the table that has
> it, and there is only one.

Tables lie end to end in their section, each ended by a zero code.
-/

namespace Dwarf

/-- Declarations with distinct codes. -/
structure AbbrevTable where
  /-- The declarations, in the order in which they were inserted. -/
  declarations : Array Declaration
  /-- The position of the declaration with a given code. -/
  positions : Std.TreeMap Nat Nat
  /-- The positions are those of the codes. -/
  inStep : ∀ (code i : Nat),
    positions[code]? = some i ↔ ∃ d : Declaration, declarations[i]? = some d ∧ d.code = code

namespace AbbrevTable

/-- A table without declarations. -/
def empty : AbbrevTable where
  declarations := #[]
  positions := ∅
  inStep := by simp

/-- The declarations in the order of the table. -/
def toList (t : AbbrevTable) : List Declaration := t.declarations.toList

/-- The number of declarations. -/
def size (t : AbbrevTable) : Nat := t.declarations.size

/-- The declaration with this code. -/
def get? (t : AbbrevTable) (code : Nat) : Option Declaration :=
  match t.positions[code]? with
  | none => none
  | some i => t.declarations[i]?

/-- Add a declaration at the end, unless the table has one with its code. -/
def insert? (t : AbbrevTable) (d : Declaration) : Option AbbrevTable :=
  if h : t.positions[d.code]? = none then
    some {
      declarations := t.declarations.push d
      positions := t.positions.insert d.code t.declarations.size
      inStep := by
        intro code i
        rw [Std.TreeMap.getElem?_insert, Array.getElem?_push]
        by_cases hc : d.code = code
        · subst hc
          -- The new code was not in the table, so no old declaration has it.
          have hnot : ∀ (j : Nat) (e : Declaration), t.declarations[j]? = some e → e.code ≠ d.code := by
            intro j e he hcode
            have := (t.inStep d.code j).mpr ⟨e, he, hcode⟩
            rw [h] at this
            cases this
          rw [if_pos (Nat.compare_eq_eq.mpr rfl)]
          constructor
          · intro hi
            injection hi with hi
            exact ⟨d, by rw [if_pos hi.symm], rfl⟩
          · rintro ⟨e, he, hcode⟩
            by_cases hi : i = t.declarations.size
            · rw [hi]
            · rw [if_neg hi] at he
              exact absurd hcode (hnot i e he)
        · have hcmp : compare d.code code ≠ .eq := fun hcmp => hc (Nat.compare_eq_eq.mp hcmp)
          rw [if_neg hcmp, t.inStep code i]
          by_cases hi : i = t.declarations.size
          · subst hi
            simp [hc]
          · rw [if_neg hi] }
  else none

theorem get?_eq_some {t : AbbrevTable} {code : Nat} {d : Declaration} :
    t.get? code = some d ↔ d ∈ t.toList ∧ d.code = code := by
  unfold get? toList
  constructor
  · intro h
    split at h
    · cases h
    · next i hi =>
      obtain ⟨e, he, hcode⟩ := (t.inStep code i).mp hi
      rw [he] at h
      injection h with h
      subst h
      exact ⟨by simpa using Array.mem_of_getElem? he, hcode⟩
  · rintro ⟨hmem, hcode⟩
    obtain ⟨i, hi⟩ := Array.mem_iff_getElem?.mp (by simpa using hmem)
    have hpos := (t.inStep code i).mpr ⟨d, hi, hcode⟩
    rw [hpos]
    exact hi

/-- Read declarations into `t` up to the zero code that ends a table. A code that
is used twice is found when its second declaration has been read. -/
def extend (t : AbbrevTable) (bs : Bytes) : Outcome AbbrevTable :=
  match _h : Declaration.decode.run bs with
  | .fault cause rest => .fault cause rest
  | .ok none rest => .ok t rest
  | .ok (some d) rest =>
    match t.insert? d with
    | none => .fault (.duplicateCode d.code) rest
    | some t => extend t rest
  termination_by bs.length
  decreasing_by exact Declaration.consuming_decode _h

/-- Read one table. -/
def decode : Decoder AbbrevTable := ⟨empty.extend⟩

/-- Write a table: its declarations and a zero code. -/
def encode (ds : List Declaration) : Bytes := ds.flatMap Declaration.encode ++ [0]

theorem extend_shorter (t : AbbrevTable) (bs : Bytes) {t' : AbbrevTable} {rest : Bytes}
    (h : t.extend bs = .ok t' rest) : rest.length < bs.length := by
  fun_induction extend t bs with
  | case1 t bs cause rest' hd => cases h
  | case2 t bs rest' hd =>
    injection h with _ h₂
    subst h₂
    exact Declaration.consuming_decode hd
  | case3 t bs d rest' hd hi => cases h
  | case4 t bs d rest' hd t'' hi ih =>
    exact Nat.lt_trans (ih h) (Declaration.consuming_decode hd)

/-- A table takes at least the zero code at its end. -/
theorem consuming_decode : Decoder.Consuming decode := fun _ _ _ h => extend_shorter empty _ h

/-- Read the table at `offset` in a section, with the number of bytes it takes. -/
def atOffset (contents : Bytes) (offset : Nat) : Except Fault (AbbrevTable × Nat) :=
  if contents.length < offset then .error .offsetBounds
  else
    let bs := contents.drop offset
    match decode.run bs with
    | .ok t rest => .ok (t, bs.length - rest.length)
    | .fault cause _ => .error cause

/-- A table as an item of its section, with its offset. -/
def item : Item (Nat × AbbrevTable) where
  decode offset := do
    let t ← decode
    return (offset, t)
  consuming _ := consuming_decode.bind fun _ => .pure _

/-- The tables of a section with their offsets, from its start on. -/
def tables (contents : Bytes) : Progress (Nat × AbbrevTable) :=
  (Cursor.atStart contents).run item

/-- The declarations that reading a table into `t` gets to see: all up to the end
of the table, the first fault, or the first code used twice. -/
def seen (t : AbbrevTable) (bs : Bytes) : List Declaration :=
  match _h : Declaration.decode.run bs with
  | .ok (some d) rest =>
    d :: match t.insert? d with
      | none => []
      | some t => seen t rest
  | _ => []
  termination_by bs.length
  decreasing_by exact Declaration.consuming_decode _h

end AbbrevTable

end Dwarf
