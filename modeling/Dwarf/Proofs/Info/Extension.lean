import Dwarf.Info.Tree
import Dwarf.Proofs.Fallible
import Dwarf.Proofs.Info.Walk
/-!
# Units read with a larger table

A table holds its declarations in the order of its section and finds them by position, so the
same declarations in another order are at other positions. Entries name declarations by code.
Two runs are compared, one with a table and one with a table that has its declarations in any
order and perhaps more of them. Each step asks the table for one code, and as long as the first
table has it the second one gives the same declaration. The runs part only at a code that the
first table lacks and the second one has.

> `Entry.walk_extends`: up to such a code both tables give the same entries and faults.
>
> `UnitTree.decode_of_perm`: what a unit is read as depends on the declarations of its table and
> not on their order, nor on declarations that it does not use.
-/

namespace Dwarf

namespace AbbrevTable

variable {t t' : AbbrevTable}

/-- `t'` has every declaration of `t`, wherever it may stand. -/
def Extends (t' t : AbbrevTable) : Prop := ∀ d ∈ t.toList, d ∈ t'.toList

theorem Extends.get? (h : t'.Extends t) {code : Nat} {d : Declaration}
    (hd : t.get? code = some d) : t'.get? code = some d := by
  obtain ⟨hmem, hcode⟩ := get?_eq_some.mp hd
  exact get?_eq_some.mpr ⟨h d hmem, hcode⟩

theorem extends_of_perm {more : List Declaration} (h : t'.toList.Perm (t.toList ++ more)) :
    t'.Extends t := by
  intro d hd
  exact h.mem_iff.mpr (List.mem_append_left more hd)

end AbbrevTable

namespace Entry

variable {enc : Encoding} {t t' : AbbrevTable}

theorem walk_extends (hext : t'.Extends t) {index : Nat} {scopes : List Nat} {c : Cursor}
    (hlacks : ∀ code, (walk enc t index scopes c).fault = some (.unknownCode code) →
      t'.get? code = none) :
    walk enc t' index scopes c = walk enc t index scopes c := by
  fun_induction walk enc t index scopes c with
  | case1 index scopes c hnil hscopes => rw [walk_eq, if_pos hnil, if_pos hscopes]
  | case2 index scopes c hnil hscopes => rw [walk_eq, if_pos hnil, if_neg hscopes]
  | case3 index scopes c hcons cause rest hcode => rw [walk_eq, if_neg hcons, hcode]
  | case4 index c hcons rest hcode =>
    rw [walk_eq, if_neg hcons, hcode]
    rfl
  | case5 index c hcons rest hcode scope outer htrailing =>
    rw [walk_eq, if_neg hcons, hcode]
    simp only [if_pos htrailing]
  | case6 index c hcons rest hcode scope outer htrailing ih =>
    rw [walk_eq, if_neg hcons, hcode]
    simp only [if_neg htrailing]
    exact ih hlacks
  | case7 index scopes c hcons code rest hne hcode hd =>
    rw [walk_eq, if_neg hcons, hcode]
    simp only [hlacks code rfl]
  | case8 index scopes c hcons code rest hne hcode d hd cause rest' hattrs =>
    rw [walk_eq, if_neg hcons, hcode]
    simp only [hext.get? hd, hattrs]
  | case9 index scopes c hcons code rest hne hcode d hd attributes rest' hattrs entry inner ih =>
    rw [walk_eq, if_neg hcons, hcode]
    simp only [hext.get? hd, hattrs]
    rw [← ih hlacks]
    rfl

theorem all_extends (hext : t'.Extends t) {h : UnitHeader}
    (hlacks : ∀ code, (all h t).fault = some (.unknownCode code) → t'.get? code = none) :
    all h t' = all h t :=
  walk_extends hext hlacks

end Entry

namespace UnitTree

variable {abbrevs abbrevs' : Bytes} {h : UnitHeader} {t t' : AbbrevTable} {n n' : Nat}

/-- Once the table is read, only the entries are left to be. -/
theorem decode_of_table (htable : AbbrevTable.atOffset abbrevs h.fields.abbrevOffset = .ok (t, n)) :
    decode abbrevs h = (Entry.all h t).complete.map fun entries => ⟨h, t, entries.toArray⟩ := by
  rw [decode, htable]
  show (Entry.all h t).complete.bind _ = _
  cases (Entry.all h t).complete <;> rfl

/-- **Only the declarations of a table matter, not their order.** Of two tables let the second
have the declarations of the first in any order, and any others. A unit that can be read with the
first is read with the second as the same header with the same entries. A unit that fails with
the first fails with the second in the same way, unless it fails for a code that the first table
lacks and the second has. -/
theorem decode_of_perm {more : List Declaration}
    (htable : AbbrevTable.atOffset abbrevs h.fields.abbrevOffset = .ok (t, n))
    (htable' : AbbrevTable.atOffset abbrevs' h.fields.abbrevOffset = .ok (t', n'))
    (hperm : t'.toList.Perm (t.toList ++ more)) :
    (∀ u, decode abbrevs h = .ok u → decode abbrevs' h = .ok { u with table := t' }) ∧
    ∀ cause, decode abbrevs h = .error cause →
      (∀ code, cause = .unknownCode code → t'.get? code = none) →
      decode abbrevs' h = .error cause := by
  have hext := AbbrevTable.extends_of_perm hperm
  rw [decode_of_table htable, decode_of_table htable']
  constructor
  · intro u hu
    cases hall : (Entry.all h t).complete with
    | error cause =>
      rw [hall] at hu
      cases hu
    | ok entries =>
      rw [hall] at hu
      cases hu
      obtain ⟨hdone, -⟩ := Progress.complete_eq_ok.mp hall
      have hsame : Entry.all h t' = Entry.all h t := by
        refine Entry.all_extends hext fun code hfault => ?_
        rw [hdone] at hfault
        cases hfault
      rw [hsame, hall]
      rfl
  · intro cause hcause hlacks
    cases hall : (Entry.all h t).complete with
    | ok entries =>
      rw [hall] at hcause
      cases hcause
    | error cause' =>
      rw [hall] at hcause
      cases hcause
      have hfault := Progress.complete_eq_error.mp hall
      have hsame : Entry.all h t' = Entry.all h t := by
        refine Entry.all_extends hext fun code hunknown => ?_
        rw [hfault] at hunknown
        exact hlacks code (Option.some.inj hunknown)
      rw [hsame, hall]
      rfl

/-- A table of two declarations. -/
def twoDeclarations : Bytes := [1, 0x11, 0, 3, 0x0b, 0, 0, 2, 0x24, 1, 0, 0, 0]

/-- The same two declarations the other way round, and a third between them. -/
def threeDeclarations : Bytes := [2, 0x24, 1, 0, 0, 9, 0x2e, 0, 0, 0, 1, 0x11, 0, 3, 0x0b, 0, 0, 0]

/-- The header of a unit with these entries, whose table is at the start of its section. -/
def headerOf (entries : Bytes) : UnitHeader where
  offset := 0
  length := 7 + entries.length
  format := .dwarf32
  order := .little
  fields := { version := 4, addressSize := 8, abbrevOffset := 0, kind := .compilation }
  headerSize := 11
  entries

/-- Two roots, of which the second has a child, and a unit that breaks off in its second entry. -/
theorem decode_of_perm_threeDeclarations :
    (∃ u u', decode twoDeclarations (headerOf [1, 5, 2, 1, 6, 0]) = .ok u ∧
      decode threeDeclarations (headerOf [1, 5, 2, 1, 6, 0]) = .ok u' ∧
      u'.entries = u.entries ∧ u.entries.size = 3) ∧
    decode twoDeclarations (headerOf [1, 5, 1]) = .error .unexpectedEnd ∧
    decode threeDeclarations (headerOf [1, 5, 1]) = .error .unexpectedEnd := by
  have htwo : (AbbrevTable.atOffset twoDeclarations 0).toOption.map (·.1.toList) =
      some [⟨1, 0x11, false, [⟨3, 0x0b, none⟩]⟩, ⟨2, 0x24, true, []⟩] := by
    decide +kernel
  have hthree : (AbbrevTable.atOffset threeDeclarations 0).toOption.map (·.1.toList) =
      some [⟨2, 0x24, true, []⟩, ⟨9, 0x2e, false, []⟩, ⟨1, 0x11, false, [⟨3, 0x0b, none⟩]⟩] := by
    decide +kernel
  obtain ⟨⟨t, n⟩, htable, hlist⟩ := Fallible.exists_of_map htwo
  obtain ⟨⟨t', n'⟩, htable', hlist'⟩ := Fallible.exists_of_map hthree
  have hperm : t'.toList.Perm (t.toList ++ [⟨9, 0x2e, false, []⟩]) := by
    rw [hlist, hlist']
    decide
  have hsize : (decode twoDeclarations (headerOf [1, 5, 2, 1, 6, 0])).toOption.map
      (·.entries.size) = some 3 := by
    decide +kernel
  obtain ⟨u, hu, hthree⟩ := Fallible.exists_of_map hsize
  have hfault : decode twoDeclarations (headerOf [1, 5, 1]) = .error .unexpectedEnd :=
    Fallible.fault?_eq_some.mp (by decide +kernel)
  obtain ⟨hread, -⟩ := @decode_of_perm _ _ (headerOf [1, 5, 2, 1, 6, 0]) _ _ _ _ _ htable htable' hperm
  obtain ⟨-, hfails⟩ := @decode_of_perm _ _ (headerOf [1, 5, 1]) _ _ _ _ _ htable htable' hperm
  exact ⟨⟨u, _, hu, hread u hu, rfl, hthree⟩, hfault, hfails _ hfault nofun⟩

end UnitTree

end Dwarf
