import Dwarf.Abbrev.Table
import Dwarf.Proofs.Abbrev.Declaration
import Dwarf.Proofs.Fallible
/-!
# The bytes of a table

A table is read by inserting declarations into it one after another, which fails at the
first code that it has already. So what bytes spell is a list of declarations, and the
table is that list if it can all be inserted:

> `AbbrevTable.spells_extend`: reading into a table is reading a list, and inserting it.
>
> `AbbrevTable.exists_insertAll?`: a list can be inserted if no code is used twice.

That no table has a code twice needs no induction over its insertions. It is what
`AbbrevTable.inStep` says of any table (`nodup_codes`).

> `AbbrevTable.atOffset_round_trip`: valid declarations are read back from the bytes of their
> table, and a table that was read from any bytes can be written in no more of them.
-/

namespace Dwarf

open Decoder

namespace AbbrevTable

/-! ### Inserting declarations -/

variable {t t' : AbbrevTable} {d : Declaration} {ds : List Declaration}

theorem getElem?_toList (t : AbbrevTable) (i : Nat) : t.toList[i]? = t.declarations[i]? :=
  Array.getElem?_toList ..

theorem nodup_codes (t : AbbrevTable) : (t.toList.map (·.code)).Nodup := by
  rw [List.Nodup, List.pairwise_map, List.pairwise_iff_getElem]
  intro i j hi hj hlt hcode
  have hget : ∀ k (hk : k < t.toList.length), t.declarations[k]? = some t.toList[k] := by
    intro k hk
    rw [← t.getElem?_toList, List.getElem?_eq_getElem hk]
  -- The code has one position, and both declarations are at it.
  have hfirst := (t.inStep _ i).mpr ⟨_, hget i hi, hcode⟩
  have hsecond := (t.inStep _ j).mpr ⟨_, hget j hj, rfl⟩
  rw [hfirst] at hsecond
  injection hsecond with hij
  omega

theorem toList_of_insert? (h : t.insert? d = some t') : t'.toList = t.toList ++ [d] := by
  rw [insert?] at h
  split at h
  · cases h
    simp [toList]
  · cases h

theorem exists_insert? (h : ∀ e ∈ t.toList, e.code ≠ d.code) : ∃ t', t.insert? d = some t' := by
  have hnone : t.positions[d.code]? = none := by
    cases hpos : t.positions[d.code]? with
    | none => rfl
    | some i =>
      obtain ⟨e, he, hcode⟩ := (t.inStep d.code i).mp hpos
      rw [← getElem?_toList] at he
      exact absurd hcode (h e (List.mem_of_getElem? he))
  rw [insert?, dif_pos hnone]
  exact ⟨_, rfl⟩

/-- Insert declarations one after another, if that can be done with all of them. -/
def insertAll? (t : AbbrevTable) : List Declaration → Option AbbrevTable
  | [] => some t
  | d :: ds =>
    match t.insert? d with
    | none => none
    | some t => t.insertAll? ds

theorem toList_of_insertAll? (h : t.insertAll? ds = some t') : t'.toList = t.toList ++ ds := by
  induction ds generalizing t with
  | nil =>
    cases h
    rw [List.append_nil]
  | cons d ds ih =>
    rw [insertAll?] at h
    split at h
    · cases h
    · next next hnext => rw [ih h, toList_of_insert? hnext, List.append_assoc, List.singleton_append]

theorem exists_insertAll? (h : ((t.toList ++ ds).map (·.code)).Nodup) :
    ∃ t', t.insertAll? ds = some t' := by
  induction ds generalizing t with
  | nil => exact ⟨t, rfl⟩
  | cons d ds ih =>
    have hnew : ∀ e ∈ t.toList, e.code ≠ d.code := by
      rw [List.map_append, List.nodup_append] at h
      intro e he
      exact h.2.2 e.code (List.mem_map_of_mem he) d.code (List.mem_cons_self ..)
    obtain ⟨next, hnext⟩ := exists_insert? hnew
    obtain ⟨t', ht'⟩ := @ih next (by rwa [toList_of_insert? hnext, List.append_assoc])
    refine ⟨t', ?_⟩
    rw [insertAll?, hnext]
    exact ht'

/-! ### Reading a table -/

theorem extend_stop {bs rest : Bytes} (h : Declaration.decode.run bs = .ok none rest) :
    t.extend bs = .ok t rest := by
  rw [extend]
  split <;> rename_i hrun <;> rw [h] at hrun <;> cases hrun
  rfl

theorem extend_item {bs mid : Bytes} (h : Declaration.decode.run bs = .ok (some d) mid) :
    t.extend bs = match t.insert? d with
      | none => .fault (.duplicateCode d.code) mid
      | some t => t.extend mid := by
  rw [extend]
  split <;> rename_i hrun <;> rw [h] at hrun <;> cases hrun
  rfl

theorem extend_fault {bs rest : Bytes} {cause : Fault}
    (h : Declaration.decode.run bs = .fault cause rest) : t.extend bs = .fault cause rest := by
  rw [extend]
  split <;> rename_i hrun <;> rw [h] at hrun <;> cases hrun
  rfl

theorem delimited_extend (t : AbbrevTable) : Delimited ⟨t.extend⟩ where
  ok {bs rest t'} h := by
    replace h : t.extend bs = .ok t' rest := h
    show ∃ head, bs = head ++ rest ∧ ∀ tail, t.extend (head ++ tail) = .ok t' tail
    fun_induction extend t bs with
    | case1 t bs cause rest' hfirst => cases h
    | case2 t bs rest' hfirst =>
      cases h
      obtain ⟨mark, rfl, hmark⟩ := Declaration.delimited_decode.ok hfirst
      exact ⟨mark, rfl, fun tail => extend_stop (hmark tail)⟩
    | case3 t bs d mid hfirst hinsert => cases h
    | case4 t bs d mid hfirst next hinsert ih =>
      obtain ⟨first, rfl, hrun⟩ := Declaration.delimited_decode.ok hfirst
      obtain ⟨head, rfl, hhead⟩ := ih h
      refine ⟨first ++ head, (List.append_assoc ..).symm, fun tail => ?_⟩
      rw [List.append_assoc, extend_item (hrun _), hinsert]
      exact hhead tail
  fault {bs rest cause} h hcause tail := by
    replace h : t.extend bs = .fault cause rest := h
    show t.extend (bs ++ tail) = .fault cause (rest ++ tail)
    fun_induction extend t bs with
    | case1 t bs cause' rest' hfirst =>
      cases h
      exact extend_fault (Declaration.delimited_decode.fault hfirst hcause tail)
    | case2 t bs rest' hfirst => cases h
    | case3 t bs d mid hfirst hinsert =>
      cases h
      obtain ⟨first, rfl, hrun⟩ := Declaration.delimited_decode.ok hfirst
      rw [List.append_assoc, extend_item (hrun _), hinsert]
    | case4 t bs d mid hfirst next hinsert ih =>
      obtain ⟨first, rfl, hrun⟩ := Declaration.delimited_decode.ok hfirst
      rw [List.append_assoc, extend_item (hrun _), hinsert]
      exact ih h

theorem delimited_decode : Delimited decode := delimited_extend empty

theorem forward_decode : Forward decode := by
  intro bs
  show (empty.extend bs).rest <:+ bs
  generalize empty = t
  have hd := Declaration.forward_decode bs
  fun_induction extend t bs with
  | case1 t bs cause rest h => rwa [h] at hd
  | case2 t bs rest h => rwa [h] at hd
  | case3 t bs d rest h hinsert => rwa [h] at hd
  | case4 t bs d rest h t' hinsert ih =>
    rw [h] at hd
    exact (ih (Declaration.forward_decode rest)).trans hd

theorem spells_extend {bytes : Bytes} : (⟨t.extend⟩ : Decoder AbbrevTable).Spells bytes t' ↔
    ∃ ds, Listed Declaration.decode bytes ds ∧ t.insertAll? ds = some t' := by
  constructor
  · intro h
    replace h : t.extend bytes = .ok t' [] := h
    fun_induction extend t bytes with
    | case1 t bs cause rest' hfirst => cases h
    | case2 t bs rest' hfirst =>
      cases h
      exact ⟨[], .stop hfirst, rfl⟩
    | case3 t bs d mid hfirst hinsert => cases h
    | case4 t bs d mid hfirst next hinsert ih =>
      obtain ⟨first, rfl, hspells⟩ := Declaration.delimited_decode.run_eq_ok.mp hfirst
      obtain ⟨ds, hlist, hall⟩ := ih h
      refine ⟨d :: ds, .item hspells hlist, ?_⟩
      rw [insertAll?, hinsert]
      exact hall
  · intro h
    obtain ⟨ds, hlist, hall⟩ := h
    show t.extend bytes = .ok t' []
    induction hlist generalizing t with
    | stop hmark =>
      cases hall
      exact extend_stop hmark
    | item first later ih =>
      rw [insertAll?] at hall
      rw [extend_item (first.run Declaration.delimited_decode _)]
      split at hall
      · cases hall
      · next next hnext => rw [ih hall]

/-- The declarations that make up a table: no code is used twice, and each is valid. -/
structure Valid (ds : List Declaration) : Prop where
  distinct : (ds.map (·.code)).Nodup
  each : ∀ d ∈ ds, d.Valid

theorem listed_encode (h : ∀ d ∈ ds, d.Valid) : Listed Declaration.decode (encode ds) ds := by
  refine Declaration.shortest_decode.listed_encode (fun d hd => by cases hd) ?_
  intro d hmem d' hd
  cases hd
  exact h d hmem

theorem spells_encode (h : Valid ds) : ∃ t, t.toList = ds ∧ decode.Spells (encode ds) t := by
  obtain ⟨t, ht⟩ := @exists_insertAll? empty ds h.distinct
  exact ⟨t, toList_of_insertAll? ht, spells_extend.mpr ⟨ds, listed_encode h.each, ht⟩⟩

/-- What was read is valid, and it is read again from no more bytes than before. -/
theorem spells_encode_of_spells {bytes : Bytes} (h : decode.Spells bytes t) :
    Valid t.toList ∧ (encode t.toList).length ≤ bytes.length ∧
      decode.Spells (encode t.toList) t := by
  obtain ⟨ds, hlist, hall⟩ := spells_extend.mp h
  obtain rfl : t.toList = ds := toList_of_insertAll? hall
  have hvalid : Valid t.toList := by
    refine ⟨t.nodup_codes, fun d hmem => ?_⟩
    exact Declaration.shortest_decode.valid_of_listed hlist d hmem d rfl
  refine ⟨hvalid, Declaration.shortest_decode.length_le_of_listed hlist, ?_⟩
  exact spells_extend.mpr ⟨t.toList, listed_encode hvalid.each, hall⟩

/-! ### Tables in their section -/

/-- A table that is found at an offset is spelled by the bytes from there on. -/
theorem atOffset_eq_ok {contents : Bytes} {offset n : Nat} :
    atOffset contents offset = .ok (t, n) ↔ ∃ before bytes after,
      contents = before ++ (bytes ++ after) ∧ before.length = offset ∧ bytes.length = n ∧
        decode.Spells bytes t := by
  unfold atOffset
  constructor
  · intro h
    split at h
    · cases h
    · next hinside =>
      cases hrun : decode.run (contents.drop offset) with
      | fault cause rest =>
        simp only [hrun] at h
        cases h
      | ok found after =>
        simp only [hrun] at h
        cases h
        obtain ⟨bytes, hbytes, hspells⟩ := delimited_decode.run_eq_ok.mp hrun
        obtain ⟨before, hcontents, hlength⟩ := drop_eq_iff.mp ⟨Nat.not_lt.mp hinside, hbytes⟩
        refine ⟨before, bytes, after, hcontents, hlength, ?_, hspells⟩
        rw [hbytes, List.length_append, Nat.add_sub_cancel]
  · intro h
    obtain ⟨before, bytes, after, hcontents, hlength, rfl, hspells⟩ := h
    obtain ⟨hinside, hbytes⟩ := drop_eq_iff.mpr ⟨before, hcontents, hlength⟩
    rw [if_neg (Nat.not_lt.mpr hinside)]
    simp only [hbytes, hspells.run delimited_decode after, List.length_append, Nat.add_sub_cancel]

/-- **Tables round-trip.** Valid declarations are read back in order from the bytes of
their table, wherever these stand, and nothing behind the closing zero is looked at.
And a table that was read, from whatever bytes, is valid and is read again from the
bytes it is written in, which are no more than it took. -/
theorem atOffset_round_trip :
    (∀ ds, Valid ds → ∃ t : AbbrevTable, t.toList = ds ∧ ∀ before after : Bytes,
      atOffset (before ++ encode ds ++ after) before.length = .ok (t, (encode ds).length)) ∧
    ∀ (contents : Bytes) (offset : Nat) (t : AbbrevTable) (n : Nat),
      atOffset contents offset = .ok (t, n) → Valid t.toList ∧
        atOffset (encode t.toList) 0 = .ok (t, (encode t.toList).length) ∧
        (encode t.toList).length ≤ n := by
  constructor
  · intro ds hvalid
    obtain ⟨t, htoList, hspells⟩ := spells_encode hvalid
    refine ⟨t, htoList, fun before after => atOffset_eq_ok.mpr ?_⟩
    exact ⟨before, encode ds, after, List.append_assoc .., rfl, rfl, hspells⟩
  · intro contents offset t n h
    obtain ⟨before, bytes, after, -, -, rfl, hspells⟩ := atOffset_eq_ok.mp h
    obtain ⟨hvalid, hlength, hagain⟩ := spells_encode_of_spells hspells
    refine ⟨hvalid, atOffset_eq_ok.mpr ⟨[], encode t.toList, [], ?_, rfl, rfl, hagain⟩, hlength⟩
    rw [List.nil_append, List.append_nil]

/-- Two declarations, one with a constant below zero and one with the largest numbers. -/
def sampleDeclarations : List Declaration :=
  [{ code := 1, tag := 0x11, hasChildren := true,
     attributes := [{ name := 3, form := 8 }, { name := 0x3c, form := 0x21, const := some (-300) }] },
   { code := 0xffffffffffffffff, tag := 0xffff, hasChildren := false, attributes := [] }]

theorem valid_sampleDeclarations : Valid sampleDeclarations where
  distinct := by decide
  each d hd := by
    simp only [sampleDeclarations, List.mem_cons, List.not_mem_nil, or_false] at hd
    rcases hd with rfl | rfl
    · refine ⟨by decide, by decide, fun spec hspec => ?_⟩
      simp only [List.mem_cons, List.not_mem_nil, or_false] at hspec
      rcases hspec with rfl | rfl
      · exact ⟨by decide, by decide, by decide, fun i hi => by cases hi⟩
      · refine ⟨by decide, by decide, by decide, fun i hi => ?_⟩
        cases hi
        decide
    · exact ⟨by decide, by decide, fun spec hspec => by cases hspec⟩

/-- A table of one declaration in which every number is padded. -/
def paddedTable : Bytes := [0x81, 0, 0x91, 0x80, 0, 1, 0x80, 0, 0, 0x80, 0]

theorem atOffset_round_trip_samples :
    (∃ t : AbbrevTable, t.toList = sampleDeclarations ∧
      atOffset ([0xff] ++ encode sampleDeclarations ++ [0xff]) 1 = .ok (t, 28)) ∧
    ∃ t : AbbrevTable, atOffset paddedTable 0 = .ok (t, 11) ∧ t.toList = [⟨1, 0x11, true, []⟩] ∧
      atOffset [1, 0x11, 1, 0, 0, 0] 0 = .ok (t, 6) := by
  obtain ⟨hwritten, hread⟩ := atOffset_round_trip
  constructor
  · obtain ⟨t, htoList, hall⟩ := hwritten sampleDeclarations valid_sampleDeclarations
    have hlength : (encode sampleDeclarations).length = 28 := by decide +kernel
    have hfound := hall [0xff] [0xff]
    rw [hlength] at hfound
    exact ⟨t, htoList, hfound⟩
  · have htaken : (atOffset paddedTable 0).toOption.map (fun found => (found.1.toList, found.2)) =
        some ([⟨1, 0x11, true, []⟩], 11) := by
      decide +kernel
    obtain ⟨⟨t, n⟩, h, hfound⟩ := Fallible.exists_of_map htaken
    obtain ⟨htoList, rfl⟩ := Prod.mk.inj hfound
    obtain ⟨-, hagain, -⟩ := hread paddedTable 0 t 11 h
    have hencode : encode t.toList = [1, 0x11, 1, 0, 0, 0] := by
      rw [htoList]
      decide +kernel
    rw [hencode] at hagain
    exact ⟨t, h, htoList, hagain⟩

end AbbrevTable

end Dwarf
