import Dwarf.Proofs.Info.Navigation
import Dwarf.Proofs.Info.Units
/-!
# References resolve exactly

The entry that a reference points at is found by bisection, which is right only if
the offsets of the entries ascend. Nothing checks that they do. They ascend because
every entry takes at least the byte of its code:

> `Forest.pairwise_offset`: in the preorder list of a forest every entry starts
> behind the ones before it.

What `UnitTree.bisect` finds is never wrong (`UnitTree.bisect_sound`), in order or not.
That it finds what is there (`UnitTree.bisect_complete`) is where the order is used: the
half that is dropped holds entries on the wrong side of the middle only.

A reference into the section does not say which unit it means. It need not, because
units do not overlap:

> `UnitHeader.endOffset_le_of_tiled`: a unit ends before any later one starts.
-/

namespace Dwarf

namespace Forest

variable {enc : Encoding} {table : AbbrevTable}

theorem offset_bounds {f : Forest} (hf : f.WellFormed enc table) {depth offset index : Nat}
    {parent : Option Nat} {e : Entry} (h : e ∈ f.entries depth parent offset index) :
    offset ≤ e.offset ∧ e.offset < offset + f.bytes.length := by
  induction f generalizing depth parent offset index with
  | nil => cases h
  | cons head children close next ihc ihn =>
    have hpos := hf.1.length_pos
    rw [bytes, List.length_append, List.length_append, List.length_append]
    rw [entries, List.mem_cons, List.mem_append] at h
    rcases h with rfl | h | h
    · show offset ≤ offset ∧ offset < _
      omega
    · have hbelow := ihc hf.below h
      omega
    · have hbeside := ihn hf.2.2 h
      omega

theorem pairwise_offset {f : Forest} (hf : f.WellFormed enc table) (depth offset index : Nat)
    (parent : Option Nat) :
    (f.entries depth parent offset index).Pairwise fun e e' => e.offset < e'.offset := by
  induction f generalizing depth parent offset index with
  | nil => exact .nil
  | cons head children close next ihc ihn =>
    have hpos := hf.1.length_pos
    rw [entries, List.pairwise_cons, List.pairwise_append]
    refine ⟨?_, ihc hf.below _ _ _ _, ihn hf.2.2 _ _ _ _, ?_⟩
    · intro e he
      show offset < e.offset
      rcases List.mem_append.mp he with he | he
      · have hbelow := offset_bounds hf.below he
        omega
      · have hbeside := offset_bounds hf.2.2 he
        omega
    · intro e he e' he'
      have hbelow := offset_bounds hf.below he
      have hbeside := offset_bounds hf.2.2 he'
      omega

end Forest

namespace UnitTree

/-! ### Bisection -/

theorem bisect_sound {es : Array Entry} {offset low high i : Nat}
    (h : bisect es offset low high = some i) : ∃ e, es[i]? = some e ∧ e.offset = offset := by
  fun_induction bisect es offset low high with
  | case1 low high hlt mid hnone => cases h
  | case2 low high hlt mid e he hfound =>
    rw [← Option.some.inj h]
    exact ⟨e, he, hfound⟩
  | case3 low high hlt mid e he hne hbefore ih => exact ih h
  | case4 low high hlt mid e he hne hbefore ih => exact ih h
  | case5 low high hge => cases h

/-- Where offsets ascend, the indices of two entries are in the order of their offsets. -/
theorem index_lt_iff {es : Array Entry}
    (hes : es.toList.Pairwise fun e e' => e.offset < e'.offset) {i j : Nat} {e e' : Entry}
    (hi : es[i]? = some e) (hj : es[j]? = some e') : i < j ↔ e.offset < e'.offset := by
  have hlt : ∀ {i j : Nat} {e e' : Entry}, es[i]? = some e → es[j]? = some e' → i < j →
      e.offset < e'.offset := by
    intro i j e e' hi hj hij
    obtain ⟨hi', rfl⟩ := Array.getElem?_eq_some_iff.mp hi
    obtain ⟨hj', rfl⟩ := Array.getElem?_eq_some_iff.mp hj
    exact List.pairwise_iff_getElem.mp hes i j hi' hj' hij
  constructor
  · exact hlt hi hj
  · intro hoffset
    rcases Nat.lt_trichotomy i j with hij | rfl | hji
    · exact hij
    · rw [hi] at hj
      cases hj
      exact absurd hoffset (Nat.lt_irrefl _)
    · have := hlt hj hi hji
      omega

/-- Bisection keeps the entry that is looked for between its bounds, so it finds it. -/
theorem bisect_complete {es : Array Entry}
    (hes : es.toList.Pairwise fun e e' => e.offset < e'.offset) {i : Nat} {e : Entry}
    (hi : es[i]? = some e) {low high : Nat} (hlow : low ≤ i) (hhigh : i < high)
    (hsize : high ≤ es.size) : bisect es e.offset low high = some i := by
  fun_induction bisect es e.offset low high with
  | case1 low high hbounds mid hnone =>
    rw [Array.getElem?_eq_none_iff] at hnone
    omega
  | case2 low high hbounds mid e' hmid hsame =>
    have hbefore := index_lt_iff hes hmid hi
    have hafter := index_lt_iff hes hi hmid
    have hindex : mid = i := by omega
    rw [hindex]
  | case3 low high hbounds mid e' hmid hne hless ih =>
    -- The middle starts too early, and so does everything before it.
    have hbefore := index_lt_iff hes hmid hi
    exact ih (by omega) hhigh hsize
  | case4 low high hbounds mid e' hmid hne hless ih =>
    have hafter := index_lt_iff hes hi hmid
    exact ih hlow (by omega) (by omega)
  | case5 low high hbounds => omega

variable {u : UnitTree}

/-- In a unit whose entries are in order, lookup by offset finds just the entries there. -/
theorem entryAt?_eq_some (hu : u.entries.toList.Pairwise fun e e' => e.offset < e'.offset)
    {offset : Nat} {e : Entry} : u.entryAt? offset = some e ↔ e ∈ u.entries ∧ e.offset = offset := by
  unfold entryAt?
  constructor
  · intro h
    obtain ⟨i, hindex, hi⟩ := Option.bind_eq_some_iff.mp h
    obtain ⟨e', he', hoffset⟩ := bisect_sound hindex
    rw [hi] at he'
    cases he'
    exact ⟨Array.mem_of_getElem? hi, hoffset⟩
  · rintro ⟨hmem, rfl⟩
    obtain ⟨i, hi⟩ := Array.getElem?_of_mem hmem
    obtain ⟨hsize, -⟩ := Array.getElem?_eq_some_iff.mp hi
    have hindex : u.indexAt? e.offset = some i :=
      bisect_complete hu hi (Nat.zero_le i) hsize (Nat.le_refl _)
    rw [hindex]
    exact hi

/-! ### One unit -/

/-- The entries of a unit that was read are in order and lie behind its header. -/
theorem offsets_of_decode {abbrevs : Bytes} {header : UnitHeader}
    (h : decode abbrevs header = .ok u) :
    u.entries.toList.Pairwise (fun e e' => e.offset < e'.offset) ∧
    ∀ e ∈ u.entries, u.header.offset + u.header.headerSize ≤ e.offset ∧
      e.offset < u.header.endOffset := by
  obtain ⟨rfl, hall⟩ := complete_of_decode h
  obtain ⟨f, hf, -, hbytes, hentries⟩ := Entry.exists_forest hall
  rw [← hentries]
  refine ⟨f.pairwise_offset hf _ _ _ _, ?_⟩
  intro e he
  rw [← Array.mem_toList_iff, ← hentries] at he
  have hbounds := Forest.offset_bounds hf he
  rw [hbytes] at hbounds
  exact hbounds

end UnitTree

/-! ### All units of a section -/

namespace UnitHeader

variable {order : ByteOrder} {info : Bytes} {hs : List UnitHeader} {h h' : UnitHeader}

theorem le_offset_of_tiled {start stop i : Nat} (ht : Tiled (item order) info start hs stop)
    (hi : hs[i]? = some h) : start ≤ h.offset := by
  obtain ⟨offset, next, hlt, hbefore, hrun, hlater⟩ := ht.split hi
  have hle := hlater.le_stop
  have hstop := hlater.stop_le
  rw [(occupies_of_run hrun hlt (by omega)).starts]
  exact hbefore.le_stop

theorem endOffset_le_of_tiled {start stop i j : Nat}
    (ht : Tiled (item order) info start hs stop) (hi : hs[i]? = some h) (hj : hs[j]? = some h')
    (hij : i < j) : h.endOffset ≤ h'.offset := by
  -- The units after `h` tile what the section has behind it.
  obtain ⟨-, -, -, hlater⟩ := placed_of_tiled ht hi
  have hj' : (hs.drop (i + 1))[j - (i + 1)]? = some h' := by
    have hindex : i + 1 + (j - (i + 1)) = j := by omega
    rw [List.getElem?_drop, hindex]
    exact hj
  exact le_offset_of_tiled hlater hj'

/-- No offset of a section is in two of its units. -/
theorem index_eq_of_tiled {start stop i j offset : Nat}
    (ht : Tiled (item order) info start hs stop) (hi : hs[i]? = some h) (hj : hs[j]? = some h')
    (hin : h.offset ≤ offset ∧ offset < h.endOffset)
    (hin' : h'.offset ≤ offset ∧ offset < h'.endOffset) : j = i := by
  rcases Nat.lt_trichotomy i j with hij | heq | hji
  · have hend := endOffset_le_of_tiled ht hi hj hij
    omega
  · exact heq.symm
  · have hend := endOffset_le_of_tiled ht hj hi hji
    omega

end UnitHeader

namespace UnitTree

/-- The units of a section are those of its headers. -/
theorem decode_of_all {s : Sections} {us : List UnitTree} (h : all s = .ok us) {i : Nat}
    {u : UnitTree} (hi : us[i]? = some u) :
    (UnitHeader.all s.order s.info).items[i]? = some u.header ∧
      decode s.abbrevs u.header = .ok u := by
  obtain ⟨units, hunits, hdone⟩ := Fallible.bind_eq_ok.mp h
  split at hdone
  · cases hdone
    obtain ⟨header, hheader, hread⟩ := Fallible.exists_of_mapM hunits hi
    obtain ⟨rfl, -⟩ := complete_of_decode hread
    exact ⟨hheader, hread⟩
  · cases hdone

/-- A reference into the section resolves in the unit around it, if anywhere. -/
theorem around_of_infoRef {abbrevs : Bytes} {header : UnitHeader} {u : UnitTree}
    (h : decode abbrevs header = .ok u) {offset : Nat} {e : Entry}
    (href : u.referent? (.infoRef offset) = some e) :
    u.header.offset ≤ offset ∧ offset < u.header.endOffset := by
  obtain ⟨hordered, hinside⟩ := offsets_of_decode h
  obtain ⟨hmem, rfl⟩ := (entryAt?_eq_some hordered).mp href
  have hplace := hinside e hmem
  omega

theorem referent?_unitRef (u : UnitTree) (distance : Nat) :
    u.referent? (.unitRef distance) =
      if u.header.offset + distance < 0x10000000000000000 then
        u.entryAt? (u.header.offset + distance)
      else none := by
  have hindex : u.resolve? (.unitRef distance) =
      if u.header.offset + distance < 0x10000000000000000 then
        u.indexAt? (u.header.offset + distance)
      else none := rfl
  rw [referent?, hindex]
  by_cases hfits : u.header.offset + distance < 0x10000000000000000
  · rw [if_pos hfits, if_pos hfits]
    rfl
  · rw [if_neg hfits, if_neg hfits]
    rfl

theorem referent?_other (u : UnitTree) {value : Value} (hunit : ∀ d, value ≠ .unitRef d)
    (hinfo : ∀ o, value ≠ .infoRef o) : u.referent? value = none := by
  unfold referent? resolve?
  split
  · next d => exact absurd rfl (hunit d)
  · next o => exact absurd rfl (hinfo o)
  · rfl

/-- **References resolve exactly.** In a unit that was read the offsets of the entries
ascend between the end of the header and the end of the unit, and lookup by offset finds
an entry if and only if it starts there. A reference into the section is looked up as it
is and one into the unit counts from the start of the unit, if the sum has no more than
64 bits; nothing else resolves. So both kinds find every entry, the second if its offset
has 64 bits, as in memory every offset has. In a section that was read, a reference into
it resolves only in the unit around it, and there is no other such unit. -/
theorem references_resolve :
    (∀ (abbrevs : Bytes) (header : UnitHeader) (u : UnitTree), decode abbrevs header = .ok u →
      u.entries.toList.Pairwise (fun e e' => e.offset < e'.offset) ∧
      (∀ e ∈ u.entries, u.header.offset + u.header.headerSize ≤ e.offset ∧
        e.offset < u.header.endOffset) ∧
      (∀ (o : Nat) (e : Entry), u.entryAt? o = some e ↔ e ∈ u.entries ∧ e.offset = o) ∧
      (∀ o, u.referent? (.infoRef o) = u.entryAt? o) ∧
      (∀ d, u.referent? (.unitRef d) =
        if u.header.offset + d < 0x10000000000000000 then u.entryAt? (u.header.offset + d)
        else none) ∧
      (∀ value, (∀ d, value ≠ .unitRef d) → (∀ o, value ≠ .infoRef o) →
        u.referent? value = none) ∧
      ∀ e ∈ u.entries, u.referent? (.infoRef e.offset) = some e ∧
        (e.offset < 0x10000000000000000 →
          u.referent? (.unitRef (e.offset - u.header.offset)) = some e)) ∧
    ∀ (s : Sections) (us : List UnitTree), all s = .ok us →
      ∀ (i : Nat) (u : UnitTree) (o : Nat) (e : Entry), us[i]? = some u →
        u.referent? (.infoRef o) = some e →
        (u.header.offset ≤ o ∧ o < u.header.endOffset) ∧
        ∀ (j : Nat) (u' : UnitTree), us[j]? = some u' →
          (u'.header.offset ≤ o ∧ o < u'.header.endOffset → j = i) ∧
          ∀ e', u'.referent? (.infoRef o) = some e' → j = i := by
  constructor
  · intro abbrevs header u h
    obtain ⟨hordered, hinside⟩ := offsets_of_decode h
    refine ⟨hordered, hinside, fun o e => entryAt?_eq_some hordered, fun o => rfl,
      u.referent?_unitRef, fun value => u.referent?_other, ?_⟩
    intro e he
    have hfound : u.entryAt? e.offset = some e := (entryAt?_eq_some hordered).mpr ⟨he, rfl⟩
    refine ⟨hfound, fun hfits => ?_⟩
    have hplace := hinside e he
    have hsum : u.header.offset + (e.offset - u.header.offset) = e.offset := by omega
    rw [referent?_unitRef, hsum, if_pos hfits]
    exact hfound
  · intro s us hall i u o e hi href
    obtain ⟨hheader, hread⟩ := decode_of_all hall hi
    have haround := around_of_infoRef hread href
    have htiled : Tiled (UnitHeader.item s.order) s.info 0 (UnitHeader.all s.order s.info).items
        ((Cursor.atStart s.info).stop (UnitHeader.item s.order)).offset :=
      Cursor.tiled_run (UnitHeader.forward_item s.order) (Cursor.on_atStart s.info)
    refine ⟨haround, ?_⟩
    intro j u' hj
    obtain ⟨hheader', hread'⟩ := decode_of_all hall hj
    have hsame := UnitHeader.index_eq_of_tiled htiled hheader hheader' haround
    exact ⟨hsame, fun e' href' => hsame (around_of_infoRef hread' href')⟩

/-- Two units of version 4, each with a root and one child. The child of the first is at
12 and that of the second at 26, both 12 bytes into their unit. -/
def twinUnits : Sections where
  order := .little
  abbrevs := [1, 0x11, 1, 0, 0, 2, 0x24, 0, 0, 0, 0]
  info := [10, 0, 0, 0, 4, 0, 0, 0, 0, 0, 8, 1, 2, 0, 10, 0, 0, 0, 4, 0, 0, 0, 0, 0, 8, 1, 2, 0]

theorem references_resolve_twinUnits :
    ∃ u u' e e', all twinUnits = .ok [u, u'] ∧ e.offset = 12 ∧ e'.offset = 26 ∧
      u.referent? (.infoRef 12) = some e ∧ u.referent? (.unitRef 12) = some e ∧
      u'.referent? (.infoRef 26) = some e' ∧ u'.referent? (.unitRef 12) = some e' ∧
      u.referent? (.infoRef 26) = none := by
  have hread : (all twinUnits).toOption.map (fun us => us.map fun u =>
      (u.header.offset, u.entries.toList.map (·.offset))) = some [(0, [11, 12]), (14, [25, 26])] := by
    decide +kernel
  obtain ⟨us, h, hunits⟩ := Fallible.exists_of_map hread
  obtain ⟨u, later, rfl, hu, hlater⟩ := List.map_eq_cons_iff.mp hunits
  obtain ⟨u', later', rfl, hu', hnil⟩ := List.map_eq_cons_iff.mp hlater
  obtain rfl := List.map_eq_nil_iff.mp hnil
  obtain ⟨hstart, hoffsets⟩ := Prod.mk.inj hu
  obtain ⟨hstart', hoffsets'⟩ := Prod.mk.inj hu'
  obtain ⟨e, he, hoffset⟩ : ∃ e ∈ u.entries.toList, e.offset = 12 := by
    rw [← List.mem_map, hoffsets]
    decide
  obtain ⟨e', he', hoffset'⟩ : ∃ e ∈ u'.entries.toList, e.offset = 26 := by
    rw [← List.mem_map, hoffsets']
    decide
  obtain ⟨hunit, hsection⟩ := references_resolve
  obtain ⟨-, -, -, -, -, -, hfound⟩ := hunit _ _ u (decode_of_all (i := 0) h rfl).2
  obtain ⟨-, -, -, -, -, -, hfound'⟩ := hunit _ _ u' (decode_of_all (i := 1) h rfl).2
  obtain ⟨hinfo, hrelative⟩ := hfound e (Array.mem_toList_iff.mp he)
  obtain ⟨hinfo', hrelative'⟩ := hfound' e' (Array.mem_toList_iff.mp he')
  rw [hoffset] at hinfo hrelative
  rw [hoffset'] at hinfo' hrelative'
  rw [hstart] at hrelative
  rw [hstart'] at hrelative'
  refine ⟨u, u', e, e', h, hoffset, hoffset', hinfo, hrelative (by decide), hinfo',
    hrelative' (by decide), ?_⟩
  -- The first unit cannot have an entry at 26, since the second one does.
  cases hother : u.referent? (.infoRef 26) with
  | none => rfl
  | some found =>
    obtain ⟨-, honly⟩ := hsection twinUnits _ h 1 u' 26 e' rfl hinfo'
    exact absurd ((honly 0 u rfl).2 found hother) (by decide)

end UnitTree

end Dwarf
