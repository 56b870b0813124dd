import Dwarf.Proofs.Fault.Contents
import Dwarf.Proofs.Machine.Abbrev
/-!
# Declarations and their positions

A table keeps its declarations in a list, and beside it a map from their codes to where they are.
That the map is right is the field `inStep`, which a table cannot be without. An `AbbrevStore` is a
list and a map alone, and nothing but what its functions do keeps the two in step. That they do so
is proved by the tables, since any number of insertions makes the store of a table:

> `AbbrevTable.store_insert`, `AbbrevTable.get_store`: insertion and lookup are those of tables.
>
> `AbbrevTable.exists_store_insertAll`: after a run of insertions, the first with each code are left.
>
> `AbbrevTable.insertions_in_step`: a code that is there already is refused, all others are found,
> and a table that is read reports the first code used twice, unless something else is wrong first.
-/

namespace Dwarf

/-- Declarations in a list, and the position in it of each code. -/
structure AbbrevStore where
  /-- The declarations, in the order in which they were inserted. -/
  declarations : Array Declaration
  /-- The positions of the codes. -/
  positions : Std.TreeMap Nat Nat

namespace AbbrevStore

/-- No declarations. -/
def empty : AbbrevStore := ⟨#[], ∅⟩

/-- Add a declaration at the end, unless its code has a position. Whether it was added comes
first. -/
def insert (s : AbbrevStore) (d : Declaration) : Bool × AbbrevStore :=
  match s.positions[d.code]? with
  | some _ => (false, s)
  | none =>
    (true, { declarations := s.declarations.push d
             positions := s.positions.insert d.code s.declarations.size })

/-- Insert declarations one after another, and go on after those that are refused. -/
def insertAll (s : AbbrevStore) : List Declaration → AbbrevStore
  | [] => s
  | d :: ds => (s.insert d).2.insertAll ds

/-- The declaration at the position of this code. -/
def get (s : AbbrevStore) (code : Nat) : Except Trap (Option Declaration) :=
  match s.positions[code]? with
  | none => return none
  | some index => do
    let d ← Machine.element s.declarations index
    return some d

/-- The declarations `ds` were inserted one after another, so the first with each code are there
in this order, they are found by their codes, and no others with these codes can be inserted. -/
structure Holds (s : AbbrevStore) (ds : List Declaration) : Prop where
  firsts : s.declarations.toList = ds.eraseDupsBy fun d e => d.code == e.code
  distinct : (s.declarations.toList.map (·.code)).Nodup
  refused : ∀ d : Declaration,
    (s.insert d).1 = false ↔ ∃ e ∈ s.declarations.toList, e.code = d.code
  unchanged : ∀ d : Declaration, (s.insert d).1 = false → (s.insert d).2 = s
  found : ∀ code, ∃ found, s.get code = .ok found ∧ ∀ d : Declaration,
    found = some d ↔ d ∈ s.declarations.toList ∧ d.code = code ∧
      ∀ e ∈ s.declarations.toList, e.code = code → e = d

end AbbrevStore

namespace AbbrevTable

variable {t t' : AbbrevTable} {d : Declaration} {ds : List Declaration} {bs mid rest : Bytes}
  {code : Nat}

/-- A table, when it is forgotten that its positions are right. -/
def store (t : AbbrevTable) : AbbrevStore := ⟨t.declarations, t.positions⟩

/-! ### One insertion -/

theorem insert?_eq_none : t.insert? d = none ↔ ∃ e ∈ t.toList, e.code = d.code := by
  constructor
  · intro hnone
    by_cases hseen : ∃ e ∈ t.toList, e.code = d.code
    · exact hseen
    · have hnew : ∀ e ∈ t.toList, e.code ≠ d.code := fun e he hcode => hseen ⟨e, he, hcode⟩
      obtain ⟨t', ht'⟩ := exists_insert? hnew
      rw [hnone] at ht'
      cases ht'
  · rintro ⟨e, he, hcode⟩
    cases hinsert : t.insert? d with
    | none => rfl
    | some t' =>
      -- No table has both.
      have hdistinct := t'.nodup_codes
      rw [toList_of_insert? hinsert, List.map_append, List.nodup_append] at hdistinct
      exact absurd hcode
        (hdistinct.2.2 e.code (List.mem_map_of_mem he) d.code (List.mem_singleton_self d.code))

theorem store_insert (t : AbbrevTable) (d : Declaration) :
    t.store.insert d = match t.insert? d with
      | none => (false, t.store)
      | some t' => (true, t'.store) := by
  show (match t.positions[d.code]? with | some _ => _ | none => _) = _
  rw [insert?]
  by_cases hpos : t.positions[d.code]? = none
  · rw [dif_pos hpos, hpos]
    rfl
  · rw [dif_neg hpos]
    obtain ⟨index, hindex⟩ := Option.ne_none_iff_exists'.mp hpos
    rw [hindex]

theorem get_store (t : AbbrevTable) (code : Nat) : t.store.get code = .ok (t.get? code) :=
  Machine.lookup_eq t code

theorem get?_eq_some_iff_unique : t.get? code = some d ↔
    d ∈ t.toList ∧ d.code = code ∧ ∀ e ∈ t.toList, e.code = code → e = d := by
  constructor
  · intro hget
    obtain ⟨hmem, hcode⟩ := get?_eq_some.mp hget
    refine ⟨hmem, hcode, fun e he hcode' => ?_⟩
    have hget' := get?_eq_some.mpr ⟨he, hcode'⟩
    rw [hget] at hget'
    exact (Option.some.inj hget').symm
  · rintro ⟨hmem, hcode, -⟩
    exact get?_eq_some.mpr ⟨hmem, hcode⟩

/-! ### Any number of insertions -/

/-- The declarations that are left out are those that erasing duplicates leaves out, step by
step. -/
theorem exists_store_insertAll (t : AbbrevTable) (ds : List Declaration) :
    ∃ t' : AbbrevTable, t'.store = t.store.insertAll ds ∧
      t'.toList = List.eraseDupsBy.loop (fun d e => d.code == e.code) ds t.toList.reverse := by
  induction ds generalizing t with
  | nil => exact ⟨t, rfl, t.toList.reverse_reverse.symm⟩
  | cons d ds ih =>
    rw [AbbrevStore.insertAll, List.eraseDupsBy.loop, store_insert]
    cases hinsert : t.insert? d with
    | none =>
      have hseen : (t.toList.reverse.any fun e => d.code == e.code) = true := by
        obtain ⟨e, he, hcode⟩ := insert?_eq_none.mp hinsert
        exact List.any_eq_true.mpr ⟨e, List.mem_reverse.mpr he, beq_iff_eq.mpr hcode.symm⟩
      rw [hseen]
      exact ih t
    | some next =>
      have hnew : (t.toList.reverse.any fun e => d.code == e.code) = false := by
        rw [List.any_eq_false]
        intro e he hcode
        have hnone := insert?_eq_none.mpr
          ⟨e, List.mem_reverse.mp he, (beq_iff_eq.mp hcode).symm⟩
        rw [hinsert] at hnone
        cases hnone
      rw [hnew]
      obtain ⟨t', hstore, htoList⟩ := ih next
      refine ⟨t', hstore, ?_⟩
      rw [htoList, toList_of_insert? hinsert, List.reverse_append, List.reverse_singleton]
      rfl

theorem holds_store (htoList : t.toList = ds.eraseDupsBy fun d e => d.code == e.code) :
    t.store.Holds ds where
  firsts := htoList
  distinct := t.nodup_codes
  refused d := by
    show (t.store.insert d).1 = false ↔ ∃ e ∈ t.toList, e.code = d.code
    rw [← insert?_eq_none, store_insert]
    cases t.insert? d with
    | none => exact iff_of_true rfl rfl
    | some t' => exact iff_of_false nofun nofun
  unchanged d := by
    rw [store_insert]
    cases t.insert? d with
    | none => exact fun _ => rfl
    | some t' => exact nofun
  found code := ⟨t.get? code, t.get_store code, fun _ => get?_eq_some_iff_unique⟩

/-! ### Reading a table -/

/-- The declarations `ds` are read one after another at the start of `bs`, and `rest` is behind
them. -/
inductive Opens : Bytes → List Declaration → Bytes → Prop where
  /-- There are none. -/
  | start (bs : Bytes) : Opens bs [] bs
  /-- One is read, and others behind it. -/
  | item {bs mid rest : Bytes} {d : Declaration} {ds : List Declaration}
    (hrun : Declaration.decode.run bs = .ok (some d) mid) (hlater : Opens mid ds rest) :
    Opens bs (d :: ds) rest

/-- Declarations that can all be inserted are read into the table. -/
theorem extend_of_opens (hopens : Opens bs ds mid) (hall : t.insertAll? ds = some t') :
    t.extend bs = t'.extend mid := by
  induction hopens generalizing t with
  | start bs =>
    cases hall
    rfl
  | item hrun hlater ih =>
    rw [insertAll?] at hall
    rw [extend_item hrun]
    split at hall
    · cases hall
    · exact ih hall

theorem decode_of_opens (hopens : Opens bs ds mid) (hdistinct : (ds.map (·.code)).Nodup) :
    ∃ t : AbbrevTable, t.toList = ds ∧ decode.run bs = t.extend mid := by
  obtain ⟨t, hall⟩ := @exists_insertAll? empty ds hdistinct
  exact ⟨t, toList_of_insertAll? hall, extend_of_opens hopens hall⟩

/-- A code that is reported was read twice, the second time with all of its declaration. -/
theorem opens_of_duplicateCode (h : t.extend bs = .fault (.duplicateCode code) rest) :
    ∃ ds d mid, Opens bs ds mid ∧ ((t.toList ++ ds).map (·.code)).Nodup ∧
      Declaration.decode.run mid = .ok (some d) rest ∧ d.code = code ∧
      ∃ e ∈ t.toList ++ ds, e.code = code := by
  fun_induction extend t bs with
  | case1 t bs cause rest' hrun =>
    cases h
    exact absurd rfl ((Declaration.raises_decode hrun).2 code)
  | case2 t bs rest' hrun => cases h
  | case3 t bs d mid hrun hinsert =>
    cases h
    refine ⟨[], d, bs, .start bs, ?_, hrun, rfl, ?_⟩
    · rw [List.append_nil]
      exact t.nodup_codes
    · rw [List.append_nil]
      exact insert?_eq_none.mp hinsert
  | case4 t bs d mid hrun next hinsert ih =>
    obtain ⟨ds, last, bs', hopens, hdistinct, hlast, hcode, hseen⟩ := ih h
    rw [toList_of_insert? hinsert, List.append_assoc] at hdistinct hseen
    exact ⟨d :: ds, last, bs', .item hrun hopens, hdistinct, hlast, hcode, hseen⟩

/-- **A table keeps its list and its map in step.** Whatever declarations are inserted into an
empty store, it holds the first with each code, and is the store of a table, of which insertion and
lookup are those of the store. So a table that is read reports a code exactly if declarations with
different codes are followed by a whole declaration that has one of these codes again, and then it
has read that one. What is wrong in a declaration is reported itself, also if its code was there
already. -/
theorem insertions_in_step :
    (∀ ds, (AbbrevStore.empty.insertAll ds).Holds ds ∧
      ∃ t : AbbrevTable, t.store = AbbrevStore.empty.insertAll ds) ∧
    (∀ (t : AbbrevTable) (d : Declaration) (code : Nat),
      t.store.insert d = (match t.insert? d with
        | none => (false, t.store)
        | some t' => (true, t'.store)) ∧
      t.store.get code = .ok (t.get? code)) ∧
    (∀ bs code rest, decode.run bs = .fault (.duplicateCode code) rest ↔
      ∃ ds d mid, Opens bs ds mid ∧ (ds.map (·.code)).Nodup ∧
        Declaration.decode.run mid = .ok (some d) rest ∧ d.code = code ∧
        ∃ e ∈ ds, e.code = code) ∧
    ∀ bs ds mid cause rest, Opens bs ds mid → (ds.map (·.code)).Nodup →
      Declaration.decode.run mid = .fault cause rest →
        decode.run bs = .fault cause rest ∧ ∀ code, cause ≠ .duplicateCode code := by
  refine ⟨fun ds => ?_, fun t d code => ⟨t.store_insert d, t.get_store code⟩, ?_, ?_⟩
  · obtain ⟨t, hstore, htoList⟩ := empty.exists_store_insertAll ds
    have hstart : AbbrevStore.empty.insertAll ds = t.store := hstore.symm
    rw [hstart]
    exact ⟨holds_store htoList, t, rfl⟩
  · intro bs code rest
    constructor
    · exact opens_of_duplicateCode
    · rintro ⟨ds, d, mid, hopens, hdistinct, hrun, rfl, hseen⟩
      obtain ⟨t, rfl, hdecode⟩ := decode_of_opens hopens hdistinct
      rw [hdecode, extend_item hrun, insert?_eq_none.mpr hseen]
  · intro bs ds mid cause rest hopens hdistinct hrun
    obtain ⟨t, -, hdecode⟩ := decode_of_opens hopens hdistinct
    rw [hdecode, extend_fault hrun]
    exact ⟨rfl, (Declaration.raises_decode hrun).2⟩

/-- After a declaration with code 1 its code is used again, first in one that is whole, then in
one with tag 0. -/
theorem insertions_in_step_twice :
    decode.run [1, 0x11, 0, 0, 0, 1, 0x12, 1, 0, 0, 0] = .fault (.duplicateCode 1) [0] ∧
    decode.run [1, 0x11, 0, 0, 0, 1, 0, 0] = .fault .zeroTag [0] ∧
    (AbbrevStore.empty.insertAll [⟨1, 0x11, false, []⟩, ⟨1, 0x12, true, []⟩,
      ⟨2, 0x12, true, []⟩]).declarations.toList = [⟨1, 0x11, false, []⟩, ⟨2, 0x12, true, []⟩] := by
  obtain ⟨hinsert, -, hduplicate, hother⟩ := insertions_in_step
  have hfirst : Declaration.decode.run [1, 0x11, 0, 0, 0, 1, 0x12, 1, 0, 0, 0] =
      .ok (some ⟨1, 0x11, false, []⟩) [1, 0x12, 1, 0, 0, 0] := by
    decide +kernel
  have hfirst' : Declaration.decode.run [1, 0x11, 0, 0, 0, 1, 0, 0] =
      .ok (some ⟨1, 0x11, false, []⟩) [1, 0, 0] := by
    decide +kernel
  have hagain : Declaration.decode.run [1, 0x12, 1, 0, 0, 0] =
      .ok (some ⟨1, 0x12, true, []⟩) [0] := by
    decide +kernel
  have hzero : Declaration.decode.run [1, 0, 0] = .fault .zeroTag [0] := by
    decide +kernel
  refine ⟨(hduplicate _ _ _).mpr ?_, ?_, ?_⟩
  · exact ⟨_, _, _, .item hfirst (.start _), by decide, hagain, rfl, _, List.mem_singleton_self _,
      rfl⟩
  · exact (hother _ _ _ _ _ (.item hfirst' (.start _)) (by decide) hzero).1
  · rw [(hinsert _).1.firsts]
    decide

end AbbrevTable

end Dwarf
