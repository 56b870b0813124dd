import Dwarf.Abbrev.Declaration
import Dwarf.Proofs.Bytes.Shortest
/-!
# The bytes of a declaration

What a declaration may hold, which bytes spell it, and that it is written in the
shortest of them. A specification of an attribute is two or three numbers and a
declaration is two numbers, a flag and a list of specifications, so all that can be
padded in either are its numbers:

> `AttrSpec.spells_decode`, `Declaration.spells_decode`: the bytes that are read are
> those of the fields, end to end, with nothing between them.
>
> `AttrSpec.shortest_decode`, `Declaration.shortest_decode`: what is read is valid, and
> it is read back from the shortest bytes for it.

In both the end of the list is an item too, which is read as `none`.
-/

namespace Dwarf

open Decoder Leb128

namespace AttrSpec

/-- Name and form have 16 bits and are not zero, and there is a constant, of 64 bits,
just where the form stores its values in the declaration. -/
structure Valid (spec : AttrSpec) : Prop where
  name : 0 < spec.name ∧ spec.name ≤ 0xffff
  form : 0 < spec.form ∧ spec.form ≤ 0xffff
  stored : spec.const.isSome = true ↔ spec.form = Form.implicitConst.code
  range : ∀ i, spec.const = some i → -0x8000000000000000 ≤ i ∧ i < 0x8000000000000000

/-- `bytes` are a specification, or the two zeros after the last one. -/
inductive Spelled : Option AttrSpec → Bytes → Prop where
  | stop {nameBytes formBytes : Bytes} (name : IsUnsigned 0 nameBytes)
    (form : IsUnsigned 0 formBytes) : Spelled none (nameBytes ++ formBytes)
  | plain {spec : AttrSpec} {nameBytes formBytes : Bytes} (valid : spec.Valid)
    (const : spec.const = none) (name : IsUnsigned spec.name nameBytes)
    (form : IsUnsigned spec.form formBytes) : Spelled (some spec) (nameBytes ++ formBytes)
  | constant {spec : AttrSpec} {i : Int} {nameBytes formBytes constBytes : Bytes}
    (valid : spec.Valid) (const : spec.const = some i) (name : IsUnsigned spec.name nameBytes)
    (form : IsUnsigned spec.form formBytes) (value : IsSigned i constBytes) :
    Spelled (some spec) (nameBytes ++ (formBytes ++ constBytes))

theorem delimited_decode : Delimited decode := by
  refine delimited_unsigned.bind fun name => delimited_unsigned.bind fun form => ?_
  refine .ite (.pure _) (.ite (.fail _) (.ite (.fail _) (.ite (.fail _) (.ite (.fail _) ?_))))
  exact .ite (delimited_signed.bind fun const => .pure _) (.pure _)

theorem spelled_of_spells {bytes : Bytes} {item : Option AttrSpec} (h : decode.Spells bytes item) :
    Spelled item bytes := by
  obtain ⟨name, nameBytes, mid, rfl, hname, h⟩ := delimited_unsigned.spells_bind.mp h
  obtain ⟨form, formBytes, last, rfl, hform, h⟩ := delimited_unsigned.spells_bind.mp h
  rw [spells_unsigned] at hname hform
  split at h
  · next hstop =>
    obtain ⟨rfl, rfl⟩ := spells_pure.mp h
    obtain ⟨rfl, rfl⟩ := hstop
    rw [List.append_nil]
    exact .stop hname hform
  · split at h
    · cases h
    split at h
    · cases h
    split at h
    · cases h
    split at h
    · cases h
    have hranges : (0 < name ∧ name ≤ 0xffff) ∧ (0 < form ∧ form ≤ 0xffff) := by omega
    obtain ⟨hnameRange, hformRange⟩ := hranges
    split at h
    · next hconst =>
      obtain ⟨i, constBytes, tail, rfl, hi, h⟩ := delimited_signed.spells_bind.mp h
      obtain ⟨rfl, rfl⟩ := spells_pure.mp h
      rw [spells_signed] at hi
      rw [List.append_nil]
      refine .constant ⟨hnameRange, hformRange, by simp [hconst], fun j hj => ?_⟩ rfl hname hform hi
      cases hj
      exact ⟨hi.low, hi.high⟩
    · next hconst =>
      obtain ⟨rfl, rfl⟩ := spells_pure.mp h
      rw [List.append_nil]
      refine .plain ⟨hnameRange, hformRange, by simp [hconst], fun j hj => ?_⟩ rfl hname hform
      cases hj

/-- The checks pass in a valid specification, so that only its constant is left to read. -/
theorem Valid.spells_decode {spec : AttrSpec} (hvalid : spec.Valid)
    {nameBytes formBytes last : Bytes} (hname : IsUnsigned spec.name nameBytes)
    (hform : IsUnsigned spec.form formBytes) {item : Option AttrSpec}
    (hlast : Decoder.Spells (if spec.form = Form.implicitConst.code then do
        let const ← signed
        return some { name := spec.name, form := spec.form, const := some const }
      else return some { name := spec.name, form := spec.form }) last item) :
    decode.Spells (nameBytes ++ (formBytes ++ last)) item := by
  have hpos := hvalid.name
  have hpos' := hvalid.form
  refine delimited_unsigned.spells_bind.mpr
    ⟨spec.name, nameBytes, formBytes ++ last, rfl, spells_unsigned.mpr hname, ?_⟩
  refine delimited_unsigned.spells_bind.mpr
    ⟨spec.form, formBytes, last, rfl, spells_unsigned.mpr hform, ?_⟩
  rw [if_neg (by omega), if_neg (by omega), if_neg (by omega), if_neg (by omega), if_neg (by omega)]
  exact hlast

theorem spells_decode {bytes : Bytes} {item : Option AttrSpec} :
    decode.Spells bytes item ↔ Spelled item bytes := by
  constructor
  · exact spelled_of_spells
  · intro h
    cases h with
    | @stop nameBytes formBytes hname hform =>
      refine delimited_unsigned.spells_bind.mpr
        ⟨0, nameBytes, formBytes, rfl, spells_unsigned.mpr hname, ?_⟩
      refine delimited_unsigned.spells_bind.mpr
        ⟨0, formBytes, [], (List.append_nil _).symm, spells_unsigned.mpr hform, rfl⟩
    | @plain spec nameBytes formBytes hvalid hconst hname hform =>
      have hplain : spec.form ≠ Form.implicitConst.code := by
        intro hstores
        have := hvalid.stored.mpr hstores
        rw [hconst] at this
        cases this
      have hread : decode.Spells (nameBytes ++ (formBytes ++ []))
          (some { name := spec.name, form := spec.form }) := by
        apply hvalid.spells_decode hname hform
        rw [if_neg hplain]
        rfl
      rw [List.append_nil, ← hconst] at hread
      exact hread
    | @constant spec i nameBytes formBytes constBytes hvalid hconst hname hform hi =>
      have hstores : spec.form = Form.implicitConst.code := by
        rw [← hvalid.stored, hconst]
        rfl
      refine hvalid.spells_decode hname hform ?_
      rw [if_pos hstores]
      refine delimited_signed.spells_bind.mpr
        ⟨i, constBytes, [], (List.append_nil _).symm, spells_signed.mpr hi, ?_⟩
      rw [← hconst]
      rfl

theorem Valid.implicitConst?_eq {spec : AttrSpec} (hvalid : spec.Valid) :
    spec.implicitConst? = spec.const := by
  rw [implicitConst?]
  split
  · rfl
  · next hplain =>
    cases hconst : spec.const with
    | none => rfl
    | some i => exact absurd (hvalid.stored.mp (by rw [hconst]; rfl)) hplain

theorem shortest_decode : decode.Shortest (fun item => ∀ spec ∈ item, spec.Valid)
    (fun item => item.elim [0, 0] encode) where
  read {item} hitem := by
    rw [spells_decode]
    cases item with
    | none => exact .stop isUnsigned_zero isUnsigned_zero
    | some spec =>
      have hvalid : spec.Valid := hitem spec rfl
      have hname : IsUnsigned spec.name (encodeUnsigned spec.name) :=
        isUnsigned_encode (by have := hvalid.name; omega)
      have hform : IsUnsigned spec.form (encodeUnsigned spec.form) :=
        isUnsigned_encode (by have := hvalid.form; omega)
      show Spelled (some spec) spec.encode
      rw [encode, hvalid.implicitConst?_eq]
      cases hconst : spec.const with
      | none =>
        simp only [List.append_nil]
        exact .plain hvalid hconst hname hform
      | some i =>
        obtain ⟨hlow, hhigh⟩ := hvalid.range i hconst
        simp only [List.append_assoc]
        exact .constant hvalid hconst hname hform (isSigned_encode hlow hhigh)
  valid {bytes item} h := by
    rw [spells_decode] at h
    intro spec hspec
    cases h with
    | stop => cases hspec
    | plain hvalid | constant hvalid =>
      cases hspec
      exact hvalid
  length_le {bytes item} h := by
    rw [spells_decode] at h
    cases h with
    | stop hname hform =>
      have hlengths := Nat.add_le_add hname.length_le hform.length_le
      rw [encodeUnsigned, if_pos (by decide)] at hlengths
      rw [List.length_append]
      exact hlengths
    | @plain spec nameBytes formBytes hvalid hconst hname hform =>
      have hlengths := Nat.add_le_add hname.length_le hform.length_le
      show spec.encode.length ≤ _
      rw [encode, hvalid.implicitConst?_eq, hconst]
      simpa only [List.append_nil, List.length_append] using hlengths
    | @constant spec i nameBytes formBytes constBytes hvalid hconst hname hform hi =>
      have hlengths := Nat.add_le_add (Nat.add_le_add hname.length_le hform.length_le) hi.length_le
      show spec.encode.length ≤ _
      rw [encode, hvalid.implicitConst?_eq, hconst]
      simpa only [List.length_append, Nat.add_assoc] using hlengths

/-! ### Lists of specifications -/

theorem readList_stop {bs rest : Bytes} (h : decode.run bs = .ok none rest) :
    readList bs = .ok [] rest := by
  rw [readList]
  split <;> rename_i hrun <;> rw [h] at hrun <;> cases hrun
  rfl

theorem readList_item {bs mid : Bytes} {spec : AttrSpec} (h : decode.run bs = .ok (some spec) mid) :
    readList bs = match readList mid with
      | .fault cause rest => .fault cause rest
      | .ok specs rest => .ok (spec :: specs) rest := by
  rw [readList]
  split <;> rename_i hrun <;> rw [h] at hrun <;> cases hrun
  rfl

theorem readList_fault {bs rest : Bytes} {cause : Fault} (h : decode.run bs = .fault cause rest) :
    readList bs = .fault cause rest := by
  rw [readList]
  split <;> rename_i hrun <;> rw [h] at hrun <;> cases hrun
  rfl

theorem delimited_decodeList : Delimited decodeList where
  ok {bs rest specs} h := by
    replace h : readList bs = .ok specs rest := h
    show ∃ head, bs = head ++ rest ∧ ∀ tail, readList (head ++ tail) = .ok specs tail
    fun_induction readList bs generalizing specs with
    | case1 bs cause rest' hfirst => cases h
    | case2 bs rest' hfirst =>
      cases h
      obtain ⟨mark, rfl, hmark⟩ := delimited_decode.ok hfirst
      exact ⟨mark, rfl, fun tail => readList_stop (hmark tail)⟩
    | case3 bs spec mid hfirst cause rest' hlater ih => cases h
    | case4 bs spec mid hfirst later rest' hlater ih =>
      cases h
      obtain ⟨first, rfl, hrun⟩ := delimited_decode.ok hfirst
      obtain ⟨head, rfl, hhead⟩ := ih hlater
      refine ⟨first ++ head, (List.append_assoc ..).symm, fun tail => ?_⟩
      rw [List.append_assoc, readList_item (hrun _), hhead tail]
  fault {bs rest cause} h hcause tail := by
    replace h : readList bs = .fault cause rest := h
    show readList (bs ++ tail) = .fault cause (rest ++ tail)
    fun_induction readList bs with
    | case1 bs cause' rest' hfirst =>
      cases h
      exact readList_fault (delimited_decode.fault hfirst hcause tail)
    | case2 bs rest' hfirst => cases h
    | case3 bs spec mid hfirst cause' rest' hlater ih =>
      cases h
      obtain ⟨first, rfl, hrun⟩ := delimited_decode.ok hfirst
      rw [List.append_assoc, readList_item (hrun _), ih hlater]
    | case4 bs spec mid hfirst later rest' hlater ih => cases h

theorem spells_decodeList {bytes : Bytes} {specs : List AttrSpec} :
    decodeList.Spells bytes specs ↔ Listed decode bytes specs := by
  constructor
  · intro h
    replace h : readList bytes = .ok specs [] := h
    fun_induction readList bytes generalizing specs with
    | case1 bs cause rest' hfirst => cases h
    | case2 bs rest' hfirst =>
      cases h
      exact .stop hfirst
    | case3 bs spec mid hfirst cause rest' hlater ih => cases h
    | case4 bs spec mid hfirst later rest' hlater ih =>
      cases h
      obtain ⟨first, rfl, hspells⟩ := delimited_decode.run_eq_ok.mp hfirst
      exact .item hspells (ih hlater)
  · intro h
    show readList bytes = .ok specs []
    induction h with
    | stop hmark => exact readList_stop hmark
    | item first later ih => rw [readList_item (first.run delimited_decode _), ih]

theorem shortest_decodeList : decodeList.Shortest (fun specs => ∀ spec ∈ specs, spec.Valid)
    encodeList where
  read hspecs := by
    rw [spells_decodeList]
    refine shortest_decode.listed_encode (fun spec hspec => by cases hspec) ?_
    intro spec hmem spec' hspec
    cases hspec
    exact hspecs spec hmem
  valid h spec hmem := shortest_decode.valid_of_listed (spells_decodeList.mp h) spec hmem spec rfl
  length_le h := shortest_decode.length_le_of_listed (spells_decodeList.mp h)

end AttrSpec

namespace Declaration

/-- The code has 64 bits and the tag 16, neither is zero, and the attributes are valid. -/
structure Valid (d : Declaration) : Prop where
  code : 0 < d.code ∧ d.code < 0x10000000000000000
  tag : 0 < d.tag ∧ d.tag ≤ 0xffff
  attributes : ∀ spec ∈ d.attributes, spec.Valid

/-- `bytes` are a declaration, or the zero after the last one. -/
inductive Spelled : Option Declaration → Bytes → Prop where
  | stop {codeBytes : Bytes} (code : IsUnsigned 0 codeBytes) : Spelled none codeBytes
  | declaration {d : Declaration} {codeBytes tagBytes listBytes : Bytes} (ne_zero : d.code ≠ 0)
    (range : 0 < d.tag ∧ d.tag ≤ 0xffff) (code : IsUnsigned d.code codeBytes)
    (tag : IsUnsigned d.tag tagBytes) (attributes : Listed AttrSpec.decode listBytes d.attributes) :
    Spelled (some d)
      (codeBytes ++ (tagBytes ++ ([if d.hasChildren then 1 else 0] ++ listBytes)))

theorem delimited_decode : Delimited decode := by
  refine delimited_unsigned.bind fun code => .ite (.pure _) ?_
  refine delimited_unsigned.bind fun tag => .ite (.fail _) (.ite (.fail _) ?_)
  refine delimited_byte.bind fun flag => .ite (.fail _) ?_
  exact AttrSpec.delimited_decodeList.bind fun attributes => .pure _

theorem spelled_of_spells {bytes : Bytes} {item : Option Declaration}
    (h : decode.Spells bytes item) : Spelled item bytes := by
  obtain ⟨code, codeBytes, afterCode, rfl, hcode, h⟩ := delimited_unsigned.spells_bind.mp h
  rw [spells_unsigned] at hcode
  split at h
  · next hzero =>
    obtain ⟨rfl, rfl⟩ := spells_pure.mp h
    subst hzero
    rw [List.append_nil]
    exact .stop hcode
  · next hne =>
    obtain ⟨tag, tagBytes, afterTag, rfl, htag, h⟩ := delimited_unsigned.spells_bind.mp h
    rw [spells_unsigned] at htag
    split at h
    · cases h
    split at h
    · cases h
    have hrange : 0 < tag ∧ tag ≤ 0xffff := by omega
    obtain ⟨flag, flagBytes, afterFlag, rfl, hflag, h⟩ := delimited_byte.spells_bind.mp h
    obtain ⟨b, rfl, rfl⟩ := spells_byte.mp hflag
    split at h
    · cases h
    next hsmall =>
    obtain ⟨attributes, listBytes, last, rfl, hlist, h⟩ :=
      AttrSpec.delimited_decodeList.spells_bind.mp h
    obtain ⟨rfl, rfl⟩ := spells_pure.mp h
    rw [AttrSpec.spells_decodeList] at hlist
    rw [List.append_nil]
    -- The flag is 0 or 1, so it is the one that is written.
    have hwritten : b = if decide (b.toNat = 1) = true then 1 else 0 := by
      apply UInt8.toNat_inj.mp
      by_cases hone : b.toNat = 1
      · rw [if_pos (by rw [hone]; rfl), hone]
        rfl
      · rw [if_neg (by rw [decide_eq_true_iff]; exact hone)]
        show b.toNat = 0
        omega
    generalize decide (b.toNat = 1) = hasChildren at hwritten ⊢
    subst hwritten
    exact .declaration hne hrange hcode htag hlist

theorem spells_decode {bytes : Bytes} {item : Option Declaration} :
    decode.Spells bytes item ↔ Spelled item bytes := by
  constructor
  · exact spelled_of_spells
  · intro h
    cases h with
    | stop hcode =>
      exact delimited_unsigned.spells_bind.mpr
        ⟨0, bytes, [], (List.append_nil _).symm, spells_unsigned.mpr hcode, rfl⟩
    | @declaration d codeBytes tagBytes listBytes hne hrange hcode htag hlist =>
      refine delimited_unsigned.spells_bind.mpr
        ⟨d.code, codeBytes, _, rfl, spells_unsigned.mpr hcode, ?_⟩
      rw [if_neg hne]
      refine delimited_unsigned.spells_bind.mpr
        ⟨d.tag, tagBytes, _, rfl, spells_unsigned.mpr htag, ?_⟩
      rw [if_neg (by omega), if_neg (by omega)]
      refine delimited_byte.spells_bind.mpr
        ⟨_, [if d.hasChildren then 1 else 0], listBytes, rfl, spells_byte.mpr ⟨_, rfl, rfl⟩, ?_⟩
      have hsmall : ¬ 1 < (if d.hasChildren then (1 : UInt8) else 0).toNat := by
        cases d.hasChildren <;> decide
      rw [if_neg hsmall]
      refine AttrSpec.delimited_decodeList.spells_bind.mpr
        ⟨d.attributes, listBytes, [], (List.append_nil _).symm,
          AttrSpec.spells_decodeList.mpr hlist, spells_pure.mpr ⟨rfl, ?_⟩⟩
      obtain ⟨code, tag, hasChildren, attributes⟩ := d
      cases hasChildren <;> rfl

theorem shortest_decode : decode.Shortest (fun item => ∀ d ∈ item, d.Valid)
    (fun item => item.elim [0] encode) where
  read {item} hitem := by
    rw [spells_decode]
    cases item with
    | none => exact .stop isUnsigned_zero
    | some d =>
      have hvalid : d.Valid := hitem d rfl
      have hlist := AttrSpec.shortest_decodeList.read hvalid.attributes
      rw [AttrSpec.spells_decodeList] at hlist
      have hcode := isUnsigned_encode hvalid.code.2
      have htag : IsUnsigned d.tag (encodeUnsigned d.tag) :=
        isUnsigned_encode (by have := hvalid.tag; omega)
      show Spelled (some d) d.encode
      rw [encode, List.append_assoc, List.append_assoc]
      exact .declaration (Nat.ne_of_gt hvalid.code.1) hvalid.tag hcode htag hlist
  valid {bytes item} h := by
    rw [spells_decode] at h
    intro d hd
    cases h with
    | stop => cases hd
    | declaration hne hrange hcode htag hlist =>
      cases hd
      refine ⟨⟨Nat.pos_of_ne_zero hne, hcode.fits⟩, hrange, ?_⟩
      exact AttrSpec.shortest_decodeList.valid (AttrSpec.spells_decodeList.mpr hlist)
  length_le {bytes item} h := by
    rw [spells_decode] at h
    cases h with
    | stop hcode =>
      have hlength := hcode.length_le
      rw [encodeUnsigned, if_pos (by decide)] at hlength
      exact hlength
    | @declaration d codeBytes tagBytes listBytes hne hrange hcode htag hlist =>
      have hcodeLength := hcode.length_le
      have htagLength := htag.length_le
      have hlistLength :=
        AttrSpec.shortest_decodeList.length_le (AttrSpec.spells_decodeList.mpr hlist)
      show d.encode.length ≤ _
      rw [encode]
      simp only [List.length_append, List.length_singleton]
      omega

end Declaration

end Dwarf
