import Dwarf.Proofs.Abbrev.Table
import Dwarf.Proofs.Machine.Attribute
/-!
# Abbreviation tables in the operations of a machine

Declarations and their specifications are made by functions that insist on what their readers
have just found out: a code is not zero, and there is a constant exactly where the form stores
one. A table finds a declaration by an index that it keeps beside it, so that the index is one
of the table is the same invariant that makes the lookup right, `AbbrevTable.inStep`.

> `tableAt_eq`: the table at an offset is read without a trap, wherever the offset points.
>
> `nextTable_eq`: the iterator over the tables keeps step with a cursor on the section.
-/

namespace Dwarf

namespace Machine

open Reader

variable {limit : Nat}

/-! ### Declarations -/

/-- Make a specification. Only the form that stores its value here has a constant. -/
def newSpec (name form : Nat) (const : Option Int) : Except Trap AttrSpec :=
  if form = Form.implicitConst.code ↔ const.isSome = true then .ok { name, form, const }
  else .error .constant

/-- A specification, or `none` for the pair of zeros that ends a list. -/
def spec : Reader (Option AttrSpec) := do
  let name ← unsigned
  let form ← unsigned
  if name = 0 ∧ form = 0 then return none
  else if name = 0 then fail .zeroAttributeName
  else if form = 0 then fail .zeroForm
  else if 0xffff < name then fail (.attributeNameRange name)
  else if 0xffff < form then fail (.formRange form)
  else if form = Form.implicitConst.code then
    let const ← signed
    let spec ← lift (newSpec name form (some const))
    return some spec
  else
    let spec ← lift (newSpec name form none)
    return some spec

/-- One specification more, or the end of the list. -/
def specsStep (specs : List AttrSpec) : Reader (List AttrSpec ⊕ List AttrSpec) := do
  let next ← spec
  match next with
  | none => return .inr specs
  | some spec => return .inl (specs ++ [spec])

/-- The specifications up to the pair of zeros that ends their list. -/
def specs : Reader (List AttrSpec) := loop specsStep []

/-- Make a declaration. Its code must not be zero. -/
def newDeclaration (code tag : Nat) (hasChildren : Bool) (attributes : List AttrSpec) :
    Except Trap Declaration :=
  if code = 0 then .error .zeroCode else .ok { code, tag, hasChildren, attributes }

/-- A declaration, or `none` for the zero code that ends a table. -/
def declaration : Reader (Option Declaration) := do
  let code ← unsigned
  if code = 0 then return none
  else
    let tag ← unsigned
    if tag = 0 then fail .zeroTag
    else if 0xffff < tag then fail (.tagRange tag)
    else
      let flag ← byte
      if 1 < flag then fail (.childrenFlag flag)
      else
        let attributes ← specs
        let declaration ← lift (newDeclaration code tag (flag = 1) attributes)
        return some declaration

/-! ### Tables -/

/-- One declaration more, or the end of the table. -/
def tableStep (t : AbbrevTable) : Reader (AbbrevTable ⊕ AbbrevTable) := do
  let next ← declaration
  match next with
  | none => return .inr t
  | some d =>
    match t.insert? d with
    | none => fail (.duplicateCode d.code)
    | some t => return .inl t

/-- One table. -/
def table : Reader AbbrevTable := loop tableStep .empty

/-- The table at `offset` in a section, with the number of bytes it takes. -/
def tableAt (contents : Bytes) (offset : Nat) :
    Except Trap (Except Fault (AbbrevTable × Nat)) :=
  if contents.length < offset then return .error .offsetBounds
  else do
    let start ← behind contents offset
    match ← table.run start with
    | .fault cause _ => return .error cause
    | .ok t rest =>
      let taken ← sub start.length rest.length
      return .ok (t, taken)

/-- The table at the offset that an iterator has reached, and where the next one is. After a
fault there is no next one. -/
def nextTable (contents : Bytes) (offset : Nat) :
    Except Trap (Except Fault (Option (Nat × AbbrevTable)) × Nat) :=
  if contents.length ≤ offset then return (.ok none, offset)
  else do
    match ← tableAt contents offset with
    | .error cause => return (.error cause, contents.length)
    | .ok (t, taken) =>
      let next ← add offset taken
      return (.ok (some (offset, t)), next)

/-- The declaration with this code, at the index that the table has for it. -/
def lookup (t : AbbrevTable) (code : Nat) : Except Trap (Option Declaration) :=
  match t.positions[code]? with
  | none => return none
  | some index => do
    let d ← element t.declarations index
    return some d

/-! ### No traps -/

theorem computes_spec : spec.Computes limit AttrSpec.decode := by
  refine computes_unsigned.bind Decoder.forward_unsigned fun name => ?_
  refine computes_unsigned.bind Decoder.forward_unsigned fun form => ?_
  refine .ite (fun _ => computes_pure _) fun _ => .ite (fun _ => computes_fail _) fun _ => ?_
  refine .ite (fun _ => computes_fail _) fun _ => .ite (fun _ => computes_fail _) fun _ => ?_
  refine .ite (fun _ => computes_fail _) fun _ => .ite (fun hform => ?_) fun hform => ?_
  · refine computes_signed.bind Decoder.forward_signed fun const => ?_
    exact .lift_bind (if_pos (by simp [hform])) (computes_pure _)
  · exact .lift_bind (if_pos (by simp [hform])) (computes_pure _)

/-- What `specsStep` computes. -/
def specsAfterStep (specs : List AttrSpec) : Decoder (List AttrSpec ⊕ List AttrSpec) := do
  let next ← AttrSpec.decode
  match next with
  | none => return .inr specs
  | some spec => return .inl (specs ++ [spec])

/-- The list of which `specs` have been read. -/
def specsAfter (specs : List AttrSpec) : Decoder (List AttrSpec) where
  run bs :=
    match AttrSpec.readList bs with
    | .fault cause rest => .fault cause rest
    | .ok others rest => .ok (specs ++ others) rest

theorem specsAfter_nil : specsAfter [] = AttrSpec.decodeList := by
  refine Decoder.ext fun bs => ?_
  cases hlist : AttrSpec.readList bs <;>
    simp only [specsAfter, AttrSpec.decodeList, hlist, List.nil_append]

theorem computes_specsStep (specs : List AttrSpec) :
    (specsStep specs).Computes limit (specsAfterStep specs) := by
  refine computes_spec.bind AttrSpec.forward_decode fun next => ?_
  cases next with
  | none => exact computes_pure _
  | some spec => exact computes_pure _

theorem loops_specs : Decoder.Loops specsAfterStep specsAfter where
  more {specs bs next rest} h := by
    refine AttrSpec.consuming_decode.bind (fun next => ?_) h
    cases next with
    | none => exact .pure _
    | some spec => exact .pure _
  run specs bs := by
    unfold specsAfterStep specsAfter
    simp only [Decoder.run_bind]
    cases hrun : AttrSpec.decode.run bs with
    | fault cause rest => simp only [AttrSpec.readList_fault hrun]
    | ok next rest =>
      cases next with
      | none => simp only [AttrSpec.readList_stop hrun, List.append_nil, Decoder.run_pure]
      | some spec =>
        simp only [AttrSpec.readList_item hrun, Decoder.run_pure]
        cases AttrSpec.readList rest with
        | fault cause rest' => rfl
        | ok others rest' => simp only [List.append_assoc, List.singleton_append]

theorem computes_specs : specs.Computes limit AttrSpec.decodeList := by
  rw [← specsAfter_nil]
  exact Computes.loop computes_specsStep loops_specs []

theorem computes_declaration : declaration.Computes limit Declaration.decode := by
  refine computes_unsigned.bind Decoder.forward_unsigned fun code => ?_
  refine .ite (fun _ => computes_pure _) fun hcode => ?_
  refine computes_unsigned.bind Decoder.forward_unsigned fun tag => ?_
  refine .ite (fun _ => computes_fail _) fun _ => .ite (fun _ => computes_fail _) fun _ => ?_
  refine computes_byte.bind Decoder.forward_byte fun flag => ?_
  refine .ite (fun _ => computes_fail _) fun _ => ?_
  refine computes_specs.bind AttrSpec.forward_decodeList fun attributes => ?_
  exact .lift_bind (if_neg hcode) (computes_pure _)

/-- What `tableStep` computes. -/
def tableAfterStep (t : AbbrevTable) : Decoder (AbbrevTable ⊕ AbbrevTable) := do
  let next ← Declaration.decode
  match next with
  | none => return .inr t
  | some d =>
    match t.insert? d with
    | none => Decoder.fail (.duplicateCode d.code)
    | some t => return .inl t

theorem computes_tableStep (t : AbbrevTable) :
    (tableStep t).Computes limit (tableAfterStep t) := by
  refine computes_declaration.bind Declaration.forward_decode fun next => ?_
  cases next with
  | none => exact computes_pure _
  | some d =>
    simp only
    cases t.insert? d with
    | none => exact computes_fail _
    | some t => exact computes_pure _

theorem loops_table : Decoder.Loops tableAfterStep fun t => ⟨t.extend⟩ where
  more {t bs next rest} h := by
    refine Declaration.consuming_decode.bind (fun next => ?_) h
    cases next with
    | none => exact .pure _
    | some d =>
      simp only
      cases t.insert? d with
      | none => exact .fail _
      | some t => exact .pure _
  run t bs := by
    unfold tableAfterStep
    simp only [Decoder.run_bind]
    cases hrun : Declaration.decode.run bs with
    | fault cause rest => simp only [AbbrevTable.extend_fault hrun]
    | ok next rest =>
      cases next with
      | none => simp only [AbbrevTable.extend_stop hrun, Decoder.run_pure]
      | some d =>
        simp only [AbbrevTable.extend_item hrun]
        cases t.insert? d <;> rfl

theorem computes_table : table.Computes limit AbbrevTable.decode :=
  Computes.loop computes_tableStep loops_table .empty

/-- The guard of `tableAt` is enough for its slice, whatever the offset is. -/
theorem tableAt_eq (contents : Bytes) (offset : Nat) :
    tableAt contents offset = .ok (AbbrevTable.atOffset contents offset) := by
  unfold tableAt AbbrevTable.atOffset
  by_cases hout : contents.length < offset
  · rw [if_pos hout, if_pos hout]
    rfl
  · rw [if_neg hout, if_neg hout, behind_eq (Nat.le_of_not_lt hout)]
    show (table.run (contents.drop offset) >>= _) = _
    rw [computes_table _ (Nat.le_refl _)]
    cases hrun : AbbrevTable.decode.run (contents.drop offset) with
    | fault cause rest =>
      simp only [hrun]
      rfl
    | ok t rest =>
      have hle := Nat.le_of_lt (AbbrevTable.consuming_decode hrun)
      show (sub (contents.drop offset).length rest.length >>= _) = _
      rw [sub_eq hle]
      simp only [hrun]
      rfl

/-- An iterator over the tables stands at the cursor, or both have come to the end. -/
def AtTable (contents : Bytes) (offset : Nat) (c : Cursor) : Prop :=
  c.On contents ∧ c.offset = offset ∨ c.rest = [] ∧ contents.length ≤ offset

theorem nextTable_eq {contents : Bytes} (hlen : contents.length ≤ maxLength) (offset : Nat)
    (c : Cursor) (h : AtTable contents offset c) :
    ∃ offset', nextTable contents offset = .ok ((c.next AbbrevTable.item).1, offset') ∧
      AtTable contents offset' (c.next AbbrevTable.item).2 := by
  unfold nextTable
  by_cases hend : contents.length ≤ offset
  · have hnil : c.rest = [] := by
      rcases h with ⟨hon, rfl⟩ | ⟨hnil, -⟩
      · rw [hon.rest, List.drop_eq_nil_iff]
        exact hend
      · exact hnil
    rw [if_pos hend, Cursor.next_at_end (List.isEmpty_iff.mpr hnil)]
    exact ⟨offset, rfl, .inr ⟨hnil, hend⟩⟩
  · obtain ⟨hon, rfl⟩ := h.resolve_right fun hout => hend hout.2
    have hne : ¬ c.rest.isEmpty = true := fun hnil =>
      hend (Nat.le_of_eq (hon.offset_eq hnil).symm)
    rw [if_neg hend, tableAt_eq, AbbrevTable.atOffset, if_neg (by omega), Cursor.next, if_neg hne]
    simp only [← hon.rest, AbbrevTable.item, Decoder.run_bind]
    cases hrun : AbbrevTable.decode.run c.rest with
    | fault cause rest => exact ⟨contents.length, rfl, .inr ⟨rfl, Nat.le_refl _⟩⟩
    | ok t rest =>
      have hon' := hon.advance ((AbbrevTable.delimited_decode.ok hrun).elim fun head h =>
        h.1 ▸ List.suffix_append head rest)
      have hinside : c.offset + (c.rest.length - rest.length) ≤ contents.length := hon'.inside
      refine ⟨c.offset + (c.rest.length - rest.length), ?_, .inl ⟨hon', rfl⟩⟩
      show (add c.offset (c.rest.length - rest.length) >>= _) = _
      rw [add_eq (by unfold maxLength at hlen; omega)]
      rfl

/-- The index that a table has for a code is that of a declaration. -/
theorem lookup_eq (t : AbbrevTable) (code : Nat) : lookup t code = .ok (t.get? code) := by
  unfold lookup AbbrevTable.get?
  cases hpos : t.positions[code]? with
  | none => rfl
  | some index =>
    obtain ⟨d, hd, -⟩ := (t.inStep code index).mp hpos
    simp only [element_eq hd, hd]
    rfl

end Machine

end Dwarf
