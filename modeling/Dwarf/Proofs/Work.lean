import Dwarf.Proofs.Abbrev.Table
import Dwarf.Proofs.Attribute.Indirect
import Dwarf.Proofs.Bytes.Metered
import Dwarf.Proofs.Info.Units
import Dwarf.Proofs.Info.Walk
import Dwarf.Proofs.Machine.Abbrev
import Dwarf.StringTable
/-!
# Reading takes no more work than there are bytes

An attribute may take no bytes, and so may all the attributes of an entry, so it is not obvious
that a few bytes cannot make a reader go on for long. What keeps it from doing so is something
small in each loop: the code in front of an entry, each of the form codes that lead to another
one, the two numbers of a specification, the code of a declaration. Here the loops are written out
with these as the items to be counted. An item counts as soon as there is a byte to begin it with,
whether or not it can be read.

> `meters_formCode`, `meters_table`, `pays_entries`: each loop ends, reads what the decoder reads,
> and has begun no more items than it has taken bytes.
>
> `Cursor.mul_length_items_le`: items that take so many bytes are so many times fewer than bytes.
>
> `work_bounded`: what all readers do, in terms of what they are given.

That all of these items are counted, and not only some, is said of each loop as well.

> `counts_table`, `counts_entries`, `run_attributeOf_links`: how much is counted when a table or the
> entries of a unit have been read, and on the way to the form of an attribute.
-/

namespace Dwarf

open Decoder

theorem AttrSpec.hungry_decode : Hungry AttrSpec.decode := by
  refine hungry_unsigned.bind fun name => forward_unsigned.bind fun form => ?_
  refine .ite (.pure _) (.ite (.fail _) (.ite (.fail _) (.ite (.fail _) (.ite (.fail _) ?_))))
  exact .ite (forward_signed.bind fun const => .pure _) (.pure _)

namespace Metered

/-! ### Attributes -/

/-- The code of a form. Each code in place of another one is an item. -/
def formCode (code : Nat) : Metered Nat :=
  loop (fun code =>
    if code = Form.indirectCode then do
      let next ← item unsigned
      if 0xffff < next then fail (.formRange next) else return .inl next
    else return .inr code) code

/-- The attribute that `spec` describes. -/
def attributeOf (enc : Encoding) (spec : AttrSpec) : Metered Attribute := do
  let code ← formCode spec.form
  free (Attribute.decodeAs enc spec code)

theorem meters_formCode (code : Nat) : (formCode code).Meters (Form.resolve code) := by
  refine Meters.loop (fun code => ?_) Machine.Reader.loops_resolve code
  refine .ite (.bind (meters_item forward_unsigned hungry_unsigned) fun next => ?_) (meters_pure _)
  exact .ite (meters_fail _) (meters_pure _)

theorem meters_attributeOf (enc : Encoding) (spec : AttrSpec) :
    (attributeOf enc spec).Meters (Attribute.decode enc spec) :=
  (meters_formCode spec.form).bind fun code =>
    meters_free (Attribute.forward_decodeAs enc spec code)

/-! ### Abbreviation tables -/

/-- The specifications up to the pair of zeros that ends their list. Each one, and the pair of
zeros, is an item. -/
def specs : Metered (List AttrSpec) :=
  loop (fun specs => do
    let next ← item AttrSpec.decode
    match next with
    | none => return .inr specs
    | some spec => return .inl (specs ++ [spec])) []

/-- A declaration, or `none` for the zero code that ends a table. The code is an item, and so is
each specification. -/
def declaration : Metered (Option Declaration) := do
  let code ← item unsigned
  if code = 0 then return none
  else
    let tag ← free unsigned
    if tag = 0 then fail .zeroTag
    else if 0xffff < tag then fail (.tagRange tag)
    else
      let flag ← free byte
      if 1 < flag then fail (.childrenFlag flag)
      else
        let attributes ← specs
        return some { code, tag, hasChildren := flag = 1, attributes }

/-- One table. Its declarations and all of their specifications are items. -/
def table : Metered AbbrevTable :=
  loop (fun t => do
    let next ← declaration
    match next with
    | none => return .inr t
    | some d =>
      match t.insert? d with
      | none => fail (.duplicateCode d.code)
      | some t => return .inl t) .empty

theorem meters_specs : specs.Meters AttrSpec.decodeList := by
  rw [← Machine.specsAfter_nil]
  refine Meters.loop (fun specs => ?_) Machine.loops_specs []
  refine .bind (meters_item AttrSpec.forward_decode AttrSpec.hungry_decode) fun next => ?_
  cases next with
  | none => exact meters_pure _
  | some spec => exact meters_pure _

theorem meters_declaration : declaration.Meters Declaration.decode := by
  refine (meters_item forward_unsigned hungry_unsigned).bind fun code => ?_
  refine .ite (meters_pure _) ((meters_free forward_unsigned).bind fun tag => ?_)
  refine .ite (meters_fail _) (.ite (meters_fail _) ?_)
  refine (meters_free forward_byte).bind fun flag => .ite (meters_fail _) ?_
  exact meters_specs.bind fun attributes => meters_pure _

theorem meters_table : table.Meters AbbrevTable.decode := by
  refine Meters.loop (fun t => ?_) Machine.loops_table .empty
  refine meters_declaration.bind fun next => ?_
  cases next with
  | none => exact meters_pure _
  | some d =>
    simp only
    cases t.insert? d with
    | none => exact meters_fail _
    | some t => exact meters_pure _

-- A declaration, its specification, the zeros behind that, and the zero code.
example : (table.run [1, 0x11, 0, 3, 0x0e, 0, 0, 0]).map (·.2) = some 4 := by cbv

/-! ### Entries -/

/-- Between two entries of a unit. -/
structure Between where
  /-- The entries that have been read. -/
  found : List Entry
  /-- The indices of those whose children are being read, innermost first. -/
  scopes : List Nat
  /-- Where the next entry starts in its section. -/
  offset : Nat

/-- The entry at a position, or `none` for the zero code that ends a list of children. The code is
an item, however many attributes there are. -/
def entry (enc : Encoding) (table : AbbrevTable) (offset : Nat) (scopes : List Nat) :
    Metered (Option Entry) := do
  let code ← item unsigned
  if code = 0 then return none
  else
    match table.get? code with
    | none => fail (.unknownCode code)
    | some d =>
      let attributes ← free (Attribute.decodeAll enc d.attributes)
      return some {
        offset
        depth := scopes.length
        code
        tag := d.tag
        hasChildren := d.hasChildren
        parent := scopes.head?
        attributes }

/-- One entry more, or the end of a list of children, or all entries at the end of the unit. -/
def entriesStep (enc : Encoding) (table : AbbrevTable) (s : Between) :
    Metered (Between ⊕ List Entry) := do
  let size ← remaining
  if size = 0 then
    if s.scopes.isEmpty then return .inr s.found else fail (.openScopes s.scopes.length)
  else
    let next ← entry enc table s.offset s.scopes
    let left ← remaining
    let offset := s.offset + (size - left)
    match next with
    | none =>
      match s.scopes with
      | [] => fail .nullWithoutScope
      | _ :: outer =>
        if outer.isEmpty && left != 0 then fail .trailingEntries
        else return .inl { s with scopes := outer, offset }
    | some e =>
      let scopes := if e.hasChildren then s.found.length :: s.scopes else s.scopes
      return .inl { found := s.found ++ [e], scopes, offset }

/-- The entries of a unit, of which the first starts at an offset. -/
def entries (enc : Encoding) (table : AbbrevTable) (offset : Nat) : Metered (List Entry) :=
  loop (entriesStep enc table) { found := [], scopes := [], offset }

theorem meters_entry (enc : Encoding) (table : AbbrevTable) (offset : Nat) (scopes : List Nat) :
    (entry enc table offset scopes).Meters (Entry.decode enc table offset scopes) := by
  refine (meters_item forward_unsigned hungry_unsigned).bind fun code => ?_
  refine .ite (meters_pure _) ?_
  cases table.get? code with
  | none => exact meters_fail _
  | some d =>
    exact (meters_free (Attribute.forward_decodeAll enc d.attributes)).bind fun _ => meters_pure _

/-- What `entriesStep` reads. -/
def entriesAfterStep (enc : Encoding) (table : AbbrevTable) (s : Between) :
    Decoder (Between ⊕ List Entry) where
  run bs :=
    if bs.isEmpty then
      if s.scopes.isEmpty then .ok (.inr s.found) bs else .fault (.openScopes s.scopes.length) bs
    else match (Entry.decode enc table s.offset s.scopes).run bs with
      | .fault cause rest => .fault cause rest
      | .ok none rest =>
        match s.scopes with
        | [] => .fault .nullWithoutScope rest
        | _ :: outer =>
          if outer.isEmpty && !rest.isEmpty then .fault .trailingEntries rest
          else .ok (.inl {
            found := s.found
            scopes := outer
            offset := s.offset + (bs.length - rest.length) }) rest
      | .ok (some e) rest =>
        .ok (.inl {
          found := s.found ++ [e]
          scopes := if e.hasChildren then s.found.length :: s.scopes else s.scopes
          offset := s.offset + (bs.length - rest.length) }) rest

theorem meters_entriesStep (enc : Encoding) (table : AbbrevTable) (s : Between) :
    (entriesStep enc table s).Meters (entriesAfterStep enc table s) := by
  intro bs
  refine (pays_remaining bs).bind ?_
  simp only [entriesAfterStep]
  by_cases hnil : bs.isEmpty = true
  · rw [if_pos hnil, if_pos (List.isEmpty_iff_length_eq_zero.mp hnil)]
    by_cases hscopes : s.scopes.isEmpty = true
    · rw [if_pos hscopes, if_pos hscopes]
      exact pays_pure _ bs
    · rw [if_neg hscopes, if_neg hscopes]
      exact pays_fail _ bs
  · rw [if_neg hnil, if_neg fun h => hnil (List.isEmpty_iff_length_eq_zero.mpr h)]
    have hentry := meters_entry enc table s.offset s.scopes bs
    cases hrun : (Entry.decode enc table s.offset s.scopes).run bs with
    | fault cause rest =>
      rw [hrun] at hentry
      exact hentry.bind_fault
    | ok next rest =>
      rw [hrun] at hentry
      refine hentry.bind ((pays_remaining rest).bind ?_)
      cases next with
      | none =>
        cases s.scopes with
        | nil => exact pays_fail _ rest
        | cons scope outer =>
          have hleft : (rest.length != 0) = !rest.isEmpty := by cases rest <;> rfl
          simp only [hleft]
          by_cases htrailing : (outer.isEmpty && !rest.isEmpty) = true
          · rw [if_pos htrailing, if_pos htrailing]
            exact pays_fail _ rest
          · rw [if_neg htrailing, if_neg htrailing]
            exact pays_pure _ rest
      | some e => exact pays_pure _ rest

theorem entriesAfterStep_more {enc : Encoding} {table : AbbrevTable} {s next : Between}
    {bs rest : Bytes} (h : (entriesAfterStep enc table s).run bs = .ok (.inl next) rest) :
    rest.length < bs.length := by
  simp only [entriesAfterStep] at h
  split at h
  · split at h <;> cases h
  · split at h
    · cases h
    · next rest' hrun =>
      split at h
      · cases h
      · split at h <;> cases h
        exact Entry.consuming_decode _ _ _ _ hrun
    · next e rest' hrun =>
      cases h
      exact Entry.consuming_decode _ _ _ _ hrun

/-- The entries that have been found and those that the walk finds from here on. -/
def allFrom (enc : Encoding) (table : AbbrevTable) (s : Between) (bs : Bytes) :
    Except Fault (List Entry) :=
  (Entry.walk enc table s.found.length s.scopes ⟨s.offset, bs⟩).complete.map (s.found ++ ·)

theorem complete_map_cons (found : List Entry) (e : Entry) (p : Progress Entry) :
    (p.cons e).complete.map (found ++ ·) = p.complete.map (found ++ [e] ++ ·) := by
  simp only [Progress.complete, Progress.cons]
  cases p.fault with
  | none => simp [Except.map]
  | some cause => rfl

theorem allFrom_eq (enc : Encoding) (table : AbbrevTable) (s : Between) (bs : Bytes) :
    allFrom enc table s bs =
      answerOf (allFrom enc table) ((entriesAfterStep enc table s).run bs) := by
  simp only [entriesAfterStep]
  rw [allFrom, Entry.walk_eq_decode]
  by_cases hnil : bs.isEmpty = true
  · rw [if_pos hnil, if_pos hnil]
    by_cases hscopes : s.scopes.isEmpty = true
    · rw [if_pos hscopes, if_pos hscopes]
      show Except.ok (s.found ++ []) = Except.ok s.found
      rw [List.append_nil]
    · rw [if_neg hscopes, if_neg hscopes]
      rfl
  · rw [if_neg hnil, if_neg hnil]
    simp only
    cases (Entry.decode enc table s.offset s.scopes).run bs with
    | fault cause rest => rfl
    | ok next rest =>
      cases next with
      | none =>
        cases s.scopes with
        | nil => rfl
        | cons scope outer =>
          simp only
          by_cases htrailing : (outer.isEmpty && !rest.isEmpty) = true
          · rw [if_pos htrailing, if_pos htrailing]
            rfl
          · rw [if_neg htrailing, if_neg htrailing]
            rfl
      | some e =>
        simp only [complete_map_cons, answerOf, allFrom, List.length_append, List.length_singleton]
        rfl

theorem pays_entries (h : UnitHeader) (table : AbbrevTable) : ∃ outcome,
    (entries h.encoding table h.entriesOffset).Pays h.entries outcome ∧
      outcome.toExcept = (Entry.all h table).complete := by
  obtain ⟨outcome, hpays, hanswer⟩ := pays_loop_answer (meters_entriesStep h.encoding table)
    entriesAfterStep_more (allFrom_eq h.encoding table) ⟨[], [], h.entriesOffset⟩ h.entries
  refine ⟨outcome, hpays, ?_⟩
  rw [hanswer, allFrom]
  show (Entry.all h table).complete.map ([] ++ ·) = (Entry.all h table).complete
  cases (Entry.all h table).complete <;> rfl

/-! ### What is counted -/

/-- Each specification is counted, and the pair of zeros behind them. -/
theorem counts_specs : specs.Counts fun specs count => count = specs.length + 1 := by
  refine .loop (I := fun specs count => count = specs.length) (fun specs count hcount => ?_) rfl
  refine (Counts.item AttrSpec.consuming_decode).bind fun next more hmore => ?_
  cases next with
  | none => exact .pure (by omega)
  | some spec =>
    refine .pure ?_
    show count + (more + 0) = (specs ++ [spec]).length
    rw [List.length_append, List.length_singleton]
    omega

/-- The items of a declaration are its code, its specifications, and the pair of zeros. -/
theorem counts_declaration : declaration.Counts fun next count =>
    count = next.elim 1 fun d => d.attributes.length + 2 := by
  refine (Counts.item consuming_unsigned).bind fun code count hcount => ?_
  refine .ite (fun _ => .pure hcount) fun _ => ?_
  refine Counts.free.bind fun tag more hmore => ?_
  refine .ite (fun _ => .fail _) fun _ => .ite (fun _ => .fail _) fun _ => ?_
  refine Counts.free.bind fun flag more' hmore' => ?_
  refine .ite (fun _ => .fail _) fun _ => ?_
  refine counts_specs.bind fun attributes later hlater => .pure ?_
  show count + (more + (more' + (later + 0))) = attributes.length + 2
  omega

/-- The items of some declarations: for each one, and for the zeros that end it, and for each
specification. -/
def itemsOf (ds : List Declaration) : Nat :=
  ds.length + ds.length + (ds.flatMap (·.attributes)).length

/-- **Each declaration of a table is counted, and each of its specifications**, and so are the zeros
that end them and the table. -/
theorem counts_table : table.Counts fun t count => count = itemsOf t.toList + 1 := by
  refine .loop (I := fun t count => count = itemsOf t.toList) (fun t count hcount => ?_) rfl
  refine counts_declaration.bind fun next more hmore => ?_
  cases next with
  | none =>
    refine .pure ?_
    show count + (more + 0) = itemsOf t.toList + 1
    rw [hcount, hmore]
    rfl
  | some d =>
    simp only
    cases hinsert : t.insert? d with
    | none => exact .fail _
    | some t' =>
      have hmore : more = d.attributes.length + 2 := hmore
      refine .pure ?_
      show count + (more + 0) = itemsOf t'.toList
      rw [hcount, AbbrevTable.toList_of_insert? hinsert, itemsOf, itemsOf, List.flatMap_append,
        List.length_append, List.length_append, List.flatMap_singleton, List.length_singleton]
      omega

theorem counts_entry (enc : Encoding) (table : AbbrevTable) (offset : Nat) (scopes : List Nat) :
    (entry enc table offset scopes).Counts fun _ count => count = 1 := by
  refine (Counts.item consuming_unsigned).bind fun code count hcount => ?_
  refine .ite (fun _ => .pure hcount) fun _ => ?_
  cases table.get? code with
  | none => exact .fail _
  | some d =>
    exact Counts.free.bind fun attributes more hmore => .pure (by omega)

/-- What was counted between two entries: those found, and the zero codes that have ended the
children of some of them. -/
def Between.Counted (s : Between) (count : Nat) : Prop :=
  count + s.scopes.length = s.found.length + s.found.countP (·.hasChildren)

theorem counts_entriesStep (enc : Encoding) (table : AbbrevTable) {s : Between} {count : Nat}
    (hcount : s.Counted count) : (entriesStep enc table s).Counts fun result more =>
      match result with
      | .inl next => next.Counted (count + more)
      | .inr found => count + more = found.length + found.countP (·.hasChildren) := by
  refine Counts.remaining.bind fun size idle hidle => ?_
  refine .ite (fun _ => .ite (fun hscopes => .pure ?_) fun _ => .fail _) fun _ => ?_
  · have hclosed := List.isEmpty_iff_length_eq_zero.mp hscopes
    rw [Between.Counted, hclosed] at hcount
    show count + (idle + 0) = s.found.length + s.found.countP (·.hasChildren)
    omega
  refine (counts_entry enc table s.offset s.scopes).bind fun next one hone => ?_
  refine Counts.remaining.bind fun left idle' hidle' => ?_
  cases next with
  | none =>
    simp only
    cases hscopes : s.scopes with
    | nil => exact .fail _
    | cons scope outer =>
      refine .ite (fun _ => .fail _) fun _ => .pure ?_
      rw [Between.Counted, hscopes, List.length_cons] at hcount
      show count + (idle + (one + (idle' + 0))) + outer.length =
        s.found.length + s.found.countP (·.hasChildren)
      omega
  | some e =>
    refine .pure ?_
    rw [Between.Counted] at hcount
    show count + (idle + (one + (idle' + 0))) +
      (if e.hasChildren then s.found.length :: s.scopes else s.scopes).length =
        (s.found ++ [e]).length + (s.found ++ [e]).countP (·.hasChildren)
    rw [List.length_append, List.countP_append, List.length_singleton, List.countP_singleton]
    by_cases hchildren : e.hasChildren = true
    · rw [if_pos hchildren, if_pos hchildren, List.length_cons]
      omega
    · rw [if_neg hchildren, if_neg hchildren]
      omega

/-- **Each entry of a unit is counted**, and for each that has children the zero code that ends
them. -/
theorem counts_entries (enc : Encoding) (table : AbbrevTable) (offset : Nat) :
    (entries enc table offset).Counts fun found count =>
      count = found.length + found.countP (·.hasChildren) := by
  refine .loop (I := Between.Counted) (fun s count hcount => ?_) rfl
  intro bs result rest more hrun
  have htold := counts_entriesStep enc table hcount hrun
  cases result with
  | inl next => exact htold
  | inr found => exact htold

theorem run_formCode_of_ne {code : Nat} (h : code ≠ Form.indirectCode) (bs : Bytes) :
    (formCode code).run bs = some (.ok code bs, 0) := by
  show loopFrom _ code bs = _
  rw [loopFrom, if_neg h]
  rfl

/-- An indirect code leads to a code, which is counted, and to those that this one leads to. -/
theorem run_formCode_of_ok {code : Nat} {bs rest : Bytes} (h : unsigned.run bs = .ok code rest) :
    (formCode Form.indirectCode).run bs =
      if 0xffff < code then some (.fault (.formRange code) rest, 1)
      else ((formCode code).run rest).map fun (outcome, more) => (outcome, 1 + more) := by
  have hless := consuming_unsigned h
  have hsome := consuming_unsigned.isEmpty_eq_false h
  show loopFrom _ Form.indirectCode bs = _
  rw [loopFrom, if_pos rfl]
  by_cases hrange : 0xffff < code
  · simp only [Bind.bind, item, h, hsome, hrange, if_true, fail]
    rfl
  · simp only [Bind.bind, item, h, hsome, hrange, if_false, Pure.pure]
    exact dif_pos hless

theorem run_formCode_of_fault {cause : Fault} {bs rest : Bytes}
    (h : unsigned.run bs = .fault cause rest) : (formCode Form.indirectCode).run bs =
      some (.fault cause rest, if bs.isEmpty then 0 else 1) := by
  show loopFrom _ Form.indirectCode bs = _
  rw [loopFrom, if_pos rfl]
  simp only [Bind.bind, item, h]

/-- At the end of a chain of indirect codes there is one code more, if there is a byte for it. -/
theorem run_formCode_of_settles {bs : Bytes} (h : Form.Settles bs) : ∃ outcome,
    (formCode Form.indirectCode).run bs = some (outcome, if bs.isEmpty then 0 else 1) := by
  rcases h with ⟨code, number, rest, rfl, hnumber, hcode⟩ | ⟨cause, rest, hfault⟩
  · have hrun := hnumber.run rest
    rw [run_formCode_of_ok hrun, consuming_unsigned.isEmpty_eq_false hrun]
    by_cases hrange : 0xffff < code
    · exact ⟨_, if_pos hrange⟩
    · rw [if_neg hrange, run_formCode_of_ne hcode]
      exact ⟨_, rfl⟩
  · exact ⟨_, run_formCode_of_fault hfault⟩

theorem run_formCode_links {links : List Bytes}
    (hlinks : ∀ link ∈ links, Leb128.IsUnsigned Form.indirectCode link) {bs : Bytes}
    (hend : Form.Settles bs) : ∃ outcome, (formCode Form.indirectCode).run (links.flatten ++ bs) =
      some (outcome, links.length + if bs.isEmpty then 0 else 1) := by
  induction links with
  | nil =>
    obtain ⟨outcome, hrun⟩ := run_formCode_of_settles hend
    exact ⟨outcome, by rw [List.length_nil, Nat.zero_add]; exact hrun⟩
  | cons link links ih =>
    obtain ⟨outcome, hrun⟩ := ih fun other hother => hlinks other (List.mem_cons_of_mem link hother)
    have hlink := (hlinks link List.mem_cons_self).run (links.flatten ++ bs)
    refine ⟨outcome, ?_⟩
    rw [List.flatten_cons, List.append_assoc, run_formCode_of_ok hlink, if_neg (by decide), hrun,
      List.length_cons, Nat.add_comm links.length 1, Nat.add_assoc]
    rfl

/-- **Each form code that is read is counted**, and so is one that is begun and cannot be read.
All bytes are such a chain of codes, by `Form.exists_links`. -/
theorem run_attributeOf_links (enc : Encoding) {spec : AttrSpec}
    (hform : spec.form = Form.indirectCode) {links : List Bytes}
    (hlinks : ∀ link ∈ links, Leb128.IsUnsigned Form.indirectCode link) {bs : Bytes}
    (hend : Form.Settles bs) : ∃ outcome, (attributeOf enc spec).run (links.flatten ++ bs) =
      some (outcome, links.length + if bs.isEmpty then 0 else 1) := by
  obtain ⟨outcome, hrun⟩ := run_formCode_links hlinks hend
  rw [← hform] at hrun
  cases outcome with
  | fault cause rest => exact ⟨.fault cause rest, by simp only [attributeOf, Bind.bind, hrun]⟩
  | ok code rest =>
    refine ⟨(Attribute.decodeAs enc spec code).run rest, ?_⟩
    simp only [attributeOf, Bind.bind, hrun, free, Option.map_some, Nat.add_zero]

end Metered

/-! ### Sections -/

theorem UnitFields.takes_decodeSizes (order : ByteOrder) (format : Format) (version : Nat) :
    Takes 5 (UnitFields.decodeSizes order format version) := by
  have hoffset : Takes 4 (Decoder.offset order format) :=
    (takes_uint order format.wordSize).of_le (by cases format <;> decide)
  have hlater : Takes 6 (do
      let code ← byte
      let addressSize ← byte
      let abbrevOffset ← Decoder.offset order format
      return (code, addressSize, abbrevOffset)) :=
    takes_byte.bind fun _ => takes_byte.bind fun _ => hoffset.bind fun _ => .pure _
  exact .ite (hlater.of_le (by decide)) (hoffset.bind fun _ => takes_byte.bind fun _ => .pure _)

/-- The shortest fields are those of version 2 in the 32-bit format. -/
theorem UnitFields.takes_decode (order : ByteOrder) (format : Format) :
    Takes 7 (UnitFields.decode order format) :=
  (takes_uint order 2).bind fun version => .ite (.fail _ _)
    ((UnitFields.takes_decodeSizes order format version).bind fun _ => .ite (.fail _ _)
      ((UnitKind.forward_decode order format _).takes.bind fun _ => .pure _))

theorem takes_initialLength (order : ByteOrder) : Takes 4 (initialLength order) :=
  (takes_uint order 4).bind fun _ =>
    .ite (.pure _) (.ite ((forward_uint order 8).bind fun _ => .pure _).takes (.fail _ _))

/-- A unit takes its length and its fields, even if it has no entries. -/
theorem UnitHeader.takes_decode (order : ByteOrder) (offset : Nat) :
    Takes 11 (UnitHeader.decode order offset) := by
  intro bs h rest hrun
  obtain ⟨⟨length, format⟩, mid, hinit, hafter⟩ := run_bind_eq_ok.mp hrun
  obtain ⟨body, mid', htake, hbody⟩ := run_bind_eq_ok.mp hafter
  obtain ⟨⟨fields, entries⟩, mid'', hfields, hheader⟩ := run_bind_eq_ok.mp hbody
  obtain ⟨rfl, hlength⟩ := take_eq_ok (reporting_eq_ok htake)
  obtain ⟨rfl, hinner⟩ := within_eq_ok hfields
  cases hheader
  have hfirst := takes_initialLength order hinit
  have hlater := UnitFields.takes_decode order format hinner
  rw [List.length_append] at hfirst
  omega

namespace Cursor

variable {α : Type} {item : Item α}

theorem mul_length_items_le {width : Nat} (h : ∀ offset, Takes width (item.decode offset))
    (c : Cursor) : width * (c.run item).items.length ≤ c.rest.length := by
  fun_induction run item c with
  | case1 c hnil => exact Nat.zero_le _
  | case2 c hcons value rest hrun ih =>
    have htaken := h c.offset hrun
    have hlater : width * ((c.advance rest).run item).items.length ≤ rest.length := ih
    show width * (((c.advance rest).run item).items.length + 1) ≤ c.rest.length
    rw [Nat.mul_succ]
    omega
  | case3 c hcons cause rest hrun => exact Nat.zero_le _

/-- There are no more items than bytes. -/
theorem length_items_le (item : Item α) (c : Cursor) :
    (c.run item).items.length ≤ c.rest.length := by
  have h := mul_length_items_le (fun offset => (item.consuming offset).takes) c
  rwa [Nat.one_mul] at h

/-- An iterator gives the items and then the fault, if there is one. Then it gives nothing, however
often it is asked. -/
def Ends (item : Item α) (c : Cursor) : Prop :=
  ∀ count, c.answer item count = .ok none ↔
    (c.run item).items.length + (if (c.run item).fault.isSome then 1 else 0) ≤ count

theorem ends (item : Item α) (c : Cursor) : c.Ends item := by
  intro count
  rw [answer_eq, Progress.answer]
  generalize c.run item = p
  cases hvalue : p.items[count]? with
  | some value =>
    have hlt := (List.getElem?_eq_some_iff.mp hvalue).1
    constructor
    · intro h
      cases h
    · omega
  | none =>
    have hge := List.getElem?_eq_none_iff.mp hvalue
    cases p.fault with
    | none => exact ⟨fun _ => hge, fun _ => rfl⟩
    | some cause =>
      show (if count = p.items.length then Except.error cause else .ok none) = .ok none ↔
        p.items.length + 1 ≤ count
      by_cases hlast : count = p.items.length
      · rw [if_pos hlast]
        constructor
        · intro h
          cases h
        · omega
      · rw [if_neg hlast]
        exact ⟨fun _ => by omega, fun _ => rfl⟩

end Cursor

/-- **Every reader ends, and does no more than there are bytes.** The loop over the entries of a
unit, with any table, comes to the same entries or the same fault, and begins no more entries and
ends of lists than there are bytes; the one over the form codes of an attribute no more codes; and
the loops of a table, taken together, no more declarations and specifications. In none of them is
there a turn that takes nothing and is followed by another.

A section of units has a header for every eleven bytes at most, and the other sections an item for
every byte. Each iterator gives these, and a fault if there is one, and after that nothing. -/
theorem work_bounded :
    (∀ (h : UnitHeader) (t : AbbrevTable), ∃ outcome count,
      (Metered.entries h.encoding t h.entriesOffset).run h.entries = some (outcome, count) ∧
        outcome.toExcept = (Entry.all h t).complete ∧ count ≤ h.entries.length) ∧
    (∀ (enc : Encoding) (spec : AttrSpec) (bs : Bytes), ∃ count,
      (Metered.attributeOf enc spec).run bs = some ((Attribute.decode enc spec).run bs, count) ∧
        count ≤ bs.length) ∧
    (∀ bs : Bytes, ∃ count, Metered.table.run bs = some (AbbrevTable.decode.run bs, count) ∧
      count ≤ bs.length) ∧
    (∀ (order : ByteOrder) (info : Bytes),
      (UnitHeader.all order info).items.length ≤ info.length / 11 ∧
        (Cursor.atStart info).Ends (UnitHeader.item order)) ∧
    (∀ contents : Bytes, (AbbrevTable.tables contents).items.length ≤ contents.length ∧
      (Cursor.atStart contents).Ends AbbrevTable.item) ∧
    (∀ contents : Bytes, (strings contents).items.length ≤ contents.length ∧
      (Cursor.atStart contents).Ends stringItem) := by
  refine ⟨?_, ?_, ?_, ?_, ?_, ?_⟩
  · intro h t
    obtain ⟨outcome, hpays, hentries⟩ := Metered.pays_entries h t
    obtain ⟨count, hrun, hcount⟩ := hpays.exists_count
    exact ⟨outcome, count, hrun, hentries, hcount⟩
  · intro enc spec bs
    exact (Metered.meters_attributeOf enc spec bs).exists_count
  · intro bs
    exact (Metered.meters_table bs).exists_count
  · intro order info
    have htakes : ∀ offset, Takes 11 ((UnitHeader.item order).decode offset) :=
      UnitHeader.takes_decode order
    have hcount := Cursor.mul_length_items_le htakes (.atStart info)
    have hlength : (Cursor.atStart info).rest.length = info.length := rfl
    refine ⟨?_, Cursor.ends _ _⟩
    show ((Cursor.atStart info).run (UnitHeader.item order)).items.length ≤ info.length / 11
    omega
  · intro contents
    exact ⟨Cursor.length_items_le _ _, Cursor.ends _ _⟩
  · intro contents
    exact ⟨Cursor.length_items_le _ _, Cursor.ends _ _⟩

end Dwarf
