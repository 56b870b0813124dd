import Dwarf.Proofs.Bytes.Concatenation
import Dwarf.Proofs.Info.Forest
/-!
# Reading the entries of a unit

`Entry.walk` goes through the bytes of a unit once, with nothing but the indices of
the open entries in hand, and never builds a tree. This file shows that it reads
the grammar of `Forest` and nothing else:

> `complete_eq_ok_iff`: a unit is read without a fault exactly when its bytes are
> those of a forest, and what is read is the preorder list of that forest.

From the forest to the walk the induction is on the forest: `walk_forest` passes
over a forest inside open scopes and leaves the scopes as they were. The other
way it is on the walk. The entries that are open then have still to be finished by
the bytes that follow, and `Closes` says what that demands of the bytes: for each
open entry the rest of its children and a null entry, and at the end the rest of
the roots.
-/

namespace Dwarf

namespace Entry

variable {enc : Encoding} {table : AbbrevTable}

/-! ### One step of the walk -/

theorem walk_eq (index : Nat) (scopes : List Nat) (c : Cursor) :
    walk enc table index scopes c =
      if c.rest.isEmpty then
        if scopes.isEmpty then .done else .stop (.openScopes scopes.length)
      else match Decoder.unsigned.run c.rest with
        | .fault cause _ => .stop cause
        | .ok 0 rest =>
          match scopes with
          | [] => .stop .nullWithoutScope
          | _ :: outer =>
            if outer.isEmpty && !rest.isEmpty then .stop .trailingEntries
            else walk enc table index outer (c.advance rest)
        | .ok code rest =>
          match table.get? code with
          | none => .stop (.unknownCode code)
          | some d =>
            match (Attribute.decodeAll enc d.attributes).run rest with
            | .fault cause _ => .stop cause
            | .ok attributes rest =>
              (walk enc table (index + 1) (if d.hasChildren then index :: scopes else scopes)
                (c.advance rest)).cons {
                  offset := c.offset
                  depth := scopes.length
                  code
                  tag := d.tag
                  hasChildren := d.hasChildren
                  parent := scopes.head?
                  attributes } := by
  rw [walk]
  split
  · rfl
  · split
    · next h => simp only [h]
    · next h =>
      rw [h]
      cases scopes with
      | nil => rfl
      | cons _ _ => rfl
    · next code rest hne h =>
      simp only [h]
      cases hd : table.get? code with
      | none => rfl
      | some d =>
        simp only
        split <;> next hattrs => simp only [hattrs]

/-- The entry at a position, or `none` for the zero code that ends a list of children. -/
def decode (enc : Encoding) (table : AbbrevTable) (offset : Nat) (scopes : List Nat) :
    Decoder (Option Entry) := do
  let code ← Decoder.unsigned
  if code = 0 then return none
  else
    match table.get? code with
    | none => Decoder.fail (.unknownCode code)
    | some d =>
      let attributes ← Attribute.decodeAll enc d.attributes
      return some {
        offset
        depth := scopes.length
        code
        tag := d.tag
        hasChildren := d.hasChildren
        parent := scopes.head?
        attributes }

theorem consuming_decode (enc : Encoding) (table : AbbrevTable) (offset : Nat) (scopes : List Nat) :
    Decoder.Consuming (decode enc table offset scopes) := by
  refine Decoder.consuming_unsigned.bind fun code => .ite (.pure _) ?_
  cases table.get? code with
  | none => exact .fail _
  | some d => exact (Attribute.forward_decodeAll enc d.attributes).bind fun _ => .pure _

/-- The walk takes one entry, or one end of a list, at a time. -/
theorem walk_eq_decode (enc : Encoding) (table : AbbrevTable) (index : Nat) (scopes : List Nat)
    (c : Cursor) : walk enc table index scopes c =
      if c.rest.isEmpty then
        if scopes.isEmpty then .done else .stop (.openScopes scopes.length)
      else match (decode enc table c.offset scopes).run c.rest with
        | .fault cause _ => .stop cause
        | .ok none rest =>
          match scopes with
          | [] => .stop .nullWithoutScope
          | _ :: outer =>
            if outer.isEmpty && !rest.isEmpty then .stop .trailingEntries
            else walk enc table index outer (c.advance rest)
        | .ok (some e) rest =>
          (walk enc table (index + 1) (if e.hasChildren then index :: scopes else scopes)
            (c.advance rest)).cons e := by
  rw [walk_eq]
  by_cases hnil : c.rest.isEmpty = true
  · rw [if_pos hnil, if_pos hnil]
  · rw [if_neg hnil, if_neg hnil, decode, Decoder.run_bind]
    cases Decoder.unsigned.run c.rest with
    | fault cause rest => rfl
    | ok code rest =>
      cases code with
      | zero => rfl
      | succ code =>
        simp only [Nat.succ_ne_zero, if_false]
        cases table.get? (code + 1) with
        | none => rfl
        | some d =>
          simp only [Decoder.run_bind]
          cases (Attribute.decodeAll enc d.attributes).run rest <;> rfl

theorem walk_nil (index offset : Nat) :
    walk enc table index [] ⟨offset, []⟩ = .done := by
  rw [walk]
  rfl

theorem run_decode_head {head : EntryHead} (h : head.WellFormed enc table) (offset : Nat)
    (scopes : List Nat) (rest : Bytes) :
    (decode enc table offset scopes).run (head.bytes ++ rest) =
      .ok (some (head.entry offset scopes.length scopes.head?)) rest := by
  have hattrs := (Attribute.spells_decodeAll.mpr ⟨_, h.attributes, rfl, rfl⟩).run
    (Attribute.delimited_decodeAll enc _) rest
  rw [EntryHead.bytes, List.append_assoc, decode, h.code.run_bind, if_neg h.ne_zero]
  simp only [h.declared, Decoder.run_bind, hattrs]
  rfl

theorem run_decode_null {close : Bytes} (h : Leb128.IsUnsigned 0 close) (offset : Nat)
    (scopes : List Nat) (rest : Bytes) :
    (decode enc table offset scopes).run (close ++ rest) = .ok none rest := by
  rw [decode, h.run_bind, if_pos rfl]
  rfl

/-- What the walk does next is said by what is read, where something is. -/
theorem walk_token {bs rest : Bytes} {offset index : Nat} {scopes : List Nat}
    {read : Option Entry} : (decode enc table offset scopes).run (bs ++ rest) = .ok read rest →
    walk enc table index scopes ⟨offset, bs ++ rest⟩ =
      match read with
      | none =>
        match scopes with
        | [] => .stop .nullWithoutScope
        | _ :: outer =>
          if outer.isEmpty && !rest.isEmpty then .stop .trailingEntries
          else walk enc table index outer ⟨offset + bs.length, rest⟩
      | some e =>
        (walk enc table (index + 1) (if e.hasChildren then index :: scopes else scopes)
          ⟨offset + bs.length, rest⟩).cons e := by
  intro hrun
  have hless := consuming_decode enc table offset scopes hrun
  have hne : ¬ (bs ++ rest).isEmpty = true := by
    rw [List.isEmpty_iff_length_eq_zero]
    omega
  have hadvance : Cursor.advance ⟨offset, bs ++ rest⟩ rest = ⟨offset + bs.length, rest⟩ := by
    simp [Cursor.advance]
  rw [walk_eq_decode, if_neg hne]
  cases read <;> simp only [hrun, hadvance]

/-- A null entry ends the children of the innermost open entry. -/
theorem walk_null {close : Bytes} (h : Leb128.IsUnsigned 0 close) (index offset scope : Nat)
    (outer : List Nat) (rest : Bytes) :
    walk enc table index (scope :: outer) ⟨offset, close ++ rest⟩ =
      if outer.isEmpty && !rest.isEmpty then .stop .trailingEntries
      else walk enc table index outer ⟨offset + close.length, rest⟩ :=
  walk_token (run_decode_null h ..)

/-- A null entry where no entry is open is a fault. -/
theorem walk_unopened {close : Bytes} (h : Leb128.IsUnsigned 0 close) (index offset : Nat)
    (rest : Bytes) :
    walk enc table index [] ⟨offset, close ++ rest⟩ = .stop .nullWithoutScope :=
  walk_token (run_decode_null h ..)

/-- An entry is kept, and opens a scope if it has children. -/
theorem walk_head {head : EntryHead} (h : head.WellFormed enc table) (index offset : Nat)
    (scopes : List Nat) (rest : Bytes) :
    walk enc table index scopes ⟨offset, head.bytes ++ rest⟩ =
      (walk enc table (index + 1) (if head.declaration.hasChildren then index :: scopes else scopes)
        ⟨offset + head.bytes.length, rest⟩).cons
          (head.entry offset scopes.length scopes.head?) :=
  walk_token (run_decode_head h ..)

/-! ### From the forest to the walk -/

/-- A forest inside an open entry is passed over, and the entries that are open
stay as they were. -/
theorem walk_forest {f : Forest} (hf : f.WellFormed enc table) (index offset scope : Nat)
    (outer : List Nat) (rest : Bytes) :
    walk enc table index (scope :: outer) ⟨offset, f.bytes ++ rest⟩ =
      (walk enc table (index + f.count) (scope :: outer) ⟨offset + f.bytes.length, rest⟩).prepend
        (f.entries (outer.length + 1) (some scope) offset index) := by
  induction f generalizing index offset scope outer rest with
  | nil => rfl
  | cons head children close next ihc ihn =>
    obtain ⟨hhead, hbody, hnext⟩ := hf
    have hbytes : (Forest.cons head children close next).bytes ++ rest =
        head.bytes ++ (children.bytes ++ (close ++ (next.bytes ++ rest))) := by
      simp [Forest.bytes]
    have hlength : offset + (Forest.cons head children close next).bytes.length =
        offset + head.bytes.length + children.bytes.length + close.length + next.bytes.length := by
      simp only [Forest.bytes, List.length_append]
      omega
    have hcount : index + (Forest.cons head children close next).count =
        index + 1 + children.count + next.count := by
      rw [Forest.count]
      omega
    rw [hbytes, hlength, hcount, walk_head hhead]
    by_cases hch : head.declaration.hasChildren = true
    · rw [if_pos hch] at hbody ⊢
      rw [ihc hbody.1, walk_null hbody.2, if_neg (by simp), ihn hnext]
      rw [Forest.entries, Progress.prepend_cons, Progress.prepend_append]
      rfl
    · rw [if_neg hch] at hbody ⊢
      obtain ⟨rfl, rfl⟩ := hbody
      rw [Forest.entries, Progress.prepend_cons]
      exact congrArg _ (ihn hnext ..)

/-- A unit whose bytes are those of a forest is read as that forest. -/
theorem walk_roots {f : Forest} (hf : f.WellFormed enc table) (hlast : f.ClosesLast)
    (index offset : Nat) :
    walk enc table index [] ⟨offset, f.bytes⟩ = ⟨f.entries 0 none offset index, none⟩ := by
  induction f generalizing index offset with
  | nil => exact walk_nil index offset
  | cons head children close next ihc ihn =>
    obtain ⟨hhead, hbody, hnext⟩ := hf
    rw [Forest.bytes, walk_head hhead]
    by_cases hch : head.declaration.hasChildren = true
    · -- The null entry after the children closes the last scope, so the unit ends there.
      obtain rfl := hlast.1 hch
      rw [if_pos hch] at hbody ⊢
      rw [walk_forest hbody.1, walk_null hbody.2, if_neg (by simp [Forest.bytes]), Forest.bytes,
        walk_nil]
      rfl
    · rw [if_neg hch] at hbody ⊢
      obtain ⟨rfl, rfl⟩ := hbody
      exact congrArg (Progress.cons _) (ihn hnext hlast.2 _ _)

/-! ### From the walk to the forest -/

/-- What the open entries demand of the bytes that follow, and the entries that these
hold: for each open entry, from the inside out, the rest of its children and a null
entry; after all of them the rest of the roots, of which there are none if the
outermost open entry was a root. -/
def Closes (enc : Encoding) (table : AbbrevTable) :
    (scopes : List Nat) → (offset index : Nat) → Bytes → List Entry → Prop
  | [], offset, index, bs, es =>
    ∃ f : Forest, f.WellFormed enc table ∧ f.ClosesLast ∧ f.bytes = bs ∧
      f.entries 0 none offset index = es
  | scope :: outer, offset, index, bs, es =>
    ∃ (f : Forest) (close rest : Bytes) (es' : List Entry),
      f.WellFormed enc table ∧ Leb128.IsUnsigned 0 close ∧ f.bytes ++ (close ++ rest) = bs ∧
        (outer = [] → rest = []) ∧
        f.entries (outer.length + 1) (some scope) offset index ++ es' = es ∧
        Closes enc table outer (offset + f.bytes.length + close.length) (index + f.count) rest es'

theorem closes_null {close rest : Bytes} {offset index scope : Nat} {outer : List Nat}
    {es : List Entry} (hclose : Leb128.IsUnsigned 0 close) (hrest : outer = [] → rest = [])
    (h : Closes enc table outer (offset + close.length) index rest es) :
    Closes enc table (scope :: outer) offset index (close ++ rest) es :=
  ⟨.nil, close, rest, es, trivial, hclose, rfl, hrest, rfl, h⟩

/-- An entry and its children in front of what the open entries demand. -/
theorem closes_cons {head : EntryHead} {children : Forest} {close rest : Bytes}
    {offset index : Nat} {scopes : List Nat} {es : List Entry}
    (hhead : head.WellFormed enc table)
    (hbody : if head.declaration.hasChildren then
      children.WellFormed enc table ∧ Leb128.IsUnsigned 0 close else children = .nil ∧ close = [])
    (hrest : head.declaration.hasChildren = true → scopes = [] → rest = [])
    (h : Closes enc table scopes
      (offset + head.bytes.length + children.bytes.length + close.length)
      (index + 1 + children.count) rest es) :
    Closes enc table scopes offset index (head.bytes ++ (children.bytes ++ (close ++ rest)))
      (head.entry offset scopes.length scopes.head? ::
        (children.entries (scopes.length + 1) (some index) (offset + head.bytes.length) (index + 1)
          ++ es)) := by
  cases scopes with
  | nil =>
    obtain ⟨f, hf, hlast, rfl, rfl⟩ := h
    refine ⟨.cons head children close f, ⟨hhead, hbody, hf⟩, ⟨fun hch => ?_, hlast⟩, rfl, rfl⟩
    exact Forest.eq_nil_of_bytes_eq_nil hf (hrest hch rfl)
  | cons scope outer =>
    obtain ⟨f, close', rest', es', hf, hclose', rfl, hrest', rfl, h⟩ := h
    refine ⟨.cons head children close f, close', rest', es', ⟨hhead, hbody, hf⟩, hclose', ?_, hrest',
      ?_, ?_⟩
    · simp [Forest.bytes]
    · simp [Forest.entries]
    · have hlength : offset + (Forest.cons head children close f).bytes.length + close'.length =
          offset + head.bytes.length + children.bytes.length + close.length + f.bytes.length
            + close'.length := by
        simp only [Forest.bytes, List.length_append]
        omega
      have hcount : index + (Forest.cons head children close f).count =
          index + 1 + children.count + f.count := by
        rw [Forest.count]
        omega
      rw [hlength, hcount]
      exact h

/-- Reading a code, finding its declaration and reading the attributes comes down to
an entry at the start of the bytes. -/
theorem exists_head {bs mid rest : Bytes} {code : Nat} {d : Declaration}
    {attributes : List Attribute} (hcode : Decoder.unsigned.run bs = .ok code mid)
    (hne : code ≠ 0) (hd : table.get? code = some d)
    (hattrs : (Attribute.decodeAll enc d.attributes).run mid = .ok attributes rest) :
    ∃ head : EntryHead, head.WellFormed enc table ∧ bs = head.bytes ++ rest ∧
      head.declaration = d ∧ d.code = code ∧ head.parts.map (·.2) = attributes := by
  obtain ⟨codeBytes, rfl, hspell⟩ := Decoder.delimited_unsigned.run_eq_ok.mp hcode
  obtain ⟨attrBytes, rfl, hspells⟩ := (Attribute.delimited_decodeAll enc _).run_eq_ok.mp hattrs
  obtain ⟨parts, hparts, rfl, rfl⟩ := Attribute.spells_decodeAll.mp hspells
  obtain ⟨-, rfl⟩ := AbbrevTable.get?_eq_some.mp hd
  exact ⟨⟨codeBytes, d, parts⟩, ⟨Decoder.spells_unsigned.mp hspell, hne, hd, hparts⟩,
    (List.append_assoc ..).symm, rfl, rfl, rfl⟩

/-- A walk that ends without a fault leaves no demand of its open entries unmet. -/
theorem closes_of_walk {index : Nat} {scopes : List Nat} {c : Cursor} {es : List Entry}
    (h : walk enc table index scopes c = ⟨es, none⟩) :
    Closes enc table scopes c.offset index c.rest es := by
  fun_induction walk enc table index scopes c generalizing es with
  | case1 index scopes c hrest hscopes =>
    cases h
    rw [List.isEmpty_iff] at hrest hscopes
    rw [hrest, hscopes]
    exact ⟨.nil, trivial, trivial, rfl, rfl⟩
  | case2 | case3 | case4 | case5 | case7 | case8 => cases h
  | case6 index c _ rest hcode scope outer htrailing ih =>
    obtain ⟨close, hbs, hspell⟩ := Decoder.delimited_unsigned.run_eq_ok.mp hcode
    rw [hbs]
    refine closes_null (Decoder.spells_unsigned.mp hspell) (fun houter => ?_) ?_
    · simpa [houter] using htrailing
    · have hrec := ih h
      simpa [Cursor.advance, hbs] using hrec
  | case9 index scopes c _ code mid hne hcode d hd attributes rest hattrs entry inner =>
    rename_i ih
    obtain ⟨head, hhead, hbs, rfl, rfl, rfl⟩ := exists_head hcode hne hd hattrs
    obtain ⟨es', hes, hwalk⟩ : ∃ es', entry :: es' = es ∧
        walk enc table (index + 1) inner (c.advance rest) = ⟨es', none⟩ := by
      injection h with hitems hfault
      exact ⟨_, hitems, by rw [← hfault]⟩
    have hoffset : (c.advance rest).offset = c.offset + head.bytes.length := by
      simp [Cursor.advance, hbs]
    have hrec := ih hwalk
    rw [hoffset] at hrec
    rw [hbs, ← hes]
    by_cases hch : head.declaration.hasChildren = true
    · -- The entry is open now: its children and the null entry come first.
      have hinner : inner = index :: scopes := dif_pos hch
      rw [hinner] at hrec
      obtain ⟨children, close, rest', es'', hchildren, hclose, hrest, hlast, rfl, hrec⟩ := hrec
      have hrest : rest = children.bytes ++ (close ++ rest') := hrest.symm
      rw [hrest]
      refine closes_cons hhead ?_ (fun _ => hlast) hrec
      rw [if_pos hch]
      exact ⟨hchildren, hclose⟩
    · have hinner : inner = scopes := dif_neg hch
      rw [hinner] at hrec
      have hbody : if head.declaration.hasChildren then
          Forest.nil.WellFormed enc table ∧ Leb128.IsUnsigned 0 []
          else Forest.nil = .nil ∧ ([] : Bytes) = [] := by
        rw [if_neg hch]
        exact ⟨rfl, rfl⟩
      exact closes_cons hhead hbody (fun h => absurd h hch) hrec

/-! ### Units -/

/-- A unit that is read without a fault is a forest. -/
theorem exists_forest {h : UnitHeader} {es : List Entry} (hall : (all h table).complete = .ok es) :
    ∃ f : Forest, f.WellFormed h.encoding table ∧ f.ClosesLast ∧ f.bytes = h.entries ∧
      f.entries 0 none (h.offset + h.headerSize) 0 = es := by
  have hwalk : all h table = ⟨es, none⟩ := by
    cases hp : all h table with
    | mk items fault =>
      rw [hp] at hall
      cases fault with
      | none =>
        injection hall with hitems
        exact congrArg (Progress.mk · none) hitems
      | some cause => cases hall
  exact closes_of_walk hwalk

/-- **Exactly the grammar.** The entries of a unit are read without a fault if and only
if the whole of its bytes is a forest in which every root but the last has a
declaration without children, and then they are the preorder list of that forest. -/
theorem complete_eq_ok_iff (h : UnitHeader) (table : AbbrevTable) :
    (∀ es : List Entry, (all h table).complete = .ok es ↔
      ∃ f : Forest, f.WellFormed h.encoding table ∧ f.ClosesLast ∧ f.bytes = h.entries ∧
        f.entries 0 none (h.offset + h.headerSize) 0 = es) ∧
      (all { h with entries := [] } table).complete = .ok [] := by
  refine ⟨fun es => ⟨exists_forest, ?_⟩, ?_⟩
  · intro hforest
    obtain ⟨f, hf, hlast, hbytes, rfl⟩ := hforest
    have hwalk : all h table = ⟨f.entries 0 none (h.offset + h.headerSize) 0, none⟩ := by
      rw [all, ← hbytes]
      exact walk_roots hf hlast 0 (h.offset + h.headerSize)
    rw [hwalk]
    rfl
  · rw [all, walk_nil]
    rfl

end Entry

end Dwarf
