import Dwarf.Info.Entry
import Dwarf.Proofs.Attribute.Delimited
import Dwarf.Proofs.Bytes.Leb128
/-!
# The forest that the entries of a unit spell

The entries of a unit are a forest, written down in preorder. This file says so as
a grammar, without a word about how entries are read: `EntryHead` is one entry as
it is spelled, `Forest` arranges entries under each other, and `Forest.bytes` is
what the arrangement spells. A list of children is ended by a null entry, a code
of zero, padded or not.

The preorder list that a forest stands for, `Forest.entries`, numbers the entries,
counts the entries around each and adds up the bytes before each. It needs to know
only where the forest starts, so the list of a forest inside another one is a
stretch of the outer list.

Nothing may follow the null entry that ends the children of a root. So all roots
but the last have a declaration without children: `Forest.ClosesLast`.
-/

namespace Dwarf

/-- One entry as it is spelled, without its children. -/
structure EntryHead where
  /-- The bytes of its code. -/
  codeBytes : Bytes
  /-- The declaration that the code stands for. -/
  declaration : Declaration
  /-- The bytes and the value of each attribute. -/
  parts : List (Bytes × Attribute)

namespace EntryHead

/-- The bytes of the code, and then those of the attributes. -/
def bytes (e : EntryHead) : Bytes := e.codeBytes ++ e.parts.flatMap (·.1)

/-- The code is a number other than zero that the table has, and the attributes are
those of its declaration. -/
structure WellFormed (enc : Encoding) (table : AbbrevTable) (e : EntryHead) : Prop where
  code : Leb128.IsUnsigned e.declaration.code e.codeBytes
  ne_zero : e.declaration.code ≠ 0
  declared : table.get? e.declaration.code = some e.declaration
  attributes : Attribute.Parts enc e.declaration.attributes e.parts

/-- Even if no attribute takes a byte, the code does. -/
theorem WellFormed.length_pos {enc : Encoding} {table : AbbrevTable} {e : EntryHead}
    (h : e.WellFormed enc table) : 0 < e.bytes.length := by
  have hcode := Decoder.consuming_unsigned.ne_nil (Decoder.spells_unsigned.mpr h.code)
  have hpos := List.length_pos_iff.mpr hcode
  rw [bytes, List.length_append]
  omega

/-- The entry, once it is known where it stands. -/
def entry (e : EntryHead) (offset depth : Nat) (parent : Option Nat) : Entry where
  offset
  depth
  code := e.declaration.code
  tag := e.declaration.tag
  hasChildren := e.declaration.hasChildren
  parent
  attributes := e.parts.map (·.2)

end EntryHead

/-- Entries side by side, each with its children and the null entry after them. -/
inductive Forest where
  /-- No entries. -/
  | nil
  /-- An entry, its children, the bytes that end them, and the entries after it. -/
  | cons (head : EntryHead) (children : Forest) (close : Bytes) (next : Forest)

namespace Forest

/-- What the forest spells. -/
def bytes : Forest → Bytes
  | nil => []
  | cons head children close next => head.bytes ++ (children.bytes ++ (close ++ next.bytes))

/-- The number of entries. -/
def count : Forest → Nat
  | nil => 0
  | cons _ children _ next => 1 + children.count + next.count

/-- An entry has children and a null entry after them exactly when its declaration
has children. -/
def WellFormed (enc : Encoding) (table : AbbrevTable) : Forest → Prop
  | nil => True
  | cons head children close next =>
    head.WellFormed enc table ∧
      (if head.declaration.hasChildren then
        children.WellFormed enc table ∧ Leb128.IsUnsigned 0 close
      else children = nil ∧ close = []) ∧
      next.WellFormed enc table

/-- Only the last root has a declaration with children. -/
def ClosesLast : Forest → Prop
  | nil => True
  | cons head _ _ next => (head.declaration.hasChildren = true → next = nil) ∧ next.ClosesLast

/-- The entries in preorder. The first one starts at `offset`, has the index `index`
and lies inside `depth` others, of which `parent` is the innermost. -/
def entries (depth : Nat) (parent : Option Nat) (offset index : Nat) : Forest → List Entry
  | nil => []
  | cons head children close next =>
    head.entry offset depth parent ::
      (children.entries (depth + 1) (some index) (offset + head.bytes.length) (index + 1) ++
        next.entries depth parent
          (offset + head.bytes.length + children.bytes.length + close.length)
          (index + 1 + children.count))

@[simp] theorem length_entries (f : Forest) (depth : Nat) (parent : Option Nat)
    (offset index : Nat) : (f.entries depth parent offset index).length = f.count := by
  induction f generalizing depth parent offset index with
  | nil => rfl
  | cons head children close next ihc ihn =>
    rw [entries, List.length_cons, List.length_append, ihc, ihn, count]
    omega

theorem exists_getElem?_entries (f : Forest) (depth : Nat) (parent : Option Nat)
    (offset index : Nat) {k : Nat} (hk : k < f.count) :
    ∃ e, (f.entries depth parent offset index)[k]? = some e :=
  ⟨_, List.getElem?_eq_getElem (by rw [length_entries]; exact hk)⟩

/-! ### Below and beside the first entry -/

section

variable {head : EntryHead} {children next : Forest} {close : Bytes} {depth offset index : Nat}
  {parent : Option Nat}

theorem getElem?_entries_below {k : Nat} (hk : k < children.count) :
    ((cons head children close next).entries depth parent offset index)[k + 1]? =
      (children.entries (depth + 1) (some index) (offset + head.bytes.length) (index + 1))[k]? := by
  rw [entries, List.getElem?_cons_succ, List.getElem?_append_left (by rw [length_entries]; exact hk)]

theorem getElem?_entries_beside (k : Nat) :
    ((cons head children close next).entries depth parent offset index)[children.count + k + 1]? =
      (next.entries depth parent
        (offset + head.bytes.length + children.bytes.length + close.length)
        (index + 1 + children.count))[k]? := by
  rw [entries, List.getElem?_cons_succ, List.getElem?_append_right (by rw [length_entries]; omega),
    length_entries, Nat.add_sub_cancel_left]

/-- The forest below a well-formed entry is well-formed, be it empty. -/
theorem WellFormed.below {enc : Encoding} {table : AbbrevTable}
    (h : (cons head children close next).WellFormed enc table) : children.WellFormed enc table := by
  obtain ⟨-, hbody, -⟩ := h
  by_cases hch : head.declaration.hasChildren = true
  · rw [if_pos hch] at hbody
    exact hbody.1
  · rw [if_neg hch] at hbody
    rw [hbody.1]
    trivial

/-- Only an entry whose declaration has children has entries below it. -/
theorem WellFormed.hasChildren {enc : Encoding} {table : AbbrevTable}
    (h : (cons head children close next).WellFormed enc table) (hpos : 0 < children.count) :
    head.declaration.hasChildren = true := by
  obtain ⟨-, hbody, -⟩ := h
  by_cases hch : head.declaration.hasChildren = true
  · exact hch
  · rw [if_neg hch] at hbody
    rw [hbody.1] at hpos
    exact absurd hpos (Nat.lt_irrefl 0)

end

/-- Only the forest without entries spells nothing. -/
theorem eq_nil_of_bytes_eq_nil {enc : Encoding} {table : AbbrevTable} {f : Forest}
    (hf : f.WellFormed enc table) (h : f.bytes = []) : f = nil := by
  cases f with
  | nil => rfl
  | cons head children close next =>
    have hpos := hf.1.length_pos
    rw [bytes, List.append_eq_nil_iff] at h
    rw [h.1] at hpos
    exact absurd hpos (Nat.lt_irrefl 0)

end Forest

end Dwarf
