import Dwarf.Info.Tree
import Dwarf.Proofs.Fallible
import Dwarf.Proofs.Info.Nesting
/-!
# Navigation finds the tree again

A unit keeps its entries in a flat list, and `UnitTree.roots` and
`UnitTree.children` find the tree in it: the roots by their depth, the children of
an entry by a scan that stops at the first entry that is no deeper. Both are right
because the list is the preorder list of a forest.

> `UnitTree.children_eq_filter`: no child of an entry lies behind the place where
> the scan stops.
>
> `UnitTree.flatMap_subtree`: going down from the roots of a forest visits its
> entries in the order of the list.

The second is an induction on the forest, carried along the list by
`Forest.Within`, which says where in the unit a forest lies and that the entry
after it is less deep. What `children` gives for an entry are then the roots of
the forest below it (`UnitTree.children_eq_roots`).
-/

namespace Dwarf

namespace Forest

/-- The indices of the roots, the first of which is `index`. -/
def roots (index : Nat) : Forest → List Nat
  | nil => []
  | cons _ children _ next => index :: next.roots (index + 1 + children.count)

/-- The entries of `f` lie in `u` from `index` on, and what follows them there is
less deep. -/
structure Within (u : UnitTree) (f : Forest) (depth : Nat) (parent : Option Nat)
    (offset index : Nat) : Prop where
  entries : ∀ k, k < f.count →
    u.entries[index + k]? = (f.entries depth parent offset index)[k]?
  after : ∀ e, u.entries[index + f.count]? = some e → e.depth < depth

variable {enc : Encoding} {table : AbbrevTable} {u : UnitTree}

/-- The indices of a forest are those of its first root, of the entries below it, and
of the entries beside it. -/
theorem range'_count_cons (head : EntryHead) (children : Forest) (close : Bytes) (next : Forest)
    (index : Nat) : List.range' index (cons head children close next).count =
      index :: (List.range' (index + 1) children.count ++
        List.range' (index + 1 + children.count) next.count) := by
  rw [List.range'_append_1, count, Nat.add_assoc, Nat.add_comm 1, List.range'_succ]

/-- A property of just the entries at the top of a forest picks out its roots. -/
theorem filter_eq_roots (f : Forest) (depth : Nat) (parent : Option Nat) (offset index : Nat)
    {q : Nat → Bool} (hq : ∀ k e, (f.entries depth parent offset index)[k]? = some e →
      (q (index + k) = true ↔ e.depth = depth)) :
    (List.range' index f.count).filter q = f.roots index := by
  induction f generalizing offset index with
  | nil => rfl
  | cons head children close next ihc ihn =>
    have hfirst : q index = true := (hq 0 _ rfl).mpr rfl
    have hbelow : (List.range' (index + 1) children.count).filter q = [] := by
      rw [List.filter_eq_nil_iff]
      intro i hi hqi
      rw [List.mem_range'_1] at hi
      obtain ⟨k, rfl⟩ : ∃ k, i = index + (k + 1) := ⟨i - (index + 1), by omega⟩
      have hk : k < children.count := by omega
      obtain ⟨e, he⟩ := children.exists_getElem?_entries (depth + 1) (some index)
        (offset + head.bytes.length) (index + 1) hk
      have hdeep := le_depth children (List.mem_of_getElem? he)
      have hdepth := (hq (k + 1) e (by rw [getElem?_entries_below hk, he])).mp hqi
      omega
    have hbeside : (List.range' (index + 1 + children.count) next.count).filter q =
        next.roots (index + 1 + children.count) := by
      apply ihn (offset + head.bytes.length + children.bytes.length + close.length)
      intro k e he
      have hindex : index + 1 + children.count + k = index + (children.count + k + 1) := by omega
      rw [hindex]
      exact hq _ e (by rw [getElem?_entries_beside, he])
    rw [range'_count_cons, List.filter_cons_of_pos hfirst, List.filter_append, hbelow, hbeside]
    rfl

/-- The parent of an entry tells whether it is a root, if the parent of the roots comes
before the forest. -/
theorem parent_eq_iff {f : Forest} (hf : f.WellFormed enc table) {depth offset index k : Nat}
    {parent : Option Nat} {e : Entry} (hparent : ∀ i, parent = some i → i < index)
    (hk : (f.entries depth parent offset index)[k]? = some e) :
    e.parent = parent ↔ e.depth = depth := by
  rcases nested hf depth offset index parent hk with ⟨hdepth, heq⟩ | ⟨p, heq, hencl⟩
  · exact ⟨fun _ => hdepth, fun _ => heq⟩
  · obtain ⟨-, outer, inner, hp, hk', -, hdepth, -⟩ := hencl
    rw [hk] at hk'
    cases hk'
    have hdeep := le_depth f (List.mem_of_getElem? hp)
    constructor
    · intro h
      have := hparent (index + p) (h ▸ heq)
      omega
    · omega

/-! ### A forest inside a unit -/

section

variable {head : EntryHead} {children next : Forest} {close : Bytes} {depth offset index : Nat}
  {parent : Option Nat}

theorem Within.below (h : (cons head children close next).Within u depth parent offset index) :
    children.Within u (depth + 1) (some index) (offset + head.bytes.length) (index + 1) where
  entries k hk := by
    rw [Nat.add_assoc, Nat.add_comm 1, h.entries (k + 1) (by rw [count]; omega),
      getElem?_entries_below hk]
  after e he := by
    cases next with
    | nil =>
      have hcount : index + 1 + children.count = index + (cons head children close nil).count := by
        rw [count, count]
        omega
      rw [hcount] at he
      exact Nat.lt_succ_of_lt (h.after e he)
    | cons head' children' close' next' =>
      -- The entry behind the children is the next root.
      have hroot := h.entries (children.count + 1) (by rw [count, count]; omega)
      have hindex : index + (children.count + 1) = index + 1 + children.count := by omega
      rw [hindex, he, getElem?_entries_beside 0] at hroot
      cases hroot
      exact Nat.lt_succ_self depth

theorem Within.beside (h : (cons head children close next).Within u depth parent offset index) :
    next.Within u depth parent
      (offset + head.bytes.length + children.bytes.length + close.length)
      (index + 1 + children.count) where
  entries k hk := by
    have hindex : index + 1 + children.count + k = index + (children.count + k + 1) := by omega
    rw [hindex, h.entries _ (by rw [count]; omega), getElem?_entries_beside]
  after e he := by
    have hcount : index + 1 + children.count + next.count =
        index + (cons head children close next).count := by
      rw [count]
      omega
    rw [hcount] at he
    exact h.after e he

/-- The unit has all entries of a forest inside it. -/
theorem Within.le_size {f : Forest} (h : f.Within u depth parent offset index)
    (hindex : index ≤ u.entries.size) : index + f.count ≤ u.entries.size := by
  rcases Nat.eq_zero_or_pos f.count with hzero | hpos
  · omega
  · obtain ⟨e, he⟩ := f.exists_getElem?_entries depth parent offset index (Nat.sub_one_lt_of_lt hpos)
    rw [← h.entries _ (Nat.sub_one_lt_of_lt hpos)] at he
    obtain ⟨hlt, -⟩ := Array.getElem?_eq_some_iff.mp he
    omega

end

end Forest

namespace UnitTree

/-! ### What the list says about parents -/

theorem depthAt_of {u : UnitTree} {i : Nat} {e : Entry} (h : u.entries[i]? = some e) :
    u.depthAt i = e.depth := by
  rw [depthAt, h]

theorem parentAt_of {u : UnitTree} {i : Nat} {e : Entry} (h : u.entries[i]? = some e) :
    u.parentAt i = e.parent := by
  rw [parentAt, h]

/-- Every entry of the unit is a root or is enclosed by its parent. -/
def Nested (u : UnitTree) : Prop :=
  ∀ i e, u.entries[i]? = some e →
    (e.depth = 0 ∧ e.parent = none) ∨ ∃ p, e.parent = some p ∧ Encloses u.entries.toList p i

theorem Nested.encloses {u : UnitTree} (hu : u.Nested) {p i : Nat}
    (h : u.parentAt i = some p) : Encloses u.entries.toList p i := by
  unfold parentAt at h
  split at h
  · next e he =>
    rcases hu i e he with ⟨-, hnone⟩ | ⟨p', hsome, hencl⟩
    · rw [hnone] at h
      cases h
    · rw [hsome] at h
      cases h
      exact hencl
  · cases h

/-- Where a scan stops does not matter if nothing that is looked for lies behind. -/
theorem filter_takeWhile_range' {p q : Nat → Bool} (low n : Nat)
    (h : ∀ j, q j = true → ∀ k, low ≤ k → k ≤ j → p k = true) :
    ((List.range' low n).takeWhile p).filter q = (List.range' low n).filter q := by
  induction n generalizing low with
  | zero => rfl
  | succ n ih =>
    rw [List.range'_succ]
    by_cases hp : p low = true
    · rw [List.takeWhile_cons_of_pos hp, List.filter_cons, List.filter_cons,
        ih (low + 1) fun j hj k hk => h j hj k (by omega)]
    · rw [List.takeWhile_cons_of_neg hp, List.filter_nil, eq_comm, List.filter_eq_nil_iff]
      intro j hj hqj
      have hle : low ≤ j := by
        rcases List.mem_cons.mp hj with rfl | hj
        · exact Nat.le_refl _
        · have := (List.mem_range'_1.mp hj).1
          omega
      exact hp (h j hqj low (Nat.le_refl _) hle)

theorem children_eq_filter {u : UnitTree} (hu : u.Nested) {i : Nat} (hi : i < u.entries.size) :
    u.children i = (List.range u.entries.size).filter fun j => u.parentAt j == some i := by
  -- A child comes after its parent.
  have hbefore : (List.range' 0 (i + 1)).filter (fun j => u.parentAt j == some i) = [] := by
    rw [List.filter_eq_nil_iff]
    intro j hj hqj
    have hlt := (hu.encloses (beq_iff_eq.mp hqj)).1
    rw [List.mem_range'_1] at hj
    omega
  have hsplit : List.range u.entries.size =
      List.range' 0 (i + 1) ++ List.range' (i + 1) (u.entries.size - (i + 1)) := by
    have happend := List.range'_append_1 (s := 0) (m := i + 1) (n := u.entries.size - (i + 1))
    rw [Nat.zero_add] at happend
    rw [happend, List.range_eq_range']
    congr 1
    omega
  rw [hsplit, List.filter_append, hbefore, List.nil_append, children]
  apply filter_takeWhile_range'
  intro j hqj k hlow hkj
  -- All entries between a child and its parent are deeper, so the scan gets to the child.
  obtain ⟨-, outer, inner, hp, hj, -, -, hbetween⟩ := hu.encloses (beq_iff_eq.mp hqj)
  rw [Array.getElem?_toList] at hp hj
  obtain ⟨hjlt, -⟩ := Array.getElem?_eq_some_iff.mp hj
  have hk : u.entries[k]? = some u.entries[k] := Array.getElem?_eq_getElem (by omega)
  have hdeep := hbetween k _ (by omega) hkj (by rw [Array.getElem?_toList]; exact hk)
  rw [decide_eq_true_iff, depthAt_of hp, depthAt_of hk]
  exact hdeep

theorem children_eq_nil {u : UnitTree} {i : Nat} (hi : u.entries.size ≤ i) :
    u.children i = [] := by
  have hzero : u.entries.size - (i + 1) = 0 := by omega
  rw [children, hzero]
  rfl

/-! ### Going down from the roots -/

theorem mem_children {u : UnitTree} {i j : Nat} (h : j ∈ u.children i) :
    i < j ∧ j < u.entries.size := by
  have hmem := (List.takeWhile_sublist _).subset (List.mem_filter.mp h).1
  rw [List.mem_range'_1] at hmem
  omega

/-- The entry at `index` and all below it, in the order in which they are met when each
entry comes before its children. -/
def subtree (u : UnitTree) (index : Nat) : List Nat :=
  index :: (u.children index).attach.flatMap fun ⟨child, _⟩ => u.subtree child
  termination_by u.entries.size - index
  decreasing_by
    rename_i h
    have := mem_children h
    omega

theorem subtree_eq (u : UnitTree) (index : Nat) :
    u.subtree index = index :: (u.children index).flatMap u.subtree := by
  rw [subtree]
  congr 1
  conv => rhs; rw [← List.attach_map_subtype_val (u.children index), List.flatMap_map]

variable {enc : Encoding} {table : AbbrevTable} {u : UnitTree}

/-- The children of an entry are the roots of the forest below it. -/
theorem children_eq_roots {head : EntryHead} {children next : Forest} {close : Bytes}
    {depth offset index : Nat} {parent : Option Nat} (hf : children.WellFormed enc table)
    (hu : (Forest.cons head children close next).Within u depth parent offset index) :
    u.children index = children.roots (index + 1) := by
  have hhere : u.entries[index]? = some (head.entry offset depth parent) :=
    hu.entries 0 (by rw [Forest.count]; omega)
  obtain ⟨hindex, -⟩ := Array.getElem?_eq_some_iff.mp hhere
  have hsize := hu.below.le_size hindex
  have hsplit : List.range' (index + 1) (u.entries.size - (index + 1)) =
      List.range' (index + 1) children.count ++
        List.range' (index + 1 + children.count) (u.entries.size - (index + 1 + children.count)) := by
    rw [List.range'_append_1]
    congr 1
    omega
  have hdeep : ∀ j ∈ List.range' (index + 1) children.count,
      decide (u.depthAt index < u.depthAt j) = true := by
    intro j hj
    rw [List.mem_range'_1] at hj
    obtain ⟨k, rfl⟩ : ∃ k, j = index + 1 + k := ⟨j - (index + 1), by omega⟩
    have hk : k < children.count := by omega
    obtain ⟨e, he⟩ := children.exists_getElem?_entries (depth + 1) (some index)
      (offset + head.bytes.length) (index + 1) hk
    have hle := children.le_depth (List.mem_of_getElem? he)
    rw [← hu.below.entries k hk] at he
    rw [decide_eq_true_iff, depthAt_of hhere, depthAt_of he]
    exact hle
  have hstop : (List.range' (index + 1 + children.count)
      (u.entries.size - (index + 1 + children.count))).takeWhile
        (fun j => decide (u.depthAt index < u.depthAt j)) = [] := by
    rcases Nat.eq_zero_or_pos (u.entries.size - (index + 1 + children.count)) with hzero | hpos
    · rw [hzero]
      rfl
    · obtain ⟨n, hn⟩ := Nat.exists_eq_add_of_lt hpos
      rw [hn, Nat.zero_add, List.range'_succ, List.takeWhile_cons_of_neg]
      have hafter : u.entries[index + 1 + children.count]? =
          some u.entries[index + 1 + children.count] := Array.getElem?_eq_getElem (by omega)
      have hlt := hu.below.after _ hafter
      rw [decide_eq_true_iff, depthAt_of hhere, depthAt_of hafter]
      exact Nat.not_lt.mpr (Nat.le_of_lt_succ hlt)
  rw [UnitTree.children, hsplit, List.takeWhile_append_of_pos hdeep, hstop, List.append_nil]
  apply children.filter_eq_roots (depth + 1) (some index) (offset + head.bytes.length)
  intro k e he
  obtain ⟨hk, -⟩ := List.getElem?_eq_some_iff.mp he
  rw [Forest.length_entries] at hk
  rw [← Forest.parent_eq_iff hf (by simp) he, beq_iff_eq,
    parentAt_of ((hu.below.entries k hk).trans he)]

/-- Going down from each root in turn visits the whole forest in order. -/
theorem flatMap_subtree {f : Forest} (hf : f.WellFormed enc table) {depth offset index : Nat}
    {parent : Option Nat} (hu : f.Within u depth parent offset index) :
    (f.roots index).flatMap u.subtree = List.range' index f.count := by
  induction f generalizing depth offset index parent with
  | nil => rfl
  | cons head children close next ihc ihn =>
    have hnext : next.WellFormed enc table := hf.2.2
    rw [Forest.roots, List.flatMap_cons, subtree_eq, children_eq_roots hf.below hu,
      ihc hf.below hu.below, ihn hnext hu.beside, Forest.range'_count_cons]
    rfl

/-! ### Units that were read -/

/-- A unit that was read has the header that was asked for, and all entries of it. -/
theorem complete_of_decode {abbrevs : Bytes} {header : UnitHeader} {u : UnitTree}
    (h : decode abbrevs header = .ok u) :
    u.header = header ∧ (Entry.all header u.table).complete = .ok u.entries.toList := by
  obtain ⟨found, -, h⟩ := Fallible.bind_eq_ok.mp h
  obtain ⟨entries, hentries, h⟩ := Fallible.bind_eq_ok.mp h
  cases h
  exact ⟨rfl, hentries⟩

/-- The entries of a unit that was read are the preorder list of a forest. -/
theorem exists_forest_of_decode {abbrevs : Bytes} {header : UnitHeader} {u : UnitTree}
    (h : decode abbrevs header = .ok u) :
    ∃ f : Forest, f.WellFormed header.encoding u.table ∧
      u.entries.toList = f.entries 0 none (header.offset + header.headerSize) 0 := by
  obtain ⟨f, hf, -, -, hentries⟩ := Entry.exists_forest (complete_of_decode h).2
  exact ⟨f, hf, hentries.symm⟩

theorem nested_of_forest {f : Forest} (hf : f.WellFormed enc table) {offset : Nat}
    (hu : u.entries.toList = f.entries 0 none offset 0) : u.Nested := by
  intro i e hi
  rw [← Array.getElem?_toList, hu] at hi
  rcases Forest.nested hf 0 offset 0 none hi with hroot | ⟨p, hparent, hencl⟩
  · exact .inl hroot
  · rw [Nat.zero_add] at hparent
    rw [hu]
    exact .inr ⟨p, hparent, hencl⟩

theorem roots_eq_roots {f : Forest} {offset : Nat}
    (hu : u.entries.toList = f.entries 0 none offset 0) : u.roots = f.roots 0 := by
  have hsize : u.entries.size = f.count := by
    rw [← Array.length_toList, hu, Forest.length_entries]
  rw [roots, List.range_eq_range', hsize]
  apply f.filter_eq_roots 0 none offset
  intro k e he
  rw [Nat.zero_add, depthAt_of (by rw [← Array.getElem?_toList, hu, he]), beq_iff_eq]

/-- A forest that is all of a unit. -/
theorem within_of_forest {f : Forest} {offset : Nat}
    (hu : u.entries.toList = f.entries 0 none offset 0) : f.Within u 0 none offset 0 where
  entries k _ := by rw [Nat.zero_add, ← Array.getElem?_toList, hu]
  after e he := by
    have hlength := f.length_entries 0 none offset 0
    rw [Nat.zero_add, ← Array.getElem?_toList, hu, List.getElem?_eq_none (by omega)] at he
    cases he

/-- **Navigation reconstructs the tree.** In a unit that was read, an entry with a
parent comes after it and one level below it, and an entry without one is at the
top; the children of an entry are all entries that have it as their parent, in
order; and going down from the roots visits each entry once, in order. -/
theorem navigation_of_decode {abbrevs : Bytes} {header : UnitHeader} {u : UnitTree}
    (h : decode abbrevs header = .ok u) :
    (∀ (i : Nat) (e : Entry), u.entries[i]? = some e →
      (e.parent = none ↔ e.depth = 0) ∧
      ∀ p, e.parent = some p → p < i ∧ ∃ outer : Entry, u.entries[p]? = some outer ∧
        outer.hasChildren = true ∧ e.depth = outer.depth + 1) ∧
    (∀ i, i < u.entries.size →
      u.children i = (List.range u.entries.size).filter fun j => u.parentAt j == some i) ∧
    (∀ i, u.entries.size ≤ i → u.children i = []) ∧
    u.roots.flatMap u.subtree = List.range u.entries.size := by
  obtain ⟨f, hf, hu⟩ := exists_forest_of_decode h
  have hnested := nested_of_forest hf hu
  refine ⟨?_, ?_, ?_, ?_⟩
  · intro i e hi
    constructor
    · rw [← Array.getElem?_toList, hu] at hi
      exact Forest.parent_eq_iff hf (by simp) hi
    · intro p hp
      have hparent : u.parentAt i = some p := by rw [parentAt_of hi, hp]
      obtain ⟨hlt, outer, inner, hout, hin, hch, hdepth, -⟩ := hnested.encloses hparent
      rw [Array.getElem?_toList] at hout hin
      rw [hi] at hin
      cases hin
      exact ⟨hlt, outer, hout, hch, hdepth⟩
  · intro i hi
    exact children_eq_filter hnested hi
  · intro i hi
    exact children_eq_nil hi
  · rw [roots_eq_roots hu, flatMap_subtree hf (within_of_forest hu), List.range_eq_range',
      ← Array.length_toList, hu, Forest.length_entries]

/-- A unit of version 5 with one root. The second of its three children has a child. -/
def nestedHeader : UnitHeader where
  offset := 0
  length := 15
  format := .dwarf32
  order := .little
  fields := { version := 5, addressSize := 8, abbrevOffset := 0, kind := .compilation }
  headerSize := 12
  entries := [1, 2, 1, 2, 0, 2, 0]

/-- The table for it: code 1 has children and code 2 has none. -/
def nestedAbbrevs : Bytes := [1, 0x11, 1, 0, 0, 2, 0x24, 0, 0, 0, 0]

theorem navigation_of_nestedHeader :
    ∃ u, decode nestedAbbrevs nestedHeader = .ok u ∧ u.parentAt 3 = some 2 ∧
      u.children 0 = (List.range 5).filter (fun j => u.parentAt j == some 0) ∧
      u.children 0 = [1, 2, 4] ∧ u.children 2 = [3] ∧
      u.roots.flatMap u.subtree = [0, 1, 2, 3, 4] := by
  have hread : (decode nestedAbbrevs nestedHeader).toOption.map (fun u =>
      (u.entries.size, u.parentAt 3, u.children 0, u.children 2)) =
        some (5, some 2, [1, 2, 4], [3]) := by
    decide +kernel
  cases h : decode nestedAbbrevs nestedHeader with
  | error cause =>
    rw [h] at hread
    cases hread
  | ok u =>
    rw [h] at hread
    simp only [Except.toOption, Option.map_some, Option.some.injEq, Prod.mk.injEq] at hread
    obtain ⟨hsize, hparent, hroot, hinner⟩ := hread
    obtain ⟨-, hall, -, hwalk⟩ := navigation_of_decode h
    rw [hsize] at hall hwalk
    exact ⟨u, rfl, hparent, hall 0 (by decide), hroot, hinner, hwalk⟩

end UnitTree

end Dwarf
