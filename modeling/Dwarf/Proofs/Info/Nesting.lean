import Dwarf.Proofs.Info.Walk
/-!
# How the entries of a unit nest

The entries of a unit come as a flat list. That the list has the shape of a forest
shows in what each entry knows of the one that encloses it:

> `Encloses`: the parent comes first, has children, is one level up, and everything
> from there to the child is deeper than the parent.

The last part is what navigation lives on. It says that the entries below an entry
are the ones right after it, up to the first one that is no deeper.

> `Forest.nested`: in the preorder list of a forest every entry is a root or is
> enclosed by its parent.
-/

namespace Dwarf

/-- In `es` the entry at `p` encloses the one at `k` most closely. -/
def Encloses (es : List Entry) (p k : Nat) : Prop :=
  p < k ∧ ∃ outer inner, es[p]? = some outer ∧ es[k]? = some inner ∧
    outer.hasChildren = true ∧ inner.depth = outer.depth + 1 ∧
    ∀ m between, p < m → m ≤ k → es[m]? = some between → outer.depth < between.depth

namespace Encloses

variable {es : List Entry} {p k : Nat}

theorem append_right (h : Encloses es p k) (post : List Entry) : Encloses (es ++ post) p k := by
  obtain ⟨hpk, outer, inner, hp, hk, hch, hdepth, hbetween⟩ := h
  obtain ⟨hklt, -⟩ := List.getElem?_eq_some_iff.mp hk
  -- Everything up to `k` is in `es`.
  have hsame : ∀ m, m ≤ k → (es ++ post)[m]? = es[m]? := by
    intro m hm
    exact List.getElem?_append_left (by omega)
  refine ⟨hpk, outer, inner, ?_, ?_, hch, hdepth, ?_⟩
  · rw [hsame p (by omega)]
    exact hp
  · rw [hsame k (Nat.le_refl _)]
    exact hk
  · intro m between hpm hmk hm
    rw [hsame m hmk] at hm
    exact hbetween m between hpm hmk hm

theorem append_left (h : Encloses es p k) (pre : List Entry) :
    Encloses (pre ++ es) (pre.length + p) (pre.length + k) := by
  obtain ⟨hpk, outer, inner, hp, hk, hch, hdepth, hbetween⟩ := h
  have hshift : ∀ m, (pre ++ es)[pre.length + m]? = es[m]? := by
    intro m
    rw [List.getElem?_append_right (by omega), Nat.add_sub_cancel_left]
  refine ⟨by omega, outer, inner, ?_, ?_, hch, hdepth, ?_⟩
  · rw [hshift]
    exact hp
  · rw [hshift]
    exact hk
  · intro m between hpm hmk hm
    obtain ⟨m, rfl⟩ : ∃ m', m = pre.length + m' := ⟨m - pre.length, by omega⟩
    rw [hshift] at hm
    exact hbetween m between (by omega) (by omega) hm

end Encloses

namespace Forest

variable {enc : Encoding} {table : AbbrevTable}

/-- Every entry of a forest lies at least as deep as its roots. -/
theorem le_depth (f : Forest) {depth offset index : Nat} {parent : Option Nat} {e : Entry}
    (h : e ∈ f.entries depth parent offset index) : depth ≤ e.depth := by
  induction f generalizing depth parent offset index with
  | nil => cases h
  | cons head children close next ihc ihn =>
    rw [entries, List.mem_cons, List.mem_append] at h
    rcases h with rfl | h | h
    · exact Nat.le_refl _
    · exact Nat.le_of_succ_le (ihc h)
    · exact ihn h

/-- An entry of a forest is a root, or the forest has its parent too. -/
theorem nested {f : Forest} (hf : f.WellFormed enc table) (depth offset index : Nat)
    (parent : Option Nat) {k : Nat} {e : Entry}
    (hk : (f.entries depth parent offset index)[k]? = some e) :
    (e.depth = depth ∧ e.parent = parent) ∨
      ∃ p, e.parent = some (index + p) ∧ Encloses (f.entries depth parent offset index) p k := by
  induction f generalizing depth parent offset index k e with
  | nil => cases hk
  | cons head children close next ihc ihn =>
    rw [entries] at hk ⊢
    generalize hc : children.entries (depth + 1) (some index) (offset + head.bytes.length)
      (index + 1) = below at hk ⊢
    generalize hn : next.entries depth parent _ _ = after at hk ⊢
    have hcount : below.length = children.count := by rw [← hc, length_entries]
    rcases k with _ | k
    · cases hk
      exact .inl ⟨rfl, rfl⟩
    rw [List.getElem?_cons_succ] at hk
    rcases Nat.lt_or_ge k below.length with hlt | hge
    · -- The entry is below the first one.
      rw [List.getElem?_append_left hlt] at hk
      have hch : head.declaration.hasChildren = true := hf.hasChildren (by omega)
      rcases ihc hf.below _ _ _ _ (hc ▸ hk) with ⟨hdepth, hparent⟩ | ⟨p, hparent, hencl⟩
      · refine .inr ⟨0, hparent, Nat.succ_pos k, _, e, rfl, ?_, hch, hdepth, ?_⟩
        · rw [List.getElem?_cons_succ, List.getElem?_append_left hlt]
          exact hk
        · intro m between hm hmk hbetween
          obtain ⟨m, rfl⟩ : ∃ m', m = m' + 1 := ⟨m - 1, by omega⟩
          rw [List.getElem?_cons_succ, List.getElem?_append_left (by omega)] at hbetween
          exact le_depth children (hc ▸ List.mem_of_getElem? hbetween)
      · rw [hc] at hencl
        have hshift := (hencl.append_right after).append_left [head.entry offset depth parent]
        refine .inr ⟨1 + p, by rw [hparent, Nat.add_assoc], ?_⟩
        rw [Nat.add_comm k 1]
        exact hshift
    · -- The entry is beside the first one.
      rw [List.getElem?_append_right hge] at hk
      rcases ihn hf.2.2 _ _ _ _ (hn ▸ hk) with hroot | ⟨p, hparent, hencl⟩
      · exact .inl hroot
      · rw [hn] at hencl
        have hshift := (hencl.append_left below).append_left [head.entry offset depth parent]
        refine .inr ⟨1 + (below.length + p), ?_, ?_⟩
        · rw [hparent, hcount]
          exact congrArg some (by omega)
        · have hindex : k + 1 = 1 + (below.length + (k - below.length)) := by omega
          rw [hindex]
          exact hshift

end Forest

end Dwarf
