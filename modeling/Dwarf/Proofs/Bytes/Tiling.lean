import Dwarf.Bytes.Sequence
/-!
# The items of a section tile it

A cursor moves through a section by the bytes that an item took, and keeps its
offset beside the bytes that are left. This module relates both to the section.

> `Tiled`: the items are read one after another at their own offsets, each from
> where the one before ends.
>
> `Cursor.tiled_run`: what a run reads tiles the section up to where it stops.
>
> `Cursor.answer_eq`: repeated calls of `next` give the items of a run, then its
> fault if it has one, and then nothing.

A run that meets no fault stops at the end of the section (`Cursor.stop_of_done`),
and one that does stops at the item that cannot be read (`Cursor.stop_of_fault`).
-/

namespace Dwarf

variable {α : Type} {item : Item α} {contents : Bytes}

/-- What calls give one after another that give the items, then the fault if there is
one, and then nothing. -/
def Progress.answer (p : Progress α) (count : Nat) : Except Fault (Option α) :=
  match p.items[count]?, p.fault with
  | some value, _ => .ok (some value)
  | none, some cause => if count = p.items.length then .error cause else .ok none
  | none, none => .ok none

theorem Progress.answer_cons_succ (value : α) (p : Progress α) (count : Nat) :
    (p.cons value).answer (count + 1) = p.answer count := by
  simp only [answer, cons, List.getElem?_cons_succ, List.length_cons, Nat.add_right_cancel_iff]

/-- What an item leaves unread is a suffix of the section. -/
def Item.Forward (item : Item α) : Prop := ∀ offset, (item.decode offset).Forward

/-- `values` are what `item` reads in `contents`, one right after the other, from the
first offset up to the second. -/
inductive Tiled (item : Item α) (contents : Bytes) : Nat → List α → Nat → Prop where
  | nil {offset : Nat} (inside : offset ≤ contents.length) : Tiled item contents offset [] offset
  | cons {offset next stop : Nat} {value : α} {values : List α}
    (here : (item.decode offset).run (contents.drop offset) = .ok value (contents.drop next))
    (advances : offset < next) (later : Tiled item contents next values stop) :
    Tiled item contents offset (value :: values) stop

namespace Tiled

variable {start stop : Nat} {values : List α}

theorem le_stop (h : Tiled item contents start values stop) : start ≤ stop := by
  induction h with
  | nil => exact Nat.le_refl _
  | cons _ hlt _ ih => omega

theorem stop_le (h : Tiled item contents start values stop) : stop ≤ contents.length := by
  induction h with
  | nil hle => exact hle
  | cons _ _ _ ih => exact ih

/-- Around each item the section is tiled by those before it and those after it. -/
theorem split (h : Tiled item contents start values stop) {i : Nat} {value : α}
    (hi : values[i]? = some value) : ∃ offset next, offset < next ∧
      Tiled item contents start (values.take i) offset ∧
      (item.decode offset).run (contents.drop offset) = .ok value (contents.drop next) ∧
      Tiled item contents next (values.drop (i + 1)) stop := by
  induction h generalizing i with
  | nil => cases hi
  | @cons offset next stop first values here hlt later ih =>
    cases i with
    | zero =>
      cases hi
      have hle := later.le_stop
      have hstop := later.stop_le
      exact ⟨offset, next, hlt, .nil (by omega), here, later⟩
    | succ i =>
      obtain ⟨offset', next', hlt', hbefore, hvalue, hafter⟩ := ih hi
      exact ⟨offset', next', hlt', .cons here hlt hbefore, hvalue, hafter⟩

/-- No item takes no bytes, so only an empty stretch holds none. -/
theorem eq_nil_iff (h : Tiled item contents start values stop) : values = [] ↔ start = stop := by
  cases h with
  | nil => simp
  | cons _ hlt later =>
    have hle := later.le_stop
    constructor
    · intro h
      cases h
    · omega

end Tiled

namespace Cursor

/-- The cursor stands inside `contents`. -/
structure On (contents : Bytes) (c : Cursor) : Prop where
  inside : c.offset ≤ contents.length
  rest : c.rest = contents.drop c.offset

theorem on_atStart (contents : Bytes) : (atStart contents).On contents :=
  ⟨Nat.zero_le _, rfl⟩

theorem On.advance {c : Cursor} (hc : c.On contents) {rest : Bytes} (hrest : rest <:+ c.rest) :
    (c.advance rest).On contents := by
  have hinside := hc.inside
  have hlen : c.rest.length = contents.length - c.offset := by rw [hc.rest, List.length_drop]
  have hle := hrest.length_le
  constructor
  · show c.offset + (c.rest.length - rest.length) ≤ contents.length
    omega
  · show rest = contents.drop (c.offset + (c.rest.length - rest.length))
    rw [← List.drop_drop, ← hc.rest]
    exact List.suffix_iff_eq_drop.mp hrest

/-- A cursor with nothing left stands at the end. -/
theorem On.offset_eq {c : Cursor} (hc : c.On contents) (hnil : c.rest.isEmpty = true) :
    c.offset = contents.length := by
  have hinside := hc.inside
  have hdrop := hc.rest
  rw [List.isEmpty_iff.mp hnil, eq_comm, List.drop_eq_nil_iff] at hdrop
  omega

/-- The cursor after a call of `next` ends no later than the one before. -/
theorem next_ends_le (item : Item α) (c : Cursor) :
    (c.next item).2.offset + (c.next item).2.rest.length ≤ c.offset + c.rest.length := by
  by_cases hnil : c.rest.isEmpty = true
  · exact Nat.le_of_eq (by rw [next_at_end hnil])
  · cases hrun : (item.decode c.offset).run c.rest with
    | fault cause rest =>
      rw [next_of_fault hnil hrun]
      exact Nat.le_add_right c.offset _
    | ok value rest =>
      have hless := item.consuming c.offset hrun
      rw [next_of_ok hrun]
      show c.offset + (c.rest.length - rest.length) + rest.length ≤ c.offset + c.rest.length
      omega

/-! ### Where a run stops -/

theorem stop_at_end {c : Cursor} (hnil : c.rest.isEmpty = true) : c.stop item = c := by
  rw [stop, if_pos hnil]

theorem stop_of_ok {c : Cursor} {value : α} {rest : Bytes}
    (h : (item.decode c.offset).run c.rest = .ok value rest) :
    c.stop item = (c.advance rest).stop item := by
  rw [stop, if_neg (not_at_end h)]
  split
  · next value' rest' h' =>
    rw [h] at h'
    cases h'
    rfl
  · next cause rest' h' =>
    rw [h] at h'
    cases h'

theorem stop_at_fault {c : Cursor} (hcons : ¬ c.rest.isEmpty = true) {cause : Fault} {rest : Bytes}
    (h : (item.decode c.offset).run c.rest = .fault cause rest) : c.stop item = c := by
  rw [stop, if_neg hcons]
  split
  · next value rest' h' =>
    rw [h] at h'
    cases h'
  · rfl

theorem tiled_run (hf : item.Forward) {c : Cursor} (hc : c.On contents) :
    Tiled item contents c.offset (c.run item).items (c.stop item).offset := by
  -- Along the run the cursor stays on the section: `On` is the invariant.
  fun_induction run item c with
  | case1 c hnil =>
    rw [stop_at_end hnil]
    exact .nil hc.inside
  | case2 c hcons value rest h ih =>
    have hlt := item.consuming c.offset h
    have hnext := hc.advance ((hf c.offset).suffix h)
    rw [stop_of_ok h]
    refine .cons ?_ ?_ (ih hnext)
    · rw [← hc.rest, ← hnext.rest]
      exact h
    · show c.offset < c.offset + (c.rest.length - rest.length)
      omega
  | case3 c hcons cause rest h =>
    rw [stop_at_fault hcons h]
    exact .nil hc.inside

/-- A run without a fault goes on to the end of the section. -/
theorem stop_of_done (hf : item.Forward) {c : Cursor} (hc : c.On contents)
    (hdone : (c.run item).fault = none) : (c.stop item).offset = contents.length := by
  fun_induction run item c with
  | case1 c hnil =>
    rw [stop_at_end hnil]
    exact hc.offset_eq hnil
  | case2 c hcons value rest h ih =>
    rw [stop_of_ok h]
    exact ih (hc.advance ((hf c.offset).suffix h)) hdone
  | case3 c hcons cause rest h => cases hdone

/-- The fault of a run is that of the item at which it stops. -/
theorem stop_of_fault (hf : item.Forward) {c : Cursor} (hc : c.On contents) {cause : Fault}
    (hfault : (c.run item).fault = some cause) : (c.stop item).offset < contents.length ∧
      ∃ rest, (item.decode (c.stop item).offset).run (contents.drop (c.stop item).offset) =
        .fault cause rest := by
  fun_induction run item c with
  | case1 c hnil => cases hfault
  | case2 c hcons value rest h ih =>
    rw [stop_of_ok h]
    exact ih (hc.advance ((hf c.offset).suffix h)) hfault
  | case3 c hcons cause' rest h =>
    cases hfault
    have hinside : c.offset < contents.length := by
      rcases Nat.lt_or_eq_of_le hc.inside with hlt | heq
      · exact hlt
      · rw [hc.rest, heq, List.drop_length] at hcons
        exact absurd rfl hcons
    rw [stop_at_fault hcons h, ← hc.rest]
    exact ⟨hinside, rest, h⟩

/-! ### One call after another -/

/-- The cursor after `count` calls of `next`. -/
def after (item : Item α) (c : Cursor) : Nat → Cursor
  | 0 => c
  | count + 1 => (c.next item).2.after item count

/-- What the call of `next` gives that comes after `count` others. -/
def answer (item : Item α) (c : Cursor) (count : Nat) : Except Fault (Option α) :=
  ((c.after item count).next item).1

/-- At the end every call finds nothing. -/
theorem answer_at_end {c : Cursor} (hnil : c.rest.isEmpty = true) (count : Nat) :
    c.answer item count = .ok none := by
  have hafter : c.after item count = c := by
    induction count with
    | zero => rfl
    | succ count ih => rw [after, next_at_end hnil, ih]
  rw [answer, hafter, next_at_end hnil]

theorem answer_eq (item : Item α) (c : Cursor) (count : Nat) :
    c.answer item count = (c.run item).answer count := by
  fun_induction run item c generalizing count with
  | case1 c hnil =>
    rw [answer_at_end hnil]
    cases count <;> rfl
  | case2 c hcons value rest h ih =>
    have hnext := next_of_ok h
    cases count with
    | zero => rw [answer, after, hnext]; rfl
    | succ count =>
      -- The later calls are those of a cursor that starts behind the item.
      have hstep : c.answer item (count + 1) = (c.advance rest).answer item count := by
        rw [answer, after, hnext, answer]
      rw [hstep, ih, Progress.answer_cons_succ]
  | case3 c hcons cause rest h =>
    have hnext := next_of_fault hcons h
    cases count with
    | zero => rw [answer, after, hnext]; rfl
    | succ count =>
      -- The fault left nothing, so every later call is one at the end.
      have hstep : c.answer item (count + 1) = ({ c with rest := [] } : Cursor).answer item count := by
        rw [answer, after, hnext, answer]
      rw [hstep, answer_at_end rfl]
      rfl

end Cursor

end Dwarf
