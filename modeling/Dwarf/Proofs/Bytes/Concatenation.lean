import Dwarf.Bytes.Sequence
/-!
# Items of one section behind those of another

A cursor tells each item where it starts, and then goes on by the bytes that the item took.
So if two sections are laid end to end, the items of the second are read as before, each
from a place that lies further on by the length of the first. Two properties of an item are
enough for that:

> `Item.Keeps`: an item that was read is read again if bytes are added at the end.
>
> `Item.Moves`: the place where an item starts does nothing but move its value.

> `Cursor.run_append`: a run that gets to the end of its bytes goes on into bytes behind them.
>
> `Cursor.run_shift`: a run from further on reads the same items, moved.
-/

namespace Dwarf

variable {α β : Type}

namespace Progress

/-- `items` were read before the rest. -/
def prepend (items : List α) (p : Progress α) : Progress α := { p with items := items ++ p.items }

theorem prepend_cons (item : α) (items : List α) (p : Progress α) :
    p.prepend (item :: items) = (p.prepend items).cons item := rfl

theorem prepend_append (items items' : List α) (p : Progress α) :
    p.prepend (items ++ items') = (p.prepend items').prepend items := by
  simp [prepend]

/-- Every item that was read, after `f`. -/
def map (f : α → β) (p : Progress α) : Progress β := { items := p.items.map f, fault := p.fault }

theorem map_cons (f : α → β) (item : α) (p : Progress α) :
    (p.cons item).map f = (p.map f).cons (f item) := rfl

theorem complete_map (f : α → β) (p : Progress α) :
    (p.map f).complete = p.complete.map (List.map f) := by
  cases p with
  | mk items fault => cases fault <;> rfl

end Progress

/-- What `move` does to a value is all that shows how far on its item starts. -/
def Item.Moves (item : Item α) (move : Nat → α → α) : Prop :=
  ∀ distance offset, item.decode (offset + distance) = move distance <$> item.decode offset

/-- An item that was read is read again from the same bytes in front of others. -/
def Item.Keeps (item : Item α) : Prop :=
  ∀ {offset : Nat} {bs rest : Bytes} {value : α}, (item.decode offset).run bs = .ok value rest →
    ∀ tail, (item.decode offset).run (bs ++ tail) = .ok value (rest ++ tail)

theorem Decoder.run_map (f : α → β) (d : Decoder α) (bs : Bytes) :
    (f <$> d).run bs = match d.run bs with
      | .ok value rest => .ok (f value) rest
      | .fault cause rest => .fault cause rest := rfl

namespace Cursor

variable {item : Item α} {move : Nat → α → α} {c : Cursor}

/-- The same bytes, found further on. -/
def shift (c : Cursor) (distance : Nat) : Cursor := { c with offset := c.offset + distance }

theorem advance_shift (c : Cursor) (distance : Nat) (rest : Bytes) :
    (c.shift distance).advance rest = (c.advance rest).shift distance := by
  simp only [advance, shift, Nat.add_right_comm]

theorem run_shift (hm : item.Moves move) (c : Cursor) (distance : Nat) :
    (c.shift distance).run item = (c.run item).map (move distance) := by
  fun_induction run item c with
  | case1 c hnil => exact run_at_end hnil
  | case2 c hcons value rest h ih =>
    have hmoved : (item.decode (c.shift distance).offset).run (c.shift distance).rest =
        .ok (move distance value) rest := by
      rw [shift, hm distance c.offset, Decoder.run_map, h]
    rw [run_of_ok hmoved, advance_shift, ih, Progress.map_cons]
  | case3 c hcons cause rest h =>
    have hmoved : (item.decode (c.shift distance).offset).run (c.shift distance).rest =
        .fault cause rest := by
      rw [shift, hm distance c.offset, Decoder.run_map, h]
    exact run_of_fault hcons hmoved

theorem run_append (hk : item.Keeps) {c : Cursor} (hdone : (c.run item).fault = none)
    (tail : Bytes) : run item ⟨c.offset, c.rest ++ tail⟩ =
      (run item ⟨c.offset + c.rest.length, tail⟩).prepend (c.run item).items := by
  fun_induction run item c with
  | case1 c hnil =>
    rw [List.isEmpty_iff.mp hnil]
    rfl
  | case2 c hcons value rest h ih =>
    have hlt := item.consuming c.offset h
    have hadvance : advance ⟨c.offset, c.rest ++ tail⟩ (rest ++ tail) =
        ⟨(c.advance rest).offset, rest ++ tail⟩ := by
      simp only [advance, List.length_append, Nat.add_sub_add_right]
    have hend : (c.advance rest).offset + rest.length = c.offset + c.rest.length := by
      simp only [advance]
      omega
    rw [← hend, run_of_ok (hk h tail), hadvance]
    exact congrArg (Progress.cons value) (ih hdone)
  | case3 c hcons cause rest h => cases hdone

end Cursor

end Dwarf
