import Dwarf.Bytes.Decoder
/-!
# Items laid end to end

A section of units, of abbreviation tables or of strings is a sequence of items,
each starting where the one before ends. `Cursor.next` reads the item under the
cursor and moves past it. The first fault ends the sequence for good: after it
there is nothing left to read.

`Cursor.run` is what repeated calls of `next` give, as one value: the items, and
the fault that cut the sequence short if one did. It ends because an `Item` takes
at least one byte.

> `run_of_next`: a run is what `next` gives, and then the run from there.
-/

namespace Dwarf

/-- What was read before reading stopped, and why it stopped if not at the end. -/
structure Progress (α : Type) where
  /-- What was read, in order. -/
  items : List α
  /-- Why there is no more, unless the end was reached. -/
  fault : Option Fault
  deriving DecidableEq, Repr

namespace Progress

variable {α : Type}

/-- The end was reached. -/
def done : Progress α := ⟨[], none⟩

/-- Reading stopped. -/
def stop (cause : Fault) : Progress α := ⟨[], some cause⟩

/-- `item` was read before the rest. -/
def cons (item : α) (p : Progress α) : Progress α := { p with items := item :: p.items }

/-- All items, or the fault that kept some of them from being read. -/
def complete (p : Progress α) : Except Fault (List α) :=
  match p.fault with
  | none => .ok p.items
  | some cause => .error cause

theorem complete_eq_ok {p : Progress α} {items : List α} :
    p.complete = .ok items ↔ p.fault = none ∧ p.items = items := by
  unfold complete
  cases p.fault with
  | none => simp
  | some cause => simp

theorem complete_eq_error {p : Progress α} {cause : Fault} :
    p.complete = .error cause ↔ p.fault = some cause := by
  unfold complete
  cases p.fault with
  | none => simp
  | some cause' => simp

end Progress

/-- A decoder of items that takes at least one byte for each. It is told how far
into the section the item starts. -/
structure Item (α : Type) where
  /-- Read the item that starts at an offset. -/
  decode : (offset : Nat) → Decoder α
  /-- An item takes at least one byte. -/
  consuming : ∀ offset, Decoder.Consuming (decode offset)

/-- A place in a section, and what is left of the section from there. -/
structure Cursor where
  /-- How far into the section the place is. -/
  offset : Nat
  /-- The bytes from there on. -/
  rest : Bytes
  deriving DecidableEq, Repr, Inhabited

namespace Cursor

variable {α : Type}

/-- The start of a section. -/
def atStart (bs : Bytes) : Cursor := ⟨0, bs⟩

/-- The place after `taken` bytes, where `rest` is left. -/
def advance (c : Cursor) (rest : Bytes) : Cursor :=
  ⟨c.offset + (c.rest.length - rest.length), rest⟩

/-- The item under the cursor, or `none` at the end of the section, and the
cursor after it. After a fault nothing is left. -/
def next (item : Item α) (c : Cursor) : Except Fault (Option α) × Cursor :=
  if c.rest.isEmpty then (.ok none, c)
  else match (item.decode c.offset).run c.rest with
    | .ok value rest => (.ok (some value), c.advance rest)
    | .fault cause _ => (.error cause, { c with rest := [] })

/-- All that repeated calls of `next` give. -/
def run (item : Item α) (c : Cursor) : Progress α :=
  if c.rest.isEmpty then .done
  else match _h : (item.decode c.offset).run c.rest with
    | .ok value rest => (run item (c.advance rest)).cons value
    | .fault cause _ => .stop cause
  termination_by c.rest.length
  decreasing_by exact item.consuming c.offset _h

/-- Where a run stops: at the end of the section, or at the item that could not
be read. -/
def stop (item : Item α) (c : Cursor) : Cursor :=
  if c.rest.isEmpty then c
  else match _h : (item.decode c.offset).run c.rest with
    | .ok _ rest => stop item (c.advance rest)
    | .fault _ _ => c
  termination_by c.rest.length
  decreasing_by exact item.consuming c.offset _h

theorem run_of_next (item : Item α) (c : Cursor) :
    c.run item = match c.next item with
      | (.ok none, _) => .done
      | (.ok (some value), c') => (c'.run item).cons value
      | (.error cause, _) => .stop cause := by
  rw [run, next]
  by_cases h : c.rest.isEmpty
  · simp only [if_pos h]
  · simp only [if_neg h]
    split <;> simp_all

/-! ### One step -/

variable {item : Item α} {c : Cursor} {value : α} {cause : Fault} {rest : Bytes}

/-- An item takes a byte, so there is none at the end. -/
theorem not_at_end (h : (item.decode c.offset).run c.rest = .ok value rest) :
    ¬ c.rest.isEmpty = true := by
  intro hnil
  have hless := item.consuming c.offset h
  rw [List.isEmpty_iff.mp hnil] at hless
  exact absurd hless (Nat.not_lt_zero _)

theorem next_at_end (hnil : c.rest.isEmpty = true) : c.next item = (.ok none, c) := by
  rw [next, if_pos hnil]

theorem next_of_ok (h : (item.decode c.offset).run c.rest = .ok value rest) :
    c.next item = (.ok (some value), c.advance rest) := by
  rw [next, if_neg (not_at_end h), h]

theorem next_of_fault (hcons : ¬ c.rest.isEmpty = true)
    (h : (item.decode c.offset).run c.rest = .fault cause rest) :
    c.next item = (.error cause, { c with rest := [] }) := by
  rw [next, if_neg hcons, h]

theorem run_at_end (hnil : c.rest.isEmpty = true) : c.run item = .done := by
  rw [run_of_next, next_at_end hnil]

theorem run_of_ok (h : (item.decode c.offset).run c.rest = .ok value rest) :
    c.run item = ((c.advance rest).run item).cons value := by
  rw [run_of_next, next_of_ok h]

theorem run_of_fault (hcons : ¬ c.rest.isEmpty = true)
    (h : (item.decode c.offset).run c.rest = .fault cause rest) : c.run item = .stop cause := by
  rw [run_of_next, next_of_fault hcons h]

end Cursor

end Dwarf
