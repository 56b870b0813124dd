import Dwarf.Log.Event
/-!
# The output of a dump

A dump writes text, has events, and may end with a fault. What was written before
the fault stays written, to the letter: a fault in the middle of a line leaves
half a line.

> Outputs are put together by `++`. After a fault nothing more comes, and
> `append_assoc` says that it does not matter how the parts are grouped.
-/

namespace Dwarf

/-- The text and the events of a dump, and the fault that ended it if one did. -/
structure Output where
  /-- The pieces of text, in the order in which they are written. -/
  pieces : List String
  /-- The events, in the order in which they happen. -/
  events : List Event
  /-- Why the dump is not complete. -/
  fault : Option Fault

namespace Output

/-- Nothing at all. -/
def empty : Output := ⟨[], [], none⟩

/-- A fault. -/
def fail (cause : Fault) : Output := ⟨[], [], some cause⟩

/-- A piece of text. -/
def write (piece : String) : Output := ⟨[piece], [], none⟩

/-- Whole lines. -/
def lines (ls : List String) : Output := ⟨ls.map (· ++ "\n"), [], none⟩

/-- Events. -/
def log (events : List Event) : Output := ⟨[], events, none⟩

/-- One output after another. Nothing comes after a fault. -/
def append (a b : Output) : Output :=
  match a.fault with
  | some _ => a
  | none => ⟨a.pieces ++ b.pieces, a.events ++ b.events, b.fault⟩

instance : Append Output := ⟨append⟩

/-- Outputs one after another. -/
def concat : List Output → Output
  | [] => empty
  | a :: rest => a ++ concat rest

/-- The whole text. -/
def text (o : Output) : String := String.join o.pieces

theorem append_of_fault {a : Output} (b : Output) {cause : Fault} (h : a.fault = some cause) :
    a ++ b = a := by
  show append a b = a
  rw [append, h]

theorem append_of_done {a : Output} (b : Output) (h : a.fault = none) :
    a ++ b = ⟨a.pieces ++ b.pieces, a.events ++ b.events, b.fault⟩ := by
  show append a b = _
  rw [append, h]

/-- The text of an output that goes on is followed by the text of the rest. -/
theorem text_append {a : Output} (b : Output) (h : a.fault = none) :
    (a ++ b).text = a.text ++ b.text := by
  rw [append_of_done b h]
  exact String.join_append

@[simp] theorem empty_append (a : Output) : empty ++ a = a := by
  rw [append_of_done a rfl]
  rfl

@[simp] theorem append_empty (a : Output) : a ++ empty = a := by
  cases h : a.fault with
  | some cause => exact append_of_fault _ h
  | none =>
    rw [append_of_done _ h]
    cases a
    simp_all [empty]

theorem append_assoc (a b c : Output) : a ++ b ++ c = a ++ (b ++ c) := by
  cases ha : a.fault with
  | some cause => rw [append_of_fault b ha, append_of_fault c ha, append_of_fault _ ha]
  | none =>
    cases hb : b.fault with
    | some cause =>
      rw [append_of_fault c hb]
      exact append_of_fault c (by rw [append_of_done b ha, hb])
    | none =>
      have hab : (a ++ b).fault = none := by rw [append_of_done b ha, hb]
      rw [append_of_done c hab, append_of_done (b ++ c) ha, append_of_done b ha,
        append_of_done c hb]
      simp only [List.append_assoc]

end Output

end Dwarf
