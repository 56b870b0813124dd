import Dwarf.Bytes.Sequence
import Dwarf.Proofs.Bytes.Delimited
/-!
# The faults that a run may end with

A decoder that is put together from others fails for the causes that these have, and for those
that it adds itself. So what may come of it is read off its parts, one rule for each way to put
decoders together:

> `Decoder.Raises`: a run that fails does so for one of these causes.

An address or a block of a wrong width is refused. Where the width is right, that is no cause.
-/

namespace Dwarf

namespace Decoder

variable {α β : Type} {d : Decoder α} {p : Fault → Prop}

/-- A run that fails does so for one of these causes. -/
def Raises (p : Fault → Prop) (d : Decoder α) : Prop :=
  ∀ ⦃bs rest : Bytes⦄ ⦃cause : Fault⦄, d.run bs = .fault cause rest → p cause

theorem Raises.of_value (hd : d.Raises p) {bs : Bytes} {cause : Fault}
    (h : d.value bs = .error cause) : p cause := by
  obtain ⟨rest, hrun⟩ := value_eq_error.mp h
  exact hd hrun

/-! ### Decoders put together -/

theorem Raises.pure (value : α) : (pure value : Decoder α).Raises p := by
  intro bs rest cause h
  cases h

theorem Raises.fail {cause : Fault} (hcause : p cause) : (fail cause : Decoder α).Raises p := by
  intro bs rest cause' h
  cases h
  exact hcause

theorem Raises.bind {f : α → Decoder β} (hd : d.Raises p) (hf : ∀ value, (f value).Raises p) :
    (d >>= f).Raises p := by
  intro bs rest cause h
  rw [run_bind] at h
  cases hrun : d.run bs with
  | ok value mid =>
    rw [hrun] at h
    exact hf value h
  | fault cause' mid =>
    rw [hrun] at h
    cases h
    exact hd hrun

theorem Raises.ite {c : Prop} [Decidable c] {e : Decoder α} (hd : c → d.Raises p)
    (he : ¬ c → e.Raises p) : (if c then d else e).Raises p := by
  by_cases h : c
  · rw [if_pos h]
    exact hd h
  · rw [if_neg h]
    exact he h

/-- Whatever the cause was, it is reported as this one. -/
theorem Raises.reporting {cause : Fault} (hcause : p cause) : (d.reporting cause).Raises p := by
  intro bs rest cause' h
  simp only [Decoder.reporting] at h
  split at h
  · cases h
  · cases h
    exact hcause

theorem Raises.within (hd : d.Raises p) (inner : Bytes) : (d.within inner).Raises p := by
  intro bs rest cause h
  simp only [Decoder.within] at h
  split at h
  · cases h
  · next hrun =>
    cases h
    exact hd hrun

/-! ### Primitives -/

section Primitives

variable (hend : p .unexpectedEnd)

include hend

theorem raises_take (count : Nat) : (take count).Raises p := by
  intro bs rest cause h
  simp only [take] at h
  split at h
  · cases h
  · cases h
    exact hend

theorem raises_byte : byte.Raises p := by
  intro bs rest cause h
  cases bs with
  | nil =>
    cases h
    exact hend
  | cons b bs => cases h

theorem raises_terminated : terminated.Raises p := by
  intro bs rest cause h
  simp only [terminated] at h
  split at h
  · cases h
    exact hend
  · cases h

theorem raises_uint (order : ByteOrder) (width : Nat) : (uint order width).Raises p :=
  (raises_take hend width).bind fun _ => .pure _

theorem raises_offset (order : ByteOrder) (format : Format) : (offset order format).Raises p :=
  raises_uint hend order format.wordSize

theorem raises_unsigned (hover : p .unsignedOverflow) : unsigned.Raises p := by
  intro bs rest cause h
  simp only [unsigned] at h
  split at h
  · cases h
    exact hend
  · split at h
    · cases h
    · cases h
      exact hover

theorem raises_signed (hover : p .signedOverflow) : signed.Raises p := by
  intro bs rest cause h
  simp only [signed] at h
  split at h
  · cases h
    exact hend
  · split at h
    · cases h
    · cases h
      exact hover

/-- The size of an address is not asked for if it is one of these. -/
theorem raises_address (order : ByteOrder) {size : Nat}
    (hsize : size = 1 ∨ size = 2 ∨ size = 4 ∨ size = 8) : (address order size).Raises p := by
  unfold address
  rw [if_pos hsize]
  exact raises_uint hend order size

theorem raises_block (order : ByteOrder) {width : Nat}
    (hwidth : width = 1 ∨ width = 2 ∨ width = 4) : (block order width).Raises p := by
  unfold block
  rw [if_pos hwidth]
  exact (raises_uint hend order width).bind fun count => raises_take hend count

theorem raises_countedBlock (hover : p .unsignedOverflow) : countedBlock.Raises p :=
  (raises_unsigned hend hover).bind fun count => raises_take hend count

end Primitives

end Decoder

namespace Cursor

variable {α : Type} {item : Item α} {p : Fault → Prop} {c : Cursor} {cause : Fault}

theorem raises_next (hitem : ∀ offset, (item.decode offset).Raises p)
    (h : (c.next item).1 = .error cause) : p cause := by
  unfold next at h
  split at h
  · cases h
  · split at h
    · cases h
    · next hrun =>
      cases h
      exact hitem _ hrun

/-- The fault of a sequence is one that its items may have. -/
theorem raises_run (hitem : ∀ offset, (item.decode offset).Raises p)
    (h : (c.run item).fault = some cause) : p cause := by
  fun_induction Cursor.run item c with
  | case1 c hnil => cases h
  | case2 c hcons value rest hrun ih => exact ih h
  | case3 c hcons cause' rest hrun =>
    cases h
    exact hitem _ hrun

end Cursor

end Dwarf
