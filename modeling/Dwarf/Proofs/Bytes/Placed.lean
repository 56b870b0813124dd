import Dwarf.Proofs.Bytes.Delimited
/-!
# Fields at known positions

A header of fixed layout can be described without a decoder: such a field is at such a position.
A decoder that goes through the fields one after another reads what stands at the positions it
comes through, and these are sums of the widths before them.

> `Decoder.ReadsAt`: a run from one position of a file to another.

> `Decoder.Fixed`: a record of a fixed size is whatever so many bytes are, so that reading it
> cannot fail where they are there.
-/

namespace Dwarf

/-- The `width` bytes of `file` from `position` on are the integer `value`. -/
def ByteOrder.FieldAt (order : ByteOrder) (file : Bytes) (position width value : Nat) : Prop :=
  order.IsInteger width value ((file.drop position).take width)

instance (order : ByteOrder) (file : Bytes) (position width value : Nat) :
    Decidable (order.FieldAt file position width value) :=
  let bytes := (file.drop position).take width
  decidable_of_iff (bytes.length = width ∧ order.decode bytes = value)
    ⟨fun h => ⟨h.1, h.2⟩, fun h => ⟨h.length, h.value⟩⟩

namespace Decoder

variable {α β : Type} {d : Decoder α} {file : Bytes} {start stop : Nat}

/-- From `start` on, `file` is read up to `stop`, for this value. -/
def ReadsAt (d : Decoder α) (file : Bytes) (start : Nat) (value : α) (stop : Nat) : Prop :=
  d.run (file.drop start) = .ok value (file.drop stop)

theorem readsAt_pure (value : α) : (pure value : Decoder α).ReadsAt file start value start := rfl

theorem ReadsAt.bind {f : α → Decoder β} {first : α} {value : β} {middle : Nat}
    (hd : d.ReadsAt file start first middle) (hf : (f first).ReadsAt file middle value stop) :
    (d >>= f).ReadsAt file start value stop :=
  run_bind_eq_ok.mpr ⟨first, file.drop middle, hd, hf⟩

theorem ReadsAt.reporting {value : α} (hd : d.ReadsAt file start value stop) (cause : Fault) :
    (d.reporting cause).ReadsAt file start value stop := by
  unfold ReadsAt at hd ⊢
  simp only [Decoder.reporting, hd]

theorem ReadsAt.value_eq {value : α} (hd : d.ReadsAt file start value stop) :
    d.value (file.drop start) = .ok value :=
  value_eq_ok.mpr ⟨file.drop stop, hd⟩

theorem readsAt_take {count : Nat} (h : ((file.drop start).take count).length = count) :
    (take count).ReadsAt file start ((file.drop start).take count) (start + count) := by
  unfold ReadsAt take
  simp only [if_pos h, List.drop_drop]

theorem readsAt_skip {count : Nat} (h : start + count ≤ file.length) :
    (skip count).ReadsAt file start ⟨⟩ (start + count) := by
  have hlen : ((file.drop start).take count).length = count := by
    rw [List.length_take, List.length_drop]
    omega
  exact (readsAt_take hlen).bind (readsAt_pure _)

theorem readsAt_uint {order : ByteOrder} {width value : Nat}
    (h : order.FieldAt file start width value) :
    (uint order width).ReadsAt file start value (start + width) := by
  obtain ⟨hlen, rfl⟩ := h
  exact (readsAt_take hlen).bind (readsAt_pure _)

/-! ### Records of a fixed size -/

/-- Any `width` bytes are read for a value, whatever is behind them. -/
def Fixed (width : Nat) (d : Decoder α) : Prop :=
  ∀ head : Bytes, head.length = width → ∃ value, ∀ tail, d.run (head ++ tail) = .ok value tail

theorem fixed_pure (value : α) : (pure value : Decoder α).Fixed 0 := by
  intro head hlen
  rw [List.length_eq_zero_iff.mp hlen]
  exact ⟨value, fun _ => rfl⟩

theorem Fixed.bind {f : α → Decoder β} {m n : Nat} (hd : d.Fixed m)
    (hf : ∀ value, (f value).Fixed n) : (d >>= f).Fixed (m + n) := by
  intro head hlen
  obtain ⟨first, hfirst⟩ := hd (head.take m) (by rw [List.length_take]; omega)
  obtain ⟨value, hvalue⟩ := hf first (head.drop m) (by rw [List.length_drop]; omega)
  refine ⟨value, fun tail => ?_⟩
  have hrun := hfirst (head.drop m ++ tail)
  rw [← List.append_assoc, List.take_append_drop] at hrun
  rw [run_bind, hrun]
  exact hvalue tail

theorem fixed_take (count : Nat) : (take count).Fixed count := by
  intro head hlen
  rw [← hlen]
  exact ⟨head, fun tail => take_append head tail⟩

theorem fixed_skip (count : Nat) : (skip count).Fixed count :=
  (fixed_take count).bind fun _ => fixed_pure _

theorem fixed_uint (order : ByteOrder) (width : Nat) : (uint order width).Fixed width :=
  (fixed_take width).bind fun _ => fixed_pure _

/-- The record at the start of a file is found in its own bytes. -/
theorem Fixed.value_take {width : Nat} (hd : d.Fixed width) (hlen : width ≤ file.length) :
    ∃ value, d.value file = .ok value ∧ d.value (file.take width) = .ok value := by
  obtain ⟨value, hrun⟩ := hd (file.take width) (List.length_take_of_le hlen)
  have hfile := hrun (file.drop width)
  have htake := hrun []
  rw [List.take_append_drop] at hfile
  rw [List.append_nil] at htake
  exact ⟨value, value_eq_ok.mpr ⟨_, hfile⟩, value_eq_ok.mpr ⟨_, htake⟩⟩

end Decoder

end Dwarf
