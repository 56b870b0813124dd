import Dwarf.Proofs.Bytes.Concatenation
import Dwarf.Proofs.Bytes.LastByte
/-!
# What a failed run has taken

A decoder that fails leaves its caller at some place in the bytes, and the caller may read on from
there. The decoders that are not put together from others look before they take, so they have
taken nothing. What is put together has taken what its first part did: the length in front of a
block, and the four bytes that announce a length of eight more. A LEB128 number is looked at after
all of its bytes have been taken, and one without an end has taken all there is.

> `Leaves.loses_bind`: the loss of two decoders, of which the second takes nothing when it fails,
> is what the first has taken.
-/

namespace Dwarf

namespace Decoder

open Leb128

variable {α β : Type} {taken lost : Bytes → Nat}

/-- A run that fails has taken as many bytes as `lost` says. -/
def Loses (lost : Bytes → Nat) (d : Decoder α) : Prop :=
  ∀ ⦃bs rest : Bytes⦄ ⦃cause : Fault⦄, d.run bs = .fault cause rest → rest = bs.drop (lost bs)

/-- A run that fails has taken nothing. -/
abbrev Clean (d : Decoder α) : Prop := d.Loses fun _ => 0

/-- A run takes as many bytes as `taken` says, whether or not it fails. -/
def Leaves (taken : Bytes → Nat) (d : Decoder α) : Prop :=
  ∀ bs, (d.run bs).rest = bs.drop (taken bs)

theorem clean_pure (value : α) : (pure value : Decoder α).Clean := by
  intro bs rest cause h
  cases h

theorem clean_fail (cause : Fault) : (fail cause : Decoder α).Clean := by
  intro bs rest cause' h
  cases h
  rfl

theorem Loses.map {d : Decoder α} (hd : d.Loses lost) (f : α → β) : (f <$> d).Loses lost := by
  intro bs rest cause h
  rw [run_map] at h
  cases hrun : d.run bs with
  | ok value mid =>
    rw [hrun] at h
    cases h
  | fault cause' mid =>
    rw [hrun] at h
    cases h
    exact hd hrun

theorem Loses.ite {p : Prop} [Decidable p] {d e : Decoder α} (hd : d.Loses lost)
    (he : e.Loses lost) : (if p then d else e).Loses lost := by
  by_cases h : p
  · rw [if_pos h]
    exact hd
  · rw [if_neg h]
    exact he

/-- Where the second part takes nothing when it fails, the loss is what the first part took. -/
theorem Leaves.loses_bind {d : Decoder α} {f : α → Decoder β} (hd : d.Leaves taken)
    (hf : ∀ value, (f value).Clean) : (d >>= f).Loses taken := by
  intro bs rest cause h
  have hleft := hd bs
  rw [run_bind] at h
  cases hrun : d.run bs with
  | ok value mid =>
    rw [hrun] at h hleft
    exact (hf value h).trans hleft
  | fault cause' mid =>
    rw [hrun] at h hleft
    cases h
    exact hleft

theorem Leaves.loses {d : Decoder α} (hd : d.Leaves taken) : d.Loses taken := by
  intro bs rest cause h
  have hleft := hd bs
  rw [h] at hleft
  exact hleft

/-- The bytes of an integer of `width` bytes, if they are there. -/
def prefixSize (width : Nat) (bs : Bytes) : Nat := if width ≤ bs.length then width else 0

/-- The bytes of a number up to its last one, or all bytes if it has none. -/
def numberSize (bs : Bytes) : Nat := min (bs.findIdx (· < 0x80) + 1) bs.length

theorem prefixSize_le (width : Nat) (bs : Bytes) : prefixSize width bs ≤ bs.length := by
  rw [prefixSize]
  split
  · assumption
  · exact Nat.zero_le _

theorem leaves_take (count : Nat) : (take count).Leaves (prefixSize count) := by
  intro bs
  rw [prefixSize]
  by_cases h : count ≤ bs.length
  · rw [if_pos h, take_of_le h]
    rfl
  · rw [if_neg h, take_of_short (Nat.lt_of_not_le h)]
    rfl

theorem clean_take (count : Nat) : (take count).Clean := by
  intro bs rest cause h
  simp only [take] at h
  split at h
  · cases h
  · cases h
    rfl

theorem clean_uint (order : ByteOrder) (width : Nat) : (uint order width).Clean :=
  (clean_take width).map _

theorem leaves_uint (order : ByteOrder) (width : Nat) :
    (uint order width).Leaves (prefixSize width) := by
  intro bs
  have htaken := leaves_take width bs
  show (Outcome.rest ((order.decode <$> take width).run bs)) = _
  rw [run_map]
  cases hrun : (take width).run bs with
  | ok head rest =>
    rw [hrun] at htaken
    exact htaken
  | fault cause rest =>
    rw [hrun] at htaken
    exact htaken

/-- Behind the first four bytes only the length of eight bytes can be missing, or no length is
announced by them. -/
theorem loses_initialLength (order : ByteOrder) : (initialLength order).Loses (prefixSize 4) :=
  (leaves_uint order 4).loses_bind fun _ =>
    .ite (clean_pure _) (.ite ((clean_uint order 8).map fun long => (long, Format.dwarf64)) (clean_fail _))

theorem loses_block (order : ByteOrder) (width : Nat) : (block order width).Loses fun bs =>
    if width = 1 ∨ width = 2 ∨ width = 4 then prefixSize width bs else 0 := by
  by_cases h : width = 1 ∨ width = 2 ∨ width = 4
  · simp only [block, if_pos h]
    exact (leaves_uint order width).loses_bind fun count => clean_take count
  · simp only [block, if_neg h]
    exact clean_fail _

theorem clean_byte : byte.Clean := by
  intro bs rest cause h
  cases bs with
  | nil =>
    cases h
    rfl
  | cons b bs => cases h

theorem clean_terminated : terminated.Clean := by
  intro bs rest cause h
  simp only [terminated] at h
  split at h
  · cases h
    rfl
  · cases h

/-- A number takes all bytes up to its last one before they are looked at. -/
theorem leaves_of_digits {fits : Bytes → Bool} {value : Bytes → α} {cause : Fault} :
    Leaves numberSize ⟨fun bs => match digits? bs with
      | none => .fault .unexpectedEnd []
      | some (ds, rest) => if fits ds then .ok (value ds) rest else .fault cause rest⟩ := by
  intro bs
  simp only [digits?_eq, numberSize]
  cases hlast : bs.findIdx? (· < 0x80) with
  | none =>
    have hall := List.findIdx?_eq_none_iff_findIdx_eq.mp hlast
    rw [hall, Nat.min_eq_right (Nat.le_succ _), List.drop_length]
    rfl
  | some k =>
    obtain ⟨hlt, hk⟩ := List.findIdx?_eq_some_iff_findIdx_eq.mp hlast
    rw [hk, Nat.min_eq_left hlt]
    show Outcome.rest (if fits (bs.take (k + 1)) then _ else _) = _
    split <;> rfl

theorem leaves_unsigned : unsigned.Leaves numberSize := leaves_of_digits

theorem leaves_signed : signed.Leaves numberSize := leaves_of_digits

end Decoder

end Dwarf
