import Dwarf.Bytes.Leb128
/-!
# How much a decoder takes

That a decoder only moves forward, and takes a byte for what it reads, is all that its reading
needs to end. Here this is refined in three ways.

> `Decoder.Takes`: for what it reads, a decoder takes at least so many bytes.
>
> `Decoder.Hungry`: a decoder takes a byte even where it ends with a fault, if there is one.
>
> `Decoder.Loops`: a decoder reads in turns, and takes a byte in each of them but the last.
-/

namespace Dwarf

namespace Decoder

variable {α β σ : Type}

/-- Where there is a byte, the decoder takes one, even if it ends with a fault. -/
def Hungry (d : Decoder α) : Prop := ∀ bs, bs ≠ [] → (d.run bs).rest.length < bs.length

/-- A run that succeeds has taken at least `count` bytes. -/
def Takes (count : Nat) (d : Decoder α) : Prop :=
  ∀ ⦃bs : Bytes⦄ ⦃value : α⦄ ⦃rest : Bytes⦄, d.run bs = .ok value rest →
    rest.length + count ≤ bs.length

/-- `d` is what `step` reads, turn after turn, from each state on. Each turn but the last takes a
byte. -/
structure Loops (step : σ → Decoder (σ ⊕ β)) (d : σ → Decoder β) : Prop where
  more : ∀ {s : σ} {bs : Bytes} {next : σ} {rest : Bytes},
    (step s).run bs = .ok (.inl next) rest → rest.length < bs.length
  run : ∀ (s : σ) (bs : Bytes), (d s).run bs = match (step s).run bs with
    | .fault cause rest => .fault cause rest
    | .ok (.inr value) rest => .ok value rest
    | .ok (.inl next) rest => (d next).run rest

theorem Hungry.bind {d : Decoder α} {f : α → Decoder β} (hd : Hungry d)
    (hf : ∀ value, Forward (f value)) : Hungry (d >>= f) := by
  intro bs hne
  have hless := hd bs hne
  rw [run_bind]
  cases hrun : d.run bs with
  | ok value rest =>
    rw [hrun] at hless
    exact Nat.lt_of_le_of_lt (hf value rest).length_le hless
  | fault cause rest =>
    rw [hrun] at hless
    exact hless

theorem hungry_unsigned : Hungry unsigned := by
  intro bs hne
  simp only [unsigned]
  split
  · exact List.length_pos_iff.mpr hne
  · next ds rest hds =>
    obtain ⟨rfl, hdigits⟩ := Leb128.digits?_eq_some hds
    have hpos := List.length_pos_iff.mpr hdigits
    have hless : rest.length < (ds ++ rest).length := by
      rw [List.length_append]
      omega
    split <;> exact hless

theorem Takes.of_le {m n : Nat} {d : Decoder α} (hd : Takes n d) (h : m ≤ n) : Takes m d :=
  fun _ _ _ hrun => Nat.le_trans (Nat.add_le_add_left h _) (hd hrun)

theorem Takes.pure (value : α) : Takes 0 (pure value : Decoder α) := by
  intro bs value' rest h
  cases h
  exact Nat.le_refl _

/-- A run that fails has nothing to show for it. -/
theorem Takes.fail (count : Nat) (cause : Fault) : Takes count (fail cause : Decoder α) := by
  intro bs value rest h
  cases h

theorem Takes.bind {m n : Nat} {d : Decoder α} {f : α → Decoder β} (hd : Takes m d)
    (hf : ∀ value, Takes n (f value)) : Takes (m + n) (d >>= f) := by
  intro bs value rest h
  rw [run_bind] at h
  cases hrun : d.run bs with
  | ok first mid =>
    rw [hrun] at h
    have hfirst := hd hrun
    have hlater := hf first h
    omega
  | fault cause mid =>
    rw [hrun] at h
    cases h

theorem Takes.ite {n : Nat} {p : Prop} [Decidable p] {d e : Decoder α} (hd : Takes n d)
    (he : Takes n e) : Takes n (if p then d else e) := by
  by_cases h : p
  · rw [if_pos h]
    exact hd
  · rw [if_neg h]
    exact he

theorem Forward.takes {d : Decoder α} (hd : Forward d) : Takes 0 d :=
  fun _ _ _ hrun => hd.length_le hrun

theorem Consuming.takes {d : Decoder α} (hd : Consuming d) : Takes 1 d := fun _ _ _ hrun => hd hrun

theorem Consuming.isEmpty_eq_false {d : Decoder α} (hd : Consuming d) {bs rest : Bytes} {value : α}
    (h : d.run bs = .ok value rest) : bs.isEmpty = false := by
  cases bs with
  | nil => exact absurd (hd h) (Nat.not_lt_zero _)
  | cons b bs => rfl

theorem takes_take (count : Nat) : Takes count (take count) := by
  intro bs head rest h
  obtain ⟨rfl, rfl⟩ := take_eq_ok h
  rw [List.length_append]
  omega

theorem takes_uint (order : ByteOrder) (width : Nat) : Takes width (uint order width) :=
  (takes_take width).bind fun _ => .pure _

theorem takes_byte : Takes 1 byte := by
  intro bs value rest h
  cases bs with
  | nil => cases h
  | cons b bs =>
    cases h
    exact Nat.le_refl _

end Decoder

end Dwarf
