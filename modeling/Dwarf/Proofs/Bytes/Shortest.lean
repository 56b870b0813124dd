import Dwarf.Proofs.Bytes.Leb128
/-!
# Padded and shortest forms

A LEB128 number may be padded with digits that add nothing to its value, so many byte
strings are read as the same value and only one of them is written. What reading and
writing owe each other is then not that they are inverse, but this:

> `Decoder.Shortest`: a value that can be written is read back from what was written;
> every value that is read can be written; and no bytes that are read as it are fewer.

Writing the value again is thus a normal form of the bytes it was read from. Numbers
have it by induction on their digits (`length_encodeUnsigned_le`,
`length_encodeSigned_le`): what is left of a number without its first digit is the
number of the later digits, padded or not.

`Listed` is a list that is read up to a mark at its end, and takes the law from the
items to the list.
-/

namespace Dwarf

namespace Leb128

theorem length_encodeUnsigned_le {ds : Bytes} (h : ds ≠ []) :
    (encodeUnsigned (digitValue ds)).length ≤ ds.length := by
  induction ds with
  | nil => exact absurd rfl h
  | cons d ds ih =>
    rw [encodeUnsigned]
    split
    · exact Nat.succ_le_succ (Nat.zero_le _)
    · next hbig =>
      rw [digitValue] at hbig ⊢
      have hne : ds ≠ [] := by
        intro hnil
        subst hnil
        rw [digitValue] at hbig
        omega
      have hlater : (d.toNat % 128 + 128 * digitValue ds) / 128 = digitValue ds := by omega
      rw [hlater]
      exact Nat.succ_le_succ (ih hne)

/-- The first digit of a signed number has no sign, since others follow. -/
theorem signedDigitValue_cons (d : UInt8) {ds : Bytes} (h : ds ≠ []) :
    signedDigitValue (d :: ds) = (d.toNat % 128 : Nat) + 128 * signedDigitValue ds := by
  obtain ⟨half, hhalf⟩ : ∃ half, placeValue 128 ds.length = 2 * half := by
    obtain ⟨e, es, rfl⟩ := List.exists_cons_of_ne_nil h
    exact ⟨64 * placeValue 128 es.length, by rw [List.length_cons, placeValue]; omega⟩
  have hpos := placeValue_pos (show 0 < 128 by decide) ds.length
  have hlow := Int.le_bmod (x := digitValue ds) hpos
  have hhigh := Int.bmod_lt (x := digitValue ds) hpos
  have hwraps := Int.bmod_add_bdiv (digitValue ds) (placeValue 128 ds.length)
  simp only [signedDigitValue, List.length_cons, placeValue, digitValue]
  rw [hhalf] at hlow hhigh hwraps ⊢
  generalize Int.bmod (digitValue ds : Int) (2 * half) = value at hlow hhigh hwraps ⊢
  generalize Int.bdiv (digitValue ds : Int) (2 * half) = wraps at hwraps
  have hsplit : ((d.toNat % 128 + 128 * digitValue ds : Nat) : Int) =
      ((d.toNat % 128 : Nat) + 128 * value) + (128 * (2 * half) : Nat) * wraps := by
    have hscale : ((128 * (2 * half) : Nat) : Int) * wraps = 128 * (((2 * half : Nat) : Int) * wraps) := by
      rw [Int.natCast_mul, Int.mul_assoc]
      rfl
    rw [hscale]
    omega
  rw [hsplit, Int.add_mul_bmod_self_left]
  exact Int.bmod_eq_of_le (by omega) (by omega)

theorem length_encodeSigned_le {ds : Bytes} (h : ds ≠ []) :
    (encodeSigned (signedDigitValue ds)).length ≤ ds.length := by
  induction ds with
  | nil => exact absurd rfl h
  | cons d ds ih =>
    rw [encodeSigned]
    split
    · exact Nat.succ_le_succ (Nat.zero_le _)
    · next hbig =>
      have hne : ds ≠ [] := by
        intro hnil
        subst hnil
        have hlow := Int.le_bmod (x := digitValue [d]) (m := placeValue 128 1) (by decide)
        have hhigh := Int.bmod_lt (x := digitValue [d]) (m := placeValue 128 1) (by decide)
        exact hbig ⟨hlow, hhigh⟩
      have hlater : signedDigitValue (d :: ds) / 128 = signedDigitValue ds := by
        rw [signedDigitValue_cons d hne]
        omega
      rw [hlater]
      exact Nat.succ_le_succ (ih hne)

theorem IsNumber.ne_nil {bytes : Bytes} (h : IsNumber bytes) : bytes ≠ [] := by
  obtain ⟨init, last, rfl, -, -⟩ := h
  simp

theorem IsUnsigned.length_le {value : Nat} {bytes : Bytes} (h : IsUnsigned value bytes) :
    (encodeUnsigned value).length ≤ bytes.length := by
  rw [← h.spelled]
  exact length_encodeUnsigned_le h.number.ne_nil

theorem IsSigned.length_le {value : Int} {bytes : Bytes} (h : IsSigned value bytes) :
    (encodeSigned value).length ≤ bytes.length := by
  rw [← h.spelled]
  exact length_encodeSigned_le h.number.ne_nil

theorem isUnsigned_encode {value : Nat} (h : value < 0x10000000000000000) :
    IsUnsigned value (encodeUnsigned value) := by
  have hrun := Decoder.unsigned_encode h []
  rw [List.append_nil] at hrun
  exact Decoder.spells_unsigned.mp hrun

theorem isUnsigned_zero : IsUnsigned 0 [0] := by
  have h : IsUnsigned 0 (encodeUnsigned 0) := isUnsigned_encode (by decide)
  rw [encodeUnsigned, if_pos (by decide)] at h
  exact h

theorem isSigned_encode {value : Int} (hlow : -0x8000000000000000 ≤ value)
    (hhigh : value < 0x8000000000000000) : IsSigned value (encodeSigned value) := by
  have hrun := Decoder.signed_encode hlow hhigh []
  rw [List.append_nil] at hrun
  exact Decoder.spells_signed.mp hrun

end Leb128

namespace Decoder

variable {α : Type}

/-- `encode` writes the values that are `valid` in the shortest form that `d` reads. -/
structure Shortest (d : Decoder α) (valid : α → Prop) (encode : α → Bytes) : Prop where
  read : ∀ {value : α}, valid value → d.Spells (encode value) value
  valid : ∀ {bytes : Bytes} {value : α}, d.Spells bytes value → valid value
  length_le : ∀ {bytes : Bytes} {value : α}, d.Spells bytes value →
    (encode value).length ≤ bytes.length

/-! ### Lists up to a mark -/

/-- `bytes` are items that `d` reads one after another, and then the mark that ends
them, which it reads as `none`. -/
inductive Listed (d : Decoder (Option α)) : Bytes → List α → Prop where
  | stop {mark : Bytes} (h : d.Spells mark none) : Listed d mark []
  | item {head tail : Bytes} {value : α} {values : List α} (first : d.Spells head (some value))
    (later : Listed d tail values) : Listed d (head ++ tail) (value :: values)

variable {d : Decoder (Option α)} {valid : Option α → Prop} {encode : Option α → Bytes}

theorem Shortest.listed_encode (hd : d.Shortest valid encode) (hmark : valid none)
    {values : List α} (h : ∀ value ∈ values, valid (some value)) :
    Listed d (values.flatMap (fun value => encode (some value)) ++ encode none) values := by
  induction values with
  | nil => exact .stop (hd.read hmark)
  | cons value values ih =>
    rw [List.flatMap_cons, List.append_assoc]
    refine .item (hd.read (h value (List.mem_cons_self ..))) (ih fun value' hvalue' => ?_)
    exact h value' (List.mem_cons_of_mem _ hvalue')

theorem Shortest.valid_of_listed (hd : d.Shortest valid encode) {bytes : Bytes} {values : List α}
    (h : Listed d bytes values) : ∀ value ∈ values, valid (some value) := by
  induction h with
  | stop hmark =>
    intro value hvalue
    cases hvalue
  | item first later ih =>
    intro value hvalue
    rcases List.mem_cons.mp hvalue with rfl | hvalue
    · exact hd.valid first
    · exact ih value hvalue

theorem Shortest.length_le_of_listed (hd : d.Shortest valid encode) {bytes : Bytes}
    {values : List α} (h : Listed d bytes values) :
    (values.flatMap (fun value => encode (some value)) ++ encode none).length ≤ bytes.length := by
  induction h with
  | stop hmark => exact hd.length_le hmark
  | item first later ih =>
    have hfirst := hd.length_le first
    simp only [List.flatMap_cons, List.length_append] at ih ⊢
    omega

end Decoder

end Dwarf
