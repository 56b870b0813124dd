import Dwarf.Proofs.Bytes.Delimited
/-!
# Which bytes are a LEB128 number

`IsUnsigned` and `IsSigned` say what it is for bytes to be a number, without a word
about how they are read: the last byte and no other is below `0x80`, there are at
most ten, and their digits have the value in question, which fits in 64 bits. The
readers check the tenth byte instead of the value. The two come to the same, since
nine digits always fit and the tenth is worth `2 ^ 63`.

> `spells_unsigned`, `spells_signed`: the numbers that are read are these, padded
> or not.
-/

namespace Dwarf

theorem placeValue_pos {base : Nat} (h : 0 < base) (n : Nat) : 0 < placeValue base n := by
  induction n with
  | zero => exact Nat.one_pos
  | succ n ih => exact Nat.mul_pos h ih

theorem placeValue_mono {base m n : Nat} (hbase : 0 < base) (h : m ≤ n) :
    placeValue base m ≤ placeValue base n := by
  induction h with
  | refl => exact Nat.le_refl _
  | step _ ih => exact Nat.le_trans ih (Nat.le_mul_of_pos_left _ hbase)

namespace Leb128

/-- The bytes of one number: the last one, and no other, is below `0x80`. -/
def IsNumber (bytes : Bytes) : Prop :=
  ∃ init last, bytes = init ++ [last] ∧ (∀ b ∈ init, 0x80 ≤ b) ∧ last < 0x80

/-- `bytes` are an unsigned number of 64 bits, in at most ten bytes. -/
structure IsUnsigned (value : Nat) (bytes : Bytes) : Prop where
  number : IsNumber bytes
  short : bytes.length ≤ 10
  spelled : digitValue bytes = value
  fits : value < 0x10000000000000000

/-- `bytes` are a signed number of 64 bits, in at most ten bytes. -/
structure IsSigned (value : Int) (bytes : Bytes) : Prop where
  number : IsNumber bytes
  short : bytes.length ≤ 10
  spelled : signedDigitValue bytes = value
  low : -0x8000000000000000 ≤ value
  high : value < 0x8000000000000000

theorem digits?_eq_some_iff {bs ds rest : Bytes} :
    digits? bs = some (ds, rest) ↔ bs = ds ++ rest ∧ IsNumber ds := by
  constructor
  · intro h
    refine ⟨(digits?_eq_some h).1, ?_⟩
    induction bs generalizing ds with
    | nil => cases h
    | cons b bs ih =>
      rw [digits?] at h
      split at h
      · next hb =>
        cases h
        exact ⟨[], b, rfl, by simp, hb⟩
      · next hb =>
        split at h
        · cases h
        · next ds' rest' hrec =>
          cases h
          obtain ⟨init, last, rfl, hinit, hlast⟩ := ih hrec
          refine ⟨b :: init, last, rfl, fun d hd => ?_, hlast⟩
          rcases List.mem_cons.mp hd with rfl | hd
          · exact UInt8.not_lt.mp hb
          · exact hinit d hd
  · intro h
    obtain ⟨rfl, init, last, rfl, hinit, hlast⟩ := h
    induction init with
    | nil => exact if_pos hlast
    | cons b init ih =>
      have hb : ¬ b < 0x80 := UInt8.not_lt.mpr (hinit b (List.mem_cons_self ..))
      exact digits?_cons hb (ih fun d hd => hinit d (List.mem_cons_of_mem _ hd))

theorem digitValue_append (ds es : Bytes) :
    digitValue (ds ++ es) = digitValue ds + placeValue 128 ds.length * digitValue es := by
  induction ds with
  | nil => simp [digitValue, placeValue]
  | cons d ds ih =>
    rw [List.cons_append, digitValue, ih, digitValue, List.length_cons, placeValue, Nat.mul_add,
      Nat.mul_assoc, Nat.add_assoc]

theorem digitValue_lt (ds : Bytes) : digitValue ds < placeValue 128 ds.length := by
  induction ds with
  | nil => exact Nat.one_pos
  | cons d ds ih =>
    rw [digitValue, List.length_cons, placeValue]
    omega

/-! ### The tenth digit -/

/-- Nine digits are worth less than the tenth. -/
theorem placeValue_le_of_short {n : Nat} (h : n ≤ 9) : placeValue 128 n ≤ 0x8000000000000000 := by
  have hnine : placeValue 128 9 = 0x8000000000000000 := by decide
  rw [← hnine]
  exact placeValue_mono (by decide) h

/-- A number that is short enough has no tenth byte, or its last byte is the tenth. -/
theorem tenth_cases {init : Bytes} (last : UInt8) (h : (init ++ [last]).length ≤ 10) :
    ((init ++ [last]).length ≤ 9 ∧ (init ++ [last])[9]? = none) ∨
      (init.length = 9 ∧ (init ++ [last])[9]? = some last) := by
  rw [List.length_append, List.length_singleton] at h
  rcases Nat.lt_or_ge init.length 9 with hlen | hlen
  · have hshort : (init ++ [last]).length ≤ 9 := by
      rw [List.length_append, List.length_singleton]
      exact hlen
    exact .inl ⟨hshort, List.getElem?_eq_none hshort⟩
  · have hnine : init.length = 9 := by omega
    exact .inr ⟨hnine, by simp [hnine]⟩

/-- The value of a number of ten bytes. -/
theorem digitValue_of_ten {init : Bytes} {last : UInt8} (hlen : init.length = 9)
    (hlast : last < 0x80) : digitValue init < 0x8000000000000000 ∧
      digitValue (init ++ [last]) = digitValue init + 0x8000000000000000 * last.toNat := by
  have hsmall : last.toNat < 128 := UInt8.lt_iff_toNat_lt.mp hlast
  have hplace : placeValue 128 9 = 0x8000000000000000 := by decide
  have hlow := digitValue_lt init
  rw [hlen, hplace] at hlow
  refine ⟨hlow, ?_⟩
  rw [digitValue_append, hlen, hplace, digitValue, digitValue, Nat.mod_eq_of_lt hsmall]
  omega

theorem fitsUnsigned_iff {init : Bytes} {last : UInt8} (hlast : last < 0x80) :
    fitsUnsigned (init ++ [last]) = true ↔
      (init ++ [last]).length ≤ 10 ∧ digitValue (init ++ [last]) < 0x10000000000000000 := by
  rw [fitsUnsigned, Bool.and_eq_true, decide_eq_true_iff]
  apply and_congr_right
  intro hlen
  rcases tenth_cases last hlen with ⟨hshort, hnone⟩ | ⟨hnine, htenth⟩
  · have hlt := digitValue_lt (init ++ [last])
    have hle := placeValue_le_of_short hshort
    rw [hnone]
    exact ⟨fun _ => by omega, fun _ => rfl⟩
  · obtain ⟨hlow, hvalue⟩ := digitValue_of_ten hnine hlast
    rw [htenth, hvalue, Option.all_some, Bool.or_eq_true, beq_iff_eq, beq_iff_eq,
      ← UInt8.toNat_inj, ← UInt8.toNat_inj]
    show last.toNat = 0 ∨ last.toNat = 1 ↔ _
    omega

theorem fitsSigned_iff {init : Bytes} {last : UInt8} (hlast : last < 0x80) :
    fitsSigned (init ++ [last]) = true ↔ (init ++ [last]).length ≤ 10 ∧
      -0x8000000000000000 ≤ signedDigitValue (init ++ [last]) ∧
      signedDigitValue (init ++ [last]) < 0x8000000000000000 := by
  rw [fitsSigned, Bool.and_eq_true, decide_eq_true_iff]
  apply and_congr_right
  intro hlen
  rcases tenth_cases last hlen with ⟨hshort, hnone⟩ | ⟨hnine, htenth⟩
  · have hle := placeValue_le_of_short hshort
    have hpos := placeValue_pos (show 0 < 128 by decide) (init ++ [last]).length
    -- The residue nearest to zero is at most half the place value away from it.
    have hlow := Int.le_bmod (x := digitValue (init ++ [last])) hpos
    have hhigh := Int.bmod_lt (x := digitValue (init ++ [last])) hpos
    rw [hnone, signedDigitValue]
    exact ⟨fun _ => by omega, fun _ => rfl⟩
  · obtain ⟨hlow, hvalue⟩ := digitValue_of_ten hnine hlast
    have hsmall : last.toNat < 128 := UInt8.lt_iff_toNat_lt.mp hlast
    have hplace : placeValue 128 (init ++ [last]).length = 0x400000000000000000 := by
      rw [List.length_append, hnine]
      rfl
    rw [htenth, signedDigitValue, hplace, hvalue, Option.all_some, Bool.or_eq_true, beq_iff_eq,
      beq_iff_eq, ← UInt8.toNat_inj, ← UInt8.toNat_inj, Int.bmod_def]
    show last.toNat = 0 ∨ last.toNat = 127 ↔ _
    split <;> omega

end Leb128

namespace Decoder

open Leb128

/-- What `delimited_of_digits` is about reads the numbers that pass its check. -/
theorem spells_of_digits {α : Type} {fits : Bytes → Bool} {value : Bytes → α} {cause : Fault}
    {bytes : Bytes} {v : α} :
    Spells ⟨fun bs => match digits? bs with
      | none => .fault .unexpectedEnd []
      | some (ds, rest) => if fits ds then .ok (value ds) rest else .fault cause rest⟩ bytes v ↔
      IsNumber bytes ∧ fits bytes = true ∧ value bytes = v := by
  constructor
  · intro h
    simp only [Spells] at h
    split at h
    · cases h
    · next ds rest hds =>
      obtain ⟨rfl, hnumber⟩ := digits?_eq_some_iff.mp hds
      split at h
      · next hfits =>
        cases h
        rw [List.append_nil]
        exact ⟨hnumber, hfits, rfl⟩
      · cases h
  · intro h
    obtain ⟨hnumber, hfits, rfl⟩ := h
    have hds := digits?_eq_some_iff.mpr ⟨(List.append_nil bytes).symm, hnumber⟩
    simp only [Spells, hds, if_pos hfits]

theorem spells_unsigned {bytes : Bytes} {value : Nat} :
    unsigned.Spells bytes value ↔ IsUnsigned value bytes := by
  refine spells_of_digits.trans ?_
  constructor
  · intro h
    obtain ⟨hnumber, hfits, rfl⟩ := h
    obtain ⟨init, last, rfl, -, hlast⟩ := id hnumber
    obtain ⟨hshort, hlt⟩ := (fitsUnsigned_iff hlast).mp hfits
    exact ⟨hnumber, hshort, rfl, hlt⟩
  · intro h
    refine ⟨h.number, ?_, h.spelled⟩
    obtain ⟨init, last, rfl, -, hlast⟩ := h.number
    exact (fitsUnsigned_iff hlast).mpr ⟨h.short, h.spelled ▸ h.fits⟩

theorem spells_signed {bytes : Bytes} {value : Int} :
    signed.Spells bytes value ↔ IsSigned value bytes := by
  refine spells_of_digits.trans ?_
  constructor
  · intro h
    obtain ⟨hnumber, hfits, rfl⟩ := h
    obtain ⟨init, last, rfl, -, hlast⟩ := id hnumber
    obtain ⟨hshort, hlow, hhigh⟩ := (fitsSigned_iff hlast).mp hfits
    exact ⟨hnumber, hshort, rfl, hlow, hhigh⟩
  · intro h
    refine ⟨h.number, ?_, h.spelled⟩
    obtain ⟨init, last, rfl, -, hlast⟩ := h.number
    exact (fitsSigned_iff hlast).mpr ⟨h.short, h.spelled ▸ h.low, h.spelled ▸ h.high⟩

end Decoder

namespace Leb128

variable {value : Nat} {bytes : Bytes}

theorem IsUnsigned.run (h : IsUnsigned value bytes) (rest : Bytes) :
    Decoder.unsigned.run (bytes ++ rest) = .ok value rest :=
  (Decoder.spells_unsigned.mpr h).run Decoder.delimited_unsigned rest

/-- What is read behind a number may depend on the number. -/
theorem IsUnsigned.run_bind {α : Type} (h : IsUnsigned value bytes) (f : Nat → Decoder α)
    (rest : Bytes) : (Decoder.unsigned >>= f).run (bytes ++ rest) = (f value).run rest := by
  rw [Decoder.run_bind, h.run]

end Leb128

end Dwarf
