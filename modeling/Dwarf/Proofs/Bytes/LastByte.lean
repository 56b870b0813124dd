import Mathlib.Algebra.BigOperators.Ring.Finset
import Dwarf.Proofs.Bytes.Shortest
/-!
# Numbers by their last byte

A LEB128 number ends at the first byte below `0x80`, wherever that is. So the index of this byte,
the tenth byte if there is one, and the seven low bits of each byte up to there are all that a
number is made of. This module says it in these terms, without the list of digits that the reader
splits off:

> `run_unsigned_eq`, `run_signed_eq`: what a run gives, by the index of the last byte.

The value of an unsigned number is the sum of its groups of seven bits, each worth 128 times the
one before it. That of a signed number is the same sum as a two's complement number of that many
bits. A tenth byte is different: it stands for the 64th bit alone, so a signed number of ten bytes
is the sum of nine groups, less `2 ^ 63` if it is negative.

> `spells_unsigned_iff`: besides its shortest form a number has those that are padded with zeros,
> and no others.
-/

namespace Dwarf

/-- The number of numerals is a power of the base. -/
theorem placeValue_eq_pow (base n : Nat) : placeValue base n = base ^ n := by
  induction n with
  | zero => rfl
  | succ n ih => rw [placeValue, ih, Nat.pow_succ']

/-- A digit of `k` bits moves the place by as many. -/
theorem placeValue_two_pow {b : Nat} (k : Nat) (hb : b = 2 ^ k) (n : Nat) :
    placeValue b n = 2 ^ (k * n) := by
  rw [placeValue_eq_pow, hb, Nat.pow_mul]

namespace Leb128

/-- The value of the first `count` groups of seven bits, of which the first is worth least. -/
def groups (bs : Bytes) (count : Nat) : Nat :=
  ∑ i ∈ Finset.range count, (bs.getD i 0).toNat % 128 * 128 ^ i

/-- The digits fit in a word of 64 bits: there are at most ten, and a tenth is 0 or `top`. Both
`fitsUnsigned` and `fitsSigned` are such a check. -/
def fitsWord (top : UInt8) (ds : Bytes) : Bool :=
  ds.length ≤ 10 && ds[9]?.all fun tenth => tenth == 0 || tenth == top

variable {top : UInt8} {bs : Bytes} {k : Nat}

/-! ### What fits in a word -/

theorem fitsWord_of_short {ds : Bytes} (hlen : ds.length ≤ 9) : fitsWord top ds = true := by
  rw [fitsWord, List.getElem?_eq_none hlen, Option.all_none, Bool.and_true, decide_eq_true_iff]
  exact Nat.le_succ_of_le hlen

theorem not_fitsWord_of_long {ds : Bytes} (hlen : 10 < ds.length) : ¬ fitsWord top ds = true := by
  intro hfits
  rw [fitsWord, Bool.and_eq_true, decide_eq_true_iff] at hfits
  exact absurd hfits.1 (Nat.not_le.mpr hlen)

/-- A tenth byte has to be the last one. -/
theorem fitsWord_of_tenth {ds es : Bytes} {b : UInt8} (hlen : ds.length = 9) :
    fitsWord top (ds ++ b :: es) = true ↔ es = [] ∧ (b = 0 ∨ b = top) := by
  have htenth : (ds ++ b :: es)[9]? = some b := by simp [← hlen]
  rw [fitsWord, htenth, Option.all_some, Bool.and_eq_true, decide_eq_true_iff, Bool.or_eq_true,
    beq_iff_eq, beq_iff_eq, List.length_append, List.length_cons, hlen]
  refine and_congr_left fun _ => ?_
  rw [← List.length_eq_zero_iff]
  omega

/-! ### The digits up to the last byte -/

theorem take_ten (hlt : 9 < bs.length) : bs.take 10 = bs.take 9 ++ [bs.getD 9 0] := by
  rw [List.take_add_one, List.getD_eq_getElem?_getD, List.getElem?_eq_getElem hlt]
  rfl

theorem fitsWord_take (hlt : k < bs.length) : fitsWord top (bs.take (k + 1)) = true ↔
    k ≤ 8 ∨ k = 9 ∧ (bs.getD 9 0 = 0 ∨ bs.getD 9 0 = top) := by
  have hlen : (bs.take (k + 1)).length = k + 1 := List.length_take_of_le hlt
  by_cases hshort : k ≤ 8
  · exact ⟨fun _ => .inl hshort, fun _ => fitsWord_of_short (by omega)⟩
  · rw [or_iff_right hshort]
    by_cases hten : k = 9
    · subst hten
      have hinit : (bs.take 9).length = 9 := List.length_take_of_le (Nat.le_of_lt hlt)
      rw [take_ten hlt, fitsWord_of_tenth hinit, and_iff_right rfl, and_iff_right rfl]
    · have hlong : 10 < (bs.take (k + 1)).length := by omega
      exact ⟨fun hfits => absurd hfits (not_fitsWord_of_long hlong), fun h => absurd h.1 hten⟩

theorem digitValue_take (bs : Bytes) (count : Nat) :
    digitValue (bs.take count) = groups bs count := by
  induction bs generalizing count with
  | nil => simp [digitValue, groups]
  | cons b bs ih =>
    cases count with
    | zero => simp [digitValue, groups]
    | succ count =>
      rw [List.take_succ_cons, digitValue, ih, groups, groups, Finset.sum_range_succ',
        Finset.mul_sum, Nat.add_comm]
      congr 1
      · refine Finset.sum_congr rfl fun i _ => ?_
        rw [List.getD_cons_succ, Nat.pow_succ', Nat.mul_left_comm]
      · rw [List.getD_cons_zero, Nat.pow_zero, Nat.mul_one]

theorem digits?_eq (bs : Bytes) : digits? bs =
    (bs.findIdx? (· < 0x80)).map fun k => (bs.take (k + 1), bs.drop (k + 1)) := by
  induction bs with
  | nil => rfl
  | cons b bs ih =>
    rw [digits?, List.findIdx?_cons]
    by_cases hb : b < 0x80
    · simp [hb]
    · rw [if_neg hb, ih, if_neg (by simpa using hb)]
      cases bs.findIdx? (· < 0x80) <;> rfl

/-- What is read off the digits, by the index of the last byte. -/
theorem run_of_digits {α : Type} (top : UInt8) (value : Bytes → α) (cause : Fault) (bs : Bytes) :
    (match digits? bs with
      | none => Outcome.fault .unexpectedEnd []
      | some (ds, rest) => if fitsWord top ds then .ok (value ds) rest else .fault cause rest) =
    match bs.findIdx? (· < 0x80) with
      | none => .fault .unexpectedEnd []
      | some k =>
        if k ≤ 8 ∨ k = 9 ∧ (bs.getD 9 0 = 0 ∨ bs.getD 9 0 = top) then
          .ok (value (bs.take (k + 1))) (bs.drop (k + 1))
        else .fault cause (bs.drop (k + 1)) := by
  rw [digits?_eq]
  cases hk : bs.findIdx? (· < 0x80) with
  | none => rfl
  | some k =>
    have hlt : k < bs.length := (List.findIdx?_eq_some_iff_findIdx_eq.mp hk).1
    simp only [Option.map_some, fitsWord_take hlt]

/-! ### Signed groups -/

/-- The residue nearest to zero is the two's complement value. -/
theorem signedDigitValue_eq_toInt (ds : Bytes) :
    signedDigitValue ds = (BitVec.ofNat (7 * ds.length) (digitValue ds)).toInt := by
  rw [BitVec.toInt_ofNat', signedDigitValue, placeValue_two_pow (b := 128) 7 rfl]

/-- Bit 6 of the last digit is worth less than nothing. -/
theorem signedDigitValue_concat (init : Bytes) {last : UInt8} (hlast : last < 0x80) :
    signedDigitValue (init ++ [last]) = (digitValue (init ++ [last]) : Int) -
      if 64 ≤ last.toNat then placeValue 128 (init ++ [last]).length else 0 := by
  have hsmall : last.toNat < 128 := UInt8.lt_iff_toNat_lt.mp hlast
  have hplace : placeValue 128 (init ++ [last]).length = 128 * placeValue 128 init.length := by
    rw [List.length_append]
    rfl
  have hvalue : digitValue (init ++ [last]) =
      digitValue init + placeValue 128 init.length * last.toNat := by
    rw [digitValue_append, digitValue, digitValue, Nat.mod_eq_of_lt hsmall]
    rfl
  have hlow := digitValue_lt init
  have hlt := digitValue_lt (init ++ [last])
  rw [signedDigitValue]
  rw [hplace] at hlt ⊢
  generalize placeValue 128 init.length = place at *
  by_cases hsign : 64 ≤ last.toNat
  · have hhalf : place * 64 ≤ place * last.toNat := Nat.mul_le_mul_left _ hsign
    have hwrap : (digitValue (init ++ [last]) : Int) =
        (digitValue (init ++ [last]) - (128 * place : Nat)) + (128 * place : Nat) * 1 := by omega
    rw [if_pos hsign, hwrap, Int.add_mul_bmod_self_left, Int.mul_one, Int.add_sub_cancel]
    exact Int.bmod_eq_of_le (by omega) (by omega)
  · have hhalf : place * (last.toNat + 1) ≤ place * 64 := Nat.mul_le_mul_left _ (by omega)
    rw [Nat.mul_add, Nat.mul_one] at hhalf
    rw [if_neg hsign, Int.natCast_zero, Int.sub_zero]
    exact Int.bmod_eq_of_le (by omega) (by omega)

/-- Ten digits whose tenth repeats the sign are 63 bits and the sign. -/
theorem signedDigitValue_of_ten {init : Bytes} {last : UInt8} (hlen : init.length = 9)
    (hlast : last = 0 ∨ last = 0x7f) : signedDigitValue (init ++ [last]) =
      (digitValue init : Int) - if last = 0 then 0 else 0x8000000000000000 := by
  have hsmall : last < 0x80 := by rcases hlast with rfl | rfl <;> decide
  have hplace : placeValue 128 (init ++ [last]).length = 0x400000000000000000 := by
    rw [List.length_append, hlen]
    rfl
  rw [signedDigitValue_concat init hsmall, (digitValue_of_ten hlen hsmall).2, hplace]
  rcases hlast with rfl | rfl
  · rfl
  · rw [if_pos (by decide), if_neg (by decide), show (0x7f : UInt8).toNat = 127 from rfl]
    omega

theorem signedDigitValue_take_ten (hlt : 9 < bs.length)
    (htenth : bs.getD 9 0 = 0 ∨ bs.getD 9 0 = 0x7f) : signedDigitValue (bs.take 10) =
      groups bs 9 - if bs.getD 9 0 = 0 then 0 else 0x8000000000000000 := by
  rw [take_ten hlt, signedDigitValue_of_ten (List.length_take_of_le (Nat.le_of_lt hlt)) htenth,
    digitValue_take]

/-! ### Padding -/

/-- A byte with the high bit: others follow it. -/
def more (b : UInt8) : UInt8 := UInt8.ofNat (b.toNat % 128 + 128)

/-- The digits of a number, with `count` zeros behind them. Of the digits only the last is a byte
below `0x80`. -/
def padded (ds : Bytes) : (count : Nat) → Bytes
  | 0 => ds
  | count + 1 => (ds ++ List.replicate count 0).map more ++ [0]

theorem toNat_more (b : UInt8) : (more b).toNat = b.toNat % 128 + 128 := by
  rw [more, UInt8.toNat_ofNat']
  omega

theorem more_ge (b : UInt8) : 0x80 ≤ more b := by
  rw [UInt8.le_iff_toNat_le, toNat_more]
  exact Nat.le_add_left _ _

theorem digitValue_map_more (ds : Bytes) : digitValue (ds.map more) = digitValue ds := by
  induction ds with
  | nil => rfl
  | cons d ds ih =>
    rw [List.map_cons, digitValue, ih, toNat_more, digitValue]
    omega

theorem digitValue_replicate_zero (count : Nat) : digitValue (List.replicate count 0) = 0 := by
  induction count with
  | zero => rfl
  | succ count ih =>
    rw [List.replicate_succ, digitValue, ih]
    rfl

theorem length_padded (ds : Bytes) (count : Nat) :
    (padded ds count).length = ds.length + count := by
  cases count with
  | zero => rfl
  | succ count => simp [padded]

theorem digitValue_padded (ds : Bytes) (count : Nat) :
    digitValue (padded ds count) = digitValue ds := by
  cases count with
  | zero => rfl
  | succ count =>
    rw [padded, digitValue_append, digitValue_map_more, digitValue_append,
      digitValue_replicate_zero]
    show digitValue ds + _ * 0 + _ * (0 % 128 + 128 * 0) = digitValue ds
    omega

theorem IsNumber.padded {ds : Bytes} (h : IsNumber ds) (count : Nat) :
    IsNumber (padded ds count) := by
  cases count with
  | zero => exact h
  | succ count =>
    refine ⟨_, 0, rfl, ?_, by decide⟩
    intro b hb
    obtain ⟨d, -, rfl⟩ := List.mem_map.mp hb
    exact more_ge d

/-- Numbers of the same length and the same value are the same bytes. -/
theorem IsNumber.eq_of_digitValue {ds es : Bytes} (hds : IsNumber ds) (hes : IsNumber es)
    (hlen : ds.length = es.length) (hvalue : digitValue ds = digitValue es) : ds = es := by
  obtain ⟨init, last, rfl, hinit, hlast⟩ := hds
  obtain ⟨init', last', rfl, hinit', hlast'⟩ := hes
  simp only [List.length_append, List.length_singleton, Nat.add_right_cancel_iff] at hlen
  induction init generalizing init' with
  | nil =>
    obtain rfl : init' = [] := List.length_eq_zero_iff.mp hlen.symm
    simp only [List.nil_append, digitValue] at hvalue ⊢
    have hsmall : last.toNat < 128 := UInt8.lt_iff_toNat_lt.mp hlast
    have hsmall' : last'.toNat < 128 := UInt8.lt_iff_toNat_lt.mp hlast'
    have heq : last.toNat = last'.toNat := by omega
    rw [UInt8.toNat_inj.mp heq]
  | cons d init ih =>
    cases init' with
    | nil => cases hlen
    | cons d' init' =>
      simp only [List.cons_append, digitValue] at hvalue ⊢
      have hbig : 128 ≤ d.toNat := UInt8.le_iff_toNat_le.mp (hinit d (List.mem_cons_self ..))
      have hbig' : 128 ≤ d'.toNat := UInt8.le_iff_toNat_le.mp (hinit' d' (List.mem_cons_self ..))
      have hd := d.toNat_lt
      have hd' := d'.toNat_lt
      have heq : d.toNat = d'.toNat := by omega
      have hlater : digitValue (init ++ [last]) = digitValue (init' ++ [last']) := by omega
      rw [UInt8.toNat_inj.mp heq, ih (fun b hb => hinit b (List.mem_cons_of_mem _ hb)) init' hlater
        (fun b hb => hinit' b (List.mem_cons_of_mem _ hb)) (Nat.succ.inj hlen)]

/-- Apart from its length, nothing about a number is left open by its value. -/
theorem isUnsigned_iff {value : Nat} {bytes : Bytes} (hvalue : value < 0x10000000000000000) :
    IsUnsigned value bytes ↔
      ∃ zeros, (encodeUnsigned value).length + zeros ≤ 10 ∧
        bytes = padded (encodeUnsigned value) zeros := by
  have hshortest := isUnsigned_encode hvalue
  constructor
  · intro h
    have hle := h.length_le
    have hshort := h.short
    refine ⟨bytes.length - (encodeUnsigned value).length, by omega, ?_⟩
    refine h.number.eq_of_digitValue (hshortest.number.padded _) ?_ ?_
    · rw [length_padded]
      omega
    · rw [digitValue_padded, h.spelled, hshortest.spelled]
  · intro h
    obtain ⟨zeros, hlen, rfl⟩ := h
    exact ⟨hshortest.number.padded zeros, (length_padded ..).trans_le hlen,
      (digitValue_padded ..).trans hshortest.spelled, hvalue⟩

end Leb128

namespace Decoder

open Leb128

theorem run_unsigned_eq (bs : Bytes) : unsigned.run bs =
    match bs.findIdx? (· < 0x80) with
    | none => .fault .unexpectedEnd []
    | some k =>
      if k ≤ 8 ∨ k = 9 ∧ bs.getD 9 0 ≤ 1 then .ok (groups bs (k + 1)) (bs.drop (k + 1))
      else .fault .unsignedOverflow (bs.drop (k + 1)) := by
  have hone (b : UInt8) : b ≤ 1 ↔ b = 0 ∨ b = 1 := by
    rw [UInt8.le_iff_toNat_le, ← UInt8.toNat_inj, ← UInt8.toNat_inj]
    show b.toNat ≤ 1 ↔ b.toNat = 0 ∨ b.toNat = 1
    omega
  simp only [hone, ← digitValue_take]
  exact run_of_digits 1 digitValue .unsignedOverflow bs

theorem run_signed_eq (bs : Bytes) : signed.run bs =
    match bs.findIdx? (· < 0x80) with
    | none => .fault .unexpectedEnd []
    | some k =>
      if k ≤ 8 then
        .ok (BitVec.ofNat (7 * (k + 1)) (groups bs (k + 1))).toInt (bs.drop (k + 1))
      else if k = 9 ∧ (bs.getD 9 0 = 0 ∨ bs.getD 9 0 = 0x7f) then
        .ok (groups bs 9 - if bs.getD 9 0 = 0 then 0 else 0x8000000000000000) (bs.drop 10)
      else .fault .signedOverflow (bs.drop (k + 1)) := by
  refine (run_of_digits 0x7f signedDigitValue .signedOverflow bs).trans ?_
  cases hk : bs.findIdx? (· < 0x80) with
  | none => rfl
  | some k =>
    have hlt : k < bs.length := (List.findIdx?_eq_some_iff_findIdx_eq.mp hk).1
    have hlen : (bs.take (k + 1)).length = k + 1 := List.length_take_of_le hlt
    show (if _ then _ else _) = (if _ then _ else _)
    by_cases hshort : k ≤ 8
    · rw [if_pos (.inl hshort), if_pos hshort, signedDigitValue_eq_toInt, hlen, digitValue_take]
    · rw [if_neg hshort]
      by_cases hten : k = 9 ∧ (bs.getD 9 0 = 0 ∨ bs.getD 9 0 = 0x7f)
      · obtain ⟨rfl, htenth⟩ := id hten
        rw [if_pos (.inr hten), if_pos hten, signedDigitValue_take_ten hlt htenth]
      · rw [if_neg (not_or.mpr ⟨hshort, hten⟩), if_neg hten]

/-- The bytes that are read as a number are its shortest form and those padded with zeros. -/
theorem spells_unsigned_iff {value : Nat} {bytes : Bytes} (hvalue : value < 0x10000000000000000) :
    unsigned.Spells bytes value ↔
      ∃ zeros, (encodeUnsigned value).length + zeros ≤ 10 ∧
        bytes = padded (encodeUnsigned value) zeros :=
  spells_unsigned.trans (isUnsigned_iff hvalue)

end Decoder

end Dwarf
