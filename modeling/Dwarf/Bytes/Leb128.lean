import Dwarf.Bytes.Decoder
/-!
# Variable-width integers (LEB128)

A LEB128 number is a run of bytes of which only the last is below `0x80`. The
low seven bits of each byte are a digit in base 128, least significant first;
a signed number is the two's complement value of those digits.

Numbers have 64 bits, so at most ten bytes can matter, and the tenth has a single
bit to give. A number that needs more is refused, after all of its bytes have
been read. Redundant digits within ten bytes are accepted: reading is many to
one, and `encodeUnsigned` and `encodeSigned` write the shortest form.

> `unsigned_encode`, `signed_encode`: a number of 64 bits is read back from its
> shortest form, whatever follows it.
>
> `consuming_unsigned`: a number takes at least one byte.
-/

namespace Dwarf

namespace Leb128

/-- Split off the bytes of one number: all that have the high bit, and the first
that has not. `none` when no byte ends the number. -/
def digits? : Bytes → Option (Bytes × Bytes)
  | [] => none
  | b :: bs =>
    if b < 0x80 then some ([b], bs)
    else match digits? bs with
      | none => none
      | some (ds, rest) => some (b :: ds, rest)

/-- The value of base-128 digits, least significant first. -/
def digitValue : Bytes → Nat
  | [] => 0
  | d :: ds => d.toNat % 128 + 128 * digitValue ds

/-- The two's complement value of base-128 digits. -/
def signedDigitValue (ds : Bytes) : Int := (digitValue ds : Int).bmod (placeValue 128 ds.length)

/-- The digits fit in 64 bits: there are at most ten, and a tenth is 0 or 1. -/
def fitsUnsigned (ds : Bytes) : Bool :=
  ds.length ≤ 10 && ds[9]?.all fun tenth => tenth == 0 || tenth == 1

/-- The digits fit in 64 signed bits: there are at most ten, and a tenth repeats
the sign. -/
def fitsSigned (ds : Bytes) : Bool :=
  ds.length ≤ 10 && ds[9]?.all fun tenth => tenth == 0 || tenth == 0x7f

/-- The shortest form of an unsigned number. -/
def encodeUnsigned (value : Nat) : Bytes :=
  if value < 128 then [UInt8.ofNat value]
  else UInt8.ofNat (value % 128 + 128) :: encodeUnsigned (value / 128)
  termination_by value
  decreasing_by omega

/-- The shortest form of a signed number. The last digit carries the sign in its
bit 6, so it stands for -64 to 63. -/
def encodeSigned (value : Int) : Bytes :=
  if -64 ≤ value ∧ value < 64 then [UInt8.ofNat (value % 128).toNat]
  else UInt8.ofNat ((value % 128).toNat + 128) :: encodeSigned (value / 128)
  termination_by value.natAbs
  decreasing_by omega

theorem digits?_eq_some {bs ds rest : Bytes} (h : digits? bs = some (ds, rest)) :
    bs = ds ++ rest ∧ ds ≠ [] := by
  induction bs generalizing ds rest with
  | nil => simp [digits?] at h
  | cons b bs ih =>
    unfold digits? at h
    split at h
    · simp only [Option.some.injEq, Prod.mk.injEq] at h
      obtain ⟨rfl, rfl⟩ := h
      simp
    · split at h
      · cases h
      · next ds' rest' hrec =>
        simp only [Option.some.injEq, Prod.mk.injEq] at h
        obtain ⟨rfl, rfl⟩ := h
        simp [(ih hrec).1]

/-! ### What was written is read -/

/-- A digit that is not the last has the high bit, so it is read past. -/
theorem digits?_cons {b : UInt8} {bs ds rest : Bytes} (hb : ¬ b < 0x80)
    (h : digits? bs = some (ds, rest)) : digits? (b :: bs) = some (b :: ds, rest) := by
  rw [digits?, if_neg hb, h]

theorem digits?_encodeUnsigned (value : Nat) (rest : Bytes) :
    digits? (encodeUnsigned value ++ rest) = some (encodeUnsigned value, rest) := by
  fun_induction encodeUnsigned value with
  | case1 value h =>
    have hb : UInt8.ofNat value < 0x80 := by
      rw [UInt8.lt_iff_toNat_lt, UInt8.toNat_ofNat']
      show value % 256 < 128
      omega
    rw [List.singleton_append, digits?, if_pos hb]
  | case2 value h ih =>
    refine digits?_cons ?_ ih
    -- The digit and its high bit stay below 256, so the byte is their sum.
    rw [UInt8.lt_iff_toNat_lt, UInt8.toNat_ofNat']
    show ¬ (value % 128 + 128) % 256 < 128
    omega

theorem digits?_encodeSigned (value : Int) (rest : Bytes) :
    digits? (encodeSigned value ++ rest) = some (encodeSigned value, rest) := by
  fun_induction encodeSigned value with
  | case1 value h =>
    have hb : UInt8.ofNat (value % 128).toNat < 0x80 := by
      rw [UInt8.lt_iff_toNat_lt, UInt8.toNat_ofNat']
      show (value % 128).toNat % 256 < 128
      omega
    rw [List.singleton_append, digits?, if_pos hb]
  | case2 value h ih =>
    refine digits?_cons ?_ ih
    rw [UInt8.lt_iff_toNat_lt, UInt8.toNat_ofNat']
    show ¬ ((value % 128).toNat + 128) % 256 < 128
    omega

theorem digitValue_encodeUnsigned (value : Nat) : digitValue (encodeUnsigned value) = value := by
  fun_induction encodeUnsigned value with
  | case1 value h =>
    rw [digitValue, digitValue, UInt8.toNat_ofNat']
    show value % 256 % 128 + 128 * 0 = value
    omega
  | case2 value h ih =>
    rw [digitValue, ih, UInt8.toNat_ofNat']
    show (value % 128 + 128) % 256 % 128 + 128 * (value / 128) = value
    omega

/-- The digits of a signed number stand for it modulo their place value, in which
it is the residue nearest to zero. -/
theorem encodeSigned_residue (value : Int) :
    ∃ half : Nat, placeValue 128 (encodeSigned value).length = 2 * half ∧
      -(half : Int) ≤ value ∧ value < half ∧
      ∃ wraps : Int, (digitValue (encodeSigned value) : Int) = value + 2 * half * wraps := by
  fun_induction encodeSigned value with
  | case1 value h =>
    refine ⟨64, rfl, by omega, by omega, -(value / 128), ?_⟩
    rw [digitValue, digitValue, UInt8.toNat_ofNat']
    show (((value % 128).toNat % 256 % 128 + 128 * 0 : Nat) : Int) = _
    omega
  | case2 value h ih =>
    obtain ⟨half, hplace, hlow, hhigh, wraps, hvalue⟩ := ih
    refine ⟨128 * half, ?_, by omega, by omega, wraps, ?_⟩
    · rw [List.length_cons, placeValue, hplace]
      omega
    -- One digit more scales the place value, its half and every wrap by 128.
    · have hdigit : ((value % 128).toNat + 128) % 256 % 128 = (value % 128).toNat := by omega
      have hcarry : 2 * ((128 * half : Nat) : Int) * wraps = 128 * (2 * half * wraps) := by
        rw [Int.natCast_mul]
        simp only [← Int.mul_assoc]
        congr 2
      rw [digitValue, UInt8.toNat_ofNat']
      show ((((value % 128).toNat + 128) % 256 % 128 + 128 * digitValue _ : Nat) : Int) = _
      rw [hdigit, hcarry]
      omega

theorem signedDigitValue_encodeSigned (value : Int) :
    signedDigitValue (encodeSigned value) = value := by
  obtain ⟨half, hplace, hlow, hhigh, wraps, hvalue⟩ := encodeSigned_residue value
  rw [signedDigitValue, hplace, hvalue]
  have hmod : (((2 * half : Nat) : Int)) = 2 * (half : Int) := by omega
  rw [← hmod, Int.add_mul_bmod_self_left]
  exact Int.bmod_eq_of_le (by omega) (by omega)

/-- A number below twice the place value of digit `n` has no digit after it, and
there at most a 1. -/
theorem encodeUnsigned_short {n value : Nat} (h : value < 2 * placeValue 128 n) :
    (encodeUnsigned value).length ≤ n + 1 ∧
      ∀ d, (encodeUnsigned value)[n]? = some d → d = 0 ∨ d = 1 := by
  induction n generalizing value with
  | zero =>
    have hv : value < 2 := h
    rw [encodeUnsigned, if_pos (by omega)]
    refine ⟨Nat.le_refl _, fun d hd => ?_⟩
    injection hd with hd
    subst hd
    rcases Nat.lt_succ_iff_lt_or_eq.mp hv with hv | rfl
    · rw [Nat.lt_one_iff.mp hv]
      exact .inl rfl
    · exact .inr rfl
  | succ n ih =>
    rw [placeValue] at h
    rw [encodeUnsigned]
    split
    · exact ⟨by simp, fun d hd => by simp at hd⟩
    · obtain ⟨hlen, hdigit⟩ := @ih (value / 128) (by omega)
      exact ⟨Nat.succ_le_succ hlen, fun d hd => hdigit d hd⟩

/-- A signed number within the place value of digit `n` has no digit after it, and
there only its sign. -/
theorem encodeSigned_short {n : Nat} {value : Int} (hlow : -(placeValue 128 n : Int) ≤ value)
    (hhigh : value < placeValue 128 n) :
    (encodeSigned value).length ≤ n + 1 ∧
      ∀ d, (encodeSigned value)[n]? = some d → d = 0 ∨ d = 0x7f := by
  induction n generalizing value with
  | zero =>
    have hv : value = 0 ∨ value = -1 := by
      simp only [placeValue] at hlow hhigh
      omega
    rw [encodeSigned, if_pos (by omega)]
    refine ⟨Nat.le_refl _, fun d hd => ?_⟩
    injection hd with hd
    subst hd
    rcases hv with rfl | rfl
    · exact .inl rfl
    · exact .inr rfl
  | succ n ih =>
    rw [placeValue] at hlow hhigh
    rw [encodeSigned]
    split
    · exact ⟨by simp, fun d hd => by simp at hd⟩
    · obtain ⟨hlen, hdigit⟩ := @ih (value / 128) (by omega) (by omega)
      exact ⟨Nat.succ_le_succ hlen, fun d hd => hdigit d hd⟩

theorem fitsUnsigned_encodeUnsigned {value : Nat} (h : value < 0x10000000000000000) :
    fitsUnsigned (encodeUnsigned value) = true := by
  obtain ⟨hlen, hdigit⟩ := @encodeUnsigned_short 9 value h
  rw [fitsUnsigned, Bool.and_eq_true, decide_eq_true_iff]
  refine ⟨hlen, ?_⟩
  cases hd : (encodeUnsigned value)[9]? with
  | none => rfl
  | some d => rcases hdigit d hd with rfl | rfl <;> rfl

theorem fitsSigned_encodeSigned {value : Int} (hlow : -0x8000000000000000 ≤ value)
    (hhigh : value < 0x8000000000000000) : fitsSigned (encodeSigned value) = true := by
  obtain ⟨hlen, hdigit⟩ := @encodeSigned_short 9 value hlow hhigh
  rw [fitsSigned, Bool.and_eq_true, decide_eq_true_iff]
  refine ⟨hlen, ?_⟩
  cases hd : (encodeSigned value)[9]? with
  | none => rfl
  | some d => rcases hdigit d hd with rfl | rfl <;> rfl
end Leb128

namespace Decoder

open Leb128

/-- An unsigned LEB128 number of at most 64 bits. -/
def unsigned : Decoder Nat where
  run bs :=
    match digits? bs with
    | none => .fault .unexpectedEnd []
    | some (ds, rest) =>
      if fitsUnsigned ds then .ok (digitValue ds) rest else .fault .unsignedOverflow rest

/-- A signed LEB128 number of at most 64 bits. -/
def signed : Decoder Int where
  run bs :=
    match digits? bs with
    | none => .fault .unexpectedEnd []
    | some (ds, rest) =>
      if fitsSigned ds then .ok (signedDigitValue ds) rest else .fault .signedOverflow rest

/-- A block of bytes after its length, an unsigned LEB128 number. -/
def countedBlock : Decoder Bytes := do
  let count ← unsigned
  take count

theorem forward_unsigned : Forward unsigned := by
  intro bs
  simp only [unsigned]
  split
  · exact List.nil_suffix
  · next ds rest h =>
    have hs : rest <:+ bs := (digits?_eq_some h).1 ▸ List.suffix_append ds rest
    split <;> exact hs

theorem forward_signed : Forward signed := by
  intro bs
  simp only [signed]
  split
  · exact List.nil_suffix
  · next ds rest h =>
    have hs : rest <:+ bs := (digits?_eq_some h).1 ▸ List.suffix_append ds rest
    split <;> exact hs

theorem forward_countedBlock : Forward countedBlock :=
  forward_unsigned.bind fun count => forward_take count

/-- A number has at least one byte. -/
theorem consuming_unsigned : Consuming unsigned := by
  intro bs value rest h
  simp only [unsigned] at h
  split at h
  · cases h
  · next ds rest' hd =>
    obtain ⟨hbs, hne⟩ := digits?_eq_some hd
    have hpos : 0 < ds.length := List.length_pos_iff.mpr hne
    split at h
    · injection h with _ h₂
      subst h₂ hbs
      rw [List.length_append]
      omega
    · cases h

theorem unsigned_encode {value : Nat} (h : value < 0x10000000000000000) (rest : Bytes) :
    unsigned.run (encodeUnsigned value ++ rest) = .ok value rest := by
  simp only [unsigned, digits?_encodeUnsigned, if_pos (fitsUnsigned_encodeUnsigned h),
    digitValue_encodeUnsigned]

theorem signed_encode {value : Int} (hlow : -0x8000000000000000 ≤ value)
    (hhigh : value < 0x8000000000000000) (rest : Bytes) :
    signed.run (encodeSigned value ++ rest) = .ok value rest := by
  simp only [signed, digits?_encodeSigned, if_pos (fitsSigned_encodeSigned hlow hhigh),
    signedDigitValue_encodeSigned]

end Decoder

end Dwarf
