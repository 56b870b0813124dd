import Mathlib.Data.Int.ModEq
import Dwarf.Proofs.Attribute.Stored
import Dwarf.Proofs.Bytes.LastByte
/-!
# Integer constants in their forms

Seven forms store an integer constant. Three tell whether it has a sign: a LEB128 number is signed
or not, and the constant of a declaration is signed. The four of fixed width leave this open, so a
producer writes a negative number there in two's complement, and it is up to who reads the
attribute to ask for the signed number or for the unsigned one. There is an accessor for each,
`Value.unsigned?` and `Value.signed?`.

> `Form.Constant` and `Form.SignedConstant`: bytes are a number in one of these forms, or a number
> with its sign.
>
> `Attribute.constant_stored`: the accessor for what was written gives it back, and where both
> accessors give a number it is the same one, up to a multiple of the size of the word.

A number that is out of the range of one accessor is none for it. This concerns the LEB128 forms
alone: every bit pattern of fixed width is a number either way.
-/

namespace Dwarf

namespace Value

/-- The number of bits of an integer constant. -/
def bits? : Value → Option Nat
  | data size _ => some (8 * size)
  | sdata _ | udata _ => some 64
  | _ => none

/-- A constant of fixed width is as wide as it says, and another one has 64 bits. -/
inductive InRange : Value → Prop where
  | data {size value : Nat} (h : value < placeValue 256 size) : InRange (data size value)
  | sdata {value : Int} (hlow : -0x8000000000000000 ≤ value) (hhigh : value < 0x8000000000000000) :
    InRange (sdata value)
  | udata {value : Nat} (h : value < 0x10000000000000000) : InRange (udata value)
  | other {value : Value} (h : value.bits? = none) : InRange value

/-- Reading a number with and without its sign gives the same word. -/
theorem signed_modEq_unsigned {value : Value} {n : Nat} {x : Int} (hn : value.unsigned? = some n)
    (hx : value.signed? = some x) : ∃ w, value.bits? = some w ∧ x ≡ n [ZMOD 2 ^ w] := by
  cases value with
  | data size found =>
    cases hn
    cases hx
    refine ⟨8 * size, rfl, ?_⟩
    have hplace : (2 : Int) ^ (8 * size) = (placeValue 256 size : Nat) := by
      rw [placeValue_two_pow (b := 256) 8 rfl, Int.natCast_pow]
      rfl
    rw [hplace]
    exact Int.bmod_emod
  | sdata found =>
    rw [unsigned?] at hn
    split at hn
    · cases hn
    · next hsign =>
      cases hn
      cases hx
      refine ⟨64, rfl, ?_⟩
      rw [Int.toNat_of_nonneg (Int.not_lt.mp hsign)]
  | udata found =>
    rw [signed?] at hx
    split at hx
    · cases hn
      cases hx
      exact ⟨64, rfl, rfl⟩
    · cases hx
  | _ => cases hn

theorem xor_none_sdata (value : Int) :
    Xor ((sdata value).unsigned? = none) ((sdata value).signed? = none) ↔ value < 0 := by
  rw [unsigned?, signed?]
  by_cases h : value < 0 <;> simp [h, Xor]

theorem xor_none_udata (value : Nat) :
    Xor ((udata value).unsigned? = none) ((udata value).signed? = none) ↔
      0x8000000000000000 ≤ value := by
  rw [unsigned?, signed?, ← Nat.not_lt]
  by_cases h : value < 0x8000000000000000 <;> simp [h, Xor]

end Value

namespace Form

/-- `bytes` are the number `n` in a form of integer constants. A number that the declaration gives
instead is `const`. -/
inductive Constant (order : ByteOrder) (n : Nat) : Form → (const : Option Int) → Bytes → Prop where
  | data1 {bytes : Bytes} (h : order.IsInteger 1 n bytes) : Constant order n data1 none bytes
  | data2 {bytes : Bytes} (h : order.IsInteger 2 n bytes) : Constant order n data2 none bytes
  | data4 {bytes : Bytes} (h : order.IsInteger 4 n bytes) : Constant order n data4 none bytes
  | data8 {bytes : Bytes} (h : order.IsInteger 8 n bytes) : Constant order n data8 none bytes
  | udata {bytes : Bytes} (h : Leb128.IsUnsigned n bytes) : Constant order n udata none bytes
  | sdata {bytes : Bytes} (h : Leb128.IsSigned n bytes) : Constant order n sdata none bytes
  | implicitConst : Constant order n implicitConst (some n) []

/-- The numbers from zero up that a form of integer constants has room for. -/
def HasRoom : Form → (n : Nat) → Prop
  | data1, n => n < 0x100
  | data2, n => n < 0x10000
  | data4, n => n < 0x100000000
  | data8, n | udata, n => n < 0x10000000000000000
  | sdata, n | implicitConst, n => n < 0x8000000000000000
  | _, _ => False

/-- The forms of constants of a fixed width. -/
def dataWidth? : Form → Option Nat
  | data1 => some 1
  | data2 => some 2
  | data4 => some 4
  | data8 => some 8
  | _ => none

/-- `bytes` are the number `x` with its sign in a form of integer constants. Of a fixed width it is
in two's complement, and in an unsigned form it has no sign. -/
inductive SignedConstant (order : ByteOrder) (x : Int) :
    Form → (const : Option Int) → Bytes → Prop where
  | data {form : Form} {width : Nat} {bytes : Bytes} (hform : form.dataWidth? = some width)
    (hlow : -2 ^ (8 * width - 1) ≤ x) (hhigh : x < 2 ^ (8 * width - 1))
    (h : order.IsInteger width (BitVec.ofInt (8 * width) x).toNat bytes) :
    SignedConstant order x form none bytes
  | udata {n : Nat} {bytes : Bytes} (hsign : x = n) (hhigh : x < 0x8000000000000000)
    (h : Leb128.IsUnsigned n bytes) : SignedConstant order x udata none bytes
  | sdata {bytes : Bytes} (h : Leb128.IsSigned x bytes) : SignedConstant order x sdata none bytes
  | implicitConst : SignedConstant order x implicitConst (some x) []

/-- The numbers that a form of integer constants has room for, together with their sign. -/
def HasSignedRoom (form : Form) (x : Int) : Prop :=
  match form with
  | data1 => -0x80 ≤ x ∧ x < 0x80
  | data2 => -0x8000 ≤ x ∧ x < 0x8000
  | data4 => -0x80000000 ≤ x ∧ x < 0x80000000
  | udata => 0 ≤ x ∧ x < 0x8000000000000000
  | data8 | sdata | implicitConst => -0x8000000000000000 ≤ x ∧ x < 0x8000000000000000
  | _ => False

theorem exists_constant {form : Form} {n : Nat} (h : form.HasRoom n) (order : ByteOrder) :
    ∃ const bytes, Constant order n form const bytes := by
  have hinteger : ∀ width, n < placeValue 256 width →
      order.IsInteger width n (order.encode width n) :=
    fun width hlt => ByteOrder.isInteger_iff.mpr ⟨hlt, rfl⟩
  cases form with
  | data1 => exact ⟨none, _, .data1 (hinteger 1 h)⟩
  | data2 => exact ⟨none, _, .data2 (hinteger 2 h)⟩
  | data4 => exact ⟨none, _, .data4 (hinteger 4 h)⟩
  | data8 => exact ⟨none, _, .data8 (hinteger 8 h)⟩
  | udata => exact ⟨none, _, .udata (Leb128.isUnsigned_encode h)⟩
  | sdata =>
    replace h : n < 0x8000000000000000 := h
    exact ⟨none, _, .sdata (Leb128.isSigned_encode (by omega) (by omega))⟩
  | implicitConst => exact ⟨some n, [], .implicitConst⟩
  | _ => cases h

theorem exists_signedConstant {form : Form} {x : Int} (h : form.HasSignedRoom x)
    (order : ByteOrder) : ∃ const bytes, SignedConstant order x form const bytes := by
  have hinteger : ∀ width, order.IsInteger width (BitVec.ofInt (8 * width) x).toNat
      (order.encode width (BitVec.ofInt (8 * width) x).toNat) := by
    intro width
    refine ByteOrder.isInteger_iff.mpr ⟨?_, rfl⟩
    rw [placeValue_two_pow (b := 256) 8 rfl]
    exact BitVec.isLt _
  cases form with
  | data1 => exact ⟨none, _, .data rfl h.1 h.2 (hinteger 1)⟩
  | data2 => exact ⟨none, _, .data rfl h.1 h.2 (hinteger 2)⟩
  | data4 => exact ⟨none, _, .data rfl h.1 h.2 (hinteger 4)⟩
  | data8 => exact ⟨none, _, .data rfl h.1 h.2 (hinteger 8)⟩
  | udata =>
    obtain ⟨n, rfl⟩ := Int.eq_ofNat_of_zero_le h.1
    have hhigh : (n : Int) < 0x8000000000000000 := h.2
    exact ⟨none, _, .udata rfl hhigh (Leb128.isUnsigned_encode (by omega))⟩
  | sdata => exact ⟨none, _, .sdata (Leb128.isSigned_encode h.1 h.2)⟩
  | implicitConst => exact ⟨some x, [], .implicitConst⟩
  | _ => cases h

/-- What is stored for an integer constant is in its range, if the declaration's constant is. -/
theorem Stores.inRange {enc : Encoding} {const : Option Int} {form : Form} {value : Value}
    {bytes : Bytes} (h : Stores enc const form value bytes)
    (hconst : ∀ i, const = some i → -0x8000000000000000 ≤ i ∧ i < 0x8000000000000000) :
    value.InRange := by
  cases h with
  | fixed hform h =>
    have hlt := (ByteOrder.isInteger_iff.mp h).1
    cases form <;> cases hform <;> first | exact .data hlt | exact .other rfl
  | number hform h =>
    have hlt := h.fits
    cases form <;> cases hform <;> first | exact .udata hlt | exact .other rfl
  | offset hform _ => cases form <;> cases hform <;> exact .other rfl
  | counted hform _ => cases form <;> cases hform <;> exact .other rfl
  | sdata h => exact .sdata h.low h.high
  | implicitConst h => exact .sdata (hconst _ h).1 (hconst _ h).2
  | _ => exact .other rfl

end Form

namespace Attribute

variable {enc : Encoding} {n : Nat} {x : Int} {form : Form} {const : Option Int} {bytes : Bytes}

/-- A payload in the form of the specification is read as what it means in this form. -/
theorem run_decode_of_spells {spec : AttrSpec} (hspec : form.code = spec.form)
    {payload : (form.layout enc spec.implicitConst?).Payload}
    (h : ((form.layout enc spec.implicitConst?).decode enc.order).Spells bytes payload)
    (rest : Bytes) : (decode enc spec).run (bytes ++ rest) =
      .ok ⟨spec.name, form, form.value enc spec.implicitConst? payload⟩ rest := by
  have hform : Form.ofCode? spec.form = some form := Form.ofCode?_eq_some.mpr hspec
  have hdirect : spec.form ≠ Form.indirectCode := by
    intro hcode
    rw [hcode, Form.ofCode?_indirectCode] at hform
    cases hform
  rw [decode_of_ne hdirect, decodeAs, hform]
  show (_ >>= _ : Decoder Attribute).run (bytes ++ rest) = _
  rw [Decoder.run_bind, h.run (Layout.delimited_decode _ _)]
  rfl

/-- Whatever the form that was read, the value is one of it. -/
theorem exists_stores {spec : AttrSpec} {bs rest : Bytes} {a : Attribute}
    (h : (decode enc spec).run bs = .ok a rest) :
    ∃ bytes, Form.Stores enc spec.implicitConst? a.form a.value bytes := by
  obtain ⟨code, mid, -, hread⟩ := Decoder.run_bind_eq_ok.mp h
  rw [decodeAs] at hread
  split at hread
  · cases hread
  · next form hform =>
    obtain ⟨payload, rest', hpayload, hvalue⟩ := Decoder.run_bind_eq_ok.mp hread
    cases hvalue
    obtain ⟨bytes, -, hspells⟩ := (Layout.delimited_decode enc.order _).run_eq_ok.mp hpayload
    exact ⟨bytes, Form.stores_of_spells hspells⟩

theorem inRange {spec : AttrSpec}
    (hconst : ∀ i, spec.const = some i → -0x8000000000000000 ≤ i ∧ i < 0x8000000000000000)
    {bs rest : Bytes} {a : Attribute} (h : (decode enc spec).run bs = .ok a rest) :
    a.value.InRange := by
  obtain ⟨bytes, hstores⟩ := exists_stores h
  refine hstores.inRange fun i hi => hconst i ?_
  rw [AttrSpec.implicitConst?] at hi
  split at hi
  · exact hi
  · cases hi

theorem unsigned_of_constant (h : Form.Constant enc.order n form const bytes) (name : Nat)
    (rest : Bytes) : ∃ value,
      (decode enc ⟨name, form.code, const⟩).run (bytes ++ rest) = .ok ⟨name, form, value⟩ rest ∧
        value.unsigned? = some n := by
  have hread := @run_decode_of_spells enc form bytes ⟨name, form.code, const⟩ rfl
  cases h with
  | data1 h | data2 h | data4 h | data8 h =>
    exact ⟨_, hread (Decoder.spells_uint.mpr h) rest, rfl⟩
  | udata h => exact ⟨_, hread (Decoder.spells_unsigned.mpr h) rest, rfl⟩
  | sdata h => exact ⟨_, hread (Decoder.spells_signed.mpr h) rest, rfl⟩
  | implicitConst => exact ⟨.sdata n, @hread (n : Int) rfl rest, rfl⟩

/-- In two's complement a number is the residue nearest to zero. -/
theorem bmod_toNat_ofInt {width : Nat} (hwidth : 0 < width) (hlow : -2 ^ (8 * width - 1) ≤ x)
    (hhigh : x < 2 ^ (8 * width - 1)) :
    ((BitVec.ofInt (8 * width) x).toNat : Int).bmod (placeValue 256 width) = x := by
  rw [placeValue_two_pow (b := 256) 8 rfl, ← BitVec.toInt_eq_toNat_bmod]
  exact BitVec.toInt_ofInt_eq_self (by omega) hlow hhigh

theorem signed_of_constant (h : Form.SignedConstant enc.order x form const bytes) (name : Nat)
    (rest : Bytes) : ∃ value,
      (decode enc ⟨name, form.code, const⟩).run (bytes ++ rest) = .ok ⟨name, form, value⟩ rest ∧
        value.signed? = some x := by
  have hread := @run_decode_of_spells enc form bytes ⟨name, form.code, const⟩ rfl
  cases h with
  | data hform hlow hhigh h =>
    cases form <;> cases hform <;>
      exact ⟨_, hread (Decoder.spells_uint.mpr h) rest,
        congrArg some (bmod_toNat_ofInt (by decide) hlow hhigh)⟩
  | @udata n _ hsign hhigh h =>
    refine ⟨.udata n, hread (Decoder.spells_unsigned.mpr h) rest, ?_⟩
    subst hsign
    exact if_pos (by omega)
  | sdata h => exact ⟨_, hread (Decoder.spells_signed.mpr h) rest, rfl⟩
  | implicitConst => exact ⟨.sdata x, @hread x rfl rest, rfl⟩

/-- **An integer constant survives every form that has room for it.** A number from zero up is
stored in some bytes, and from any bytes that store it, whatever follows them, an attribute is read
whose unsigned value is the number. A number with its sign is stored in two's complement where the
width is fixed, and then it is the signed value of what is read.

Of one attribute, whichever form it was read in, the two values are congruent modulo the size of
the word. And a LEB128 number, or the constant of a declaration, has just one of them exactly when
it is out of the range of the other. -/
theorem constant_stored (enc : Encoding) (name : Nat) :
    (∀ (form : Form) (n : Nat), form.HasRoom n →
      (∃ const bytes, form.Constant enc.order n const bytes) ∧
      ∀ const bytes, form.Constant enc.order n const bytes → ∀ rest, ∃ value,
        (decode enc ⟨name, form.code, const⟩).run (bytes ++ rest) = .ok ⟨name, form, value⟩ rest ∧
          value.unsigned? = some n) ∧
    (∀ (form : Form) (x : Int), form.HasSignedRoom x →
      (∃ const bytes, form.SignedConstant enc.order x const bytes) ∧
      ∀ const bytes, form.SignedConstant enc.order x const bytes → ∀ rest, ∃ value,
        (decode enc ⟨name, form.code, const⟩).run (bytes ++ rest) = .ok ⟨name, form, value⟩ rest ∧
          value.signed? = some x) ∧
    ∀ spec : AttrSpec,
      (∀ i, spec.const = some i → -0x8000000000000000 ≤ i ∧ i < 0x8000000000000000) →
      ∀ (bs : Bytes) (a : Attribute) (rest : Bytes), (decode enc spec).run bs = .ok a rest →
        (∀ n x, a.value.unsigned? = some n → a.value.signed? = some x →
          ∃ w, a.value.bits? = some w ∧ x ≡ n [ZMOD 2 ^ w]) ∧
        (∀ v, a.value = .sdata v → (Xor (a.value.unsigned? = none) (a.value.signed? = none) ↔
          ¬ (0 ≤ v ∧ v < 0x10000000000000000))) ∧
        ∀ v, a.value = .udata v → (Xor (a.value.unsigned? = none) (a.value.signed? = none) ↔
          ¬ v < 0x8000000000000000) := by
  refine ⟨?_, ?_, ?_⟩
  · intro form n hroom
    exact ⟨Form.exists_constant hroom enc.order,
      fun const bytes h rest => unsigned_of_constant h name rest⟩
  · intro form x hroom
    exact ⟨Form.exists_signedConstant hroom enc.order,
      fun const bytes h rest => signed_of_constant h name rest⟩
  · intro spec hconst bs a rest hread
    have hrange := inRange hconst hread
    refine ⟨fun n x => Value.signed_modEq_unsigned, ?_, ?_⟩
    · intro v hv
      rw [hv] at hrange ⊢
      rw [Value.xor_none_sdata]
      cases hrange with
      | sdata hlow hhigh => omega
      | other h => cases h
    · intro v hv
      rw [hv, Value.xor_none_udata, Nat.not_lt]

/-- Minus two in two bytes of a big-endian file is 65534 without its sign, and minus two of a
declaration is nothing without its sign. -/
theorem constant_stored_minusTwo :
    (∃ value, (decode ⟨.big, 4, .dwarf32, 5⟩ ⟨0x1c, 0x05, none⟩).run [0xff, 0xfe, 7] =
      .ok ⟨0x1c, .data2, value⟩ [7] ∧ value.unsigned? = some 65534) ∧
    (∃ value, (decode ⟨.big, 4, .dwarf32, 5⟩ ⟨0x1c, 0x05, none⟩).run [0xff, 0xfe, 7] =
      .ok ⟨0x1c, .data2, value⟩ [7] ∧ value.signed? = some (-2)) ∧
    (decode ⟨.big, 4, .dwarf32, 5⟩ ⟨0x1c, 0x21, some (-2)⟩).run [7] =
      .ok ⟨0x1c, .implicitConst, .sdata (-2)⟩ [7] ∧
    Xor ((Value.sdata (-2)).unsigned? = none) ((Value.sdata (-2)).signed? = none) := by
  obtain ⟨hunsigned, hsigned, hvalues⟩ := constant_stored ⟨.big, 4, .dwarf32, 5⟩ 0x1c
  have hroom : (65534 : Nat) < 0x10000 := by decide
  have hsignedRoom : -0x8000 ≤ (-2 : Int) ∧ (-2 : Int) < 0x8000 := by decide
  have hinteger : ByteOrder.big.IsInteger 2 65534 [0xff, 0xfe] := ⟨rfl, by decide⟩
  have hcomplement : (BitVec.ofInt (8 * 2) (-2)).toNat = 65534 := by decide
  have hread : (decode ⟨.big, 4, .dwarf32, 5⟩ ⟨0x1c, 0x21, some (-2)⟩).run [7] =
      .ok ⟨0x1c, .implicitConst, .sdata (-2)⟩ [7] := by
    decide +kernel
  refine ⟨?_, ?_, hread, ?_⟩
  · exact (hunsigned .data2 65534 hroom).2 none [0xff, 0xfe] (.data2 hinteger) [7]
  · exact (hsigned .data2 (-2) hsignedRoom).2 none [0xff, 0xfe]
      (.data rfl (by decide) (by decide) (hcomplement ▸ hinteger)) [7]
  · have hrange : ∀ i, some (-2 : Int) = some i →
        -0x8000000000000000 ≤ i ∧ i < 0x8000000000000000 := by
      intro i hi
      cases hi
      decide
    exact ((hvalues ⟨0x1c, 0x21, some (-2)⟩ hrange [7] _ [7] hread).2.1 (-2) rfl).mpr (by decide)

end Attribute

end Dwarf
