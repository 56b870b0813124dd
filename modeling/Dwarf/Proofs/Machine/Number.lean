import Mathlib.Data.Nat.Bitwise
import Dwarf.Proofs.Machine.Integer
/-!
# Numbers put together in a word

The library has its LEB128 numbers put together byte by byte, in a word of 64 bits: the low
seven bits of each byte are shifted to their place and joined to the bits that are there. The
tenth byte has one place left and is looked at first. If it does not fit there, the bytes up to
the end of the number are passed over before the fault is given. A signed number gets its sign in
the end, by setting the bits above the last group, if there are any.

The decoders of numbers know nothing of words: they take all the digits of a number and then look
at them. The two are the same, because after some bytes the word holds the value of their digits:

> `run_word`: the invariant, carried through a run of the loop.
>
> `computes_wordUnsigned`, `computes_wordSigned`: a number is put together without a trap, and it
> is the one that the decoder reads.
-/

namespace Dwarf

namespace Machine

/-- A word shifted to the left by less than its width. -/
def shiftLeft (word : BitVec 64) (shift : Nat) : Except Trap (BitVec 64) :=
  if shift < 64 then .ok (word <<< shift) else .error .overflow

theorem shiftLeft_eq {word : BitVec 64} {shift : Nat} (h : shift < 64) :
    shiftLeft word shift = .ok (word <<< shift) := if_pos h

/-! ### The bits of a byte -/

/-- The high bit of a byte, which says that others follow. -/
def continues (b : UInt8) : Bool := b &&& 0x80 != 0

/-- Bit 6 of a byte, which is the sign if the byte is the last one. -/
def negative (b : UInt8) : Bool := b &&& 0x40 != 0

/-- The low seven bits of a byte. -/
def lowBits (b : UInt8) : BitVec 64 := BitVec.ofNat 64 (b &&& 0x7f).toNat

theorem and_two_pow_ne_zero (n i : Nat) : n &&& 2 ^ i ≠ 0 ↔ n / 2 ^ i % 2 = 1 := by
  rw [Nat.and_two_pow, Nat.testBit_eq_decide_div_mod_eq]
  by_cases h : n / 2 ^ i % 2 = 1 <;> simp [h]

theorem continues_iff (b : UInt8) : continues b = true ↔ ¬ b < 0x80 := by
  have hb := b.toNat_lt
  have hbit := and_two_pow_ne_zero b.toNat 7
  rw [continues, bne_iff_ne, ne_eq, ← UInt8.toNat_inj, UInt8.toNat_and, UInt8.lt_iff_toNat_lt]
  show b.toNat &&& 2 ^ 7 ≠ 0 ↔ ¬ b.toNat < 128
  omega

theorem negative_iff {b : UInt8} (h : b < 0x80) : negative b = true ↔ 64 ≤ b.toNat := by
  have hb : b.toNat < 128 := UInt8.lt_iff_toNat_lt.mp h
  have hbit := and_two_pow_ne_zero b.toNat 6
  rw [negative, bne_iff_ne, ne_eq, ← UInt8.toNat_inj, UInt8.toNat_and]
  show b.toNat &&& 2 ^ 6 ≠ 0 ↔ 64 ≤ b.toNat
  omega

theorem lowBits_eq (b : UInt8) : lowBits b = BitVec.ofNat 64 (b.toNat % 128) := by
  rw [lowBits, UInt8.toNat_and]
  exact congrArg _ (Nat.and_two_pow_sub_one_eq_mod b.toNat 7)

namespace Reader

open Leb128

variable {limit : Nat} {α : Type}

/-- Pass over the bytes of a number behind the byte `b`. -/
def passFrom (b : UInt8) : Reader (UInt8 ⊕ Unit) := do
  if continues b then
    let next ← streamByte
    return .inl next
  else
    return .inr ()

/-- One byte more of a number, of which `word` holds the groups below the bit `shift`. -/
def group (top : UInt8) (finish : BitVec 64 → Nat → UInt8 → α) (cause : Fault) :
    BitVec 64 × Nat → Reader ((BitVec 64 × Nat) ⊕ α)
  | (word, shift) => do
    let b ← streamByte
    if shift = 63 ∧ b ≠ 0 ∧ b ≠ top then
      loop passFrom b
      fail cause
    else
      let bits ← lift (shiftLeft (lowBits b) shift)
      let word := word ||| bits
      let shift := shift + 7
      return if continues b then .inl (word, shift) else .inr (finish word shift b)

/-- A number put together in a word, of which `finish` is the value. -/
def word (top : UInt8) (finish : BitVec 64 → Nat → UInt8 → α) (cause : Fault) : Reader α :=
  loop (group top finish cause) (0, 0)

/-- An unsigned number is the word. -/
def finishUnsigned (word : BitVec 64) (_shift : Nat) (_last : UInt8) : Nat := word.toNat

/-- A signed number has its sign in all the bits above its last group. -/
def finishSigned (word : BitVec 64) (shift : Nat) (last : UInt8) : Int :=
  if shift < 64 ∧ negative last then (word ||| BitVec.allOnes 64 <<< shift).toInt else word.toInt

/-- An unsigned LEB128 number, put together in a word. -/
def wordUnsigned : Reader Nat := word 1 finishUnsigned .unsignedOverflow

/-- A signed LEB128 number, put together in a word. -/
def wordSigned : Reader Int := word 0x7f finishSigned .signedOverflow

/-! ### One byte -/

theorem run_passFrom_last {b : UInt8} (h : b < 0x80) (bs : Bytes) :
    (passFrom b).run bs = .ok (.ok (.inr ()) bs) := by
  rw [passFrom, if_neg (fun hb => (continues_iff b).mp hb h)]
  rfl

theorem run_passFrom_more {b : UInt8} (h : ¬ b < 0x80) (bs : Bytes) :
    (passFrom b).run bs = .ok (match bs with
      | [] => .fault .unexpectedEnd []
      | next :: bs => .ok (.inl next) bs) := by
  rw [passFrom, if_pos ((continues_iff b).mpr h)]
  cases bs <;> rfl

/-- The bytes that are passed over are those of a number, of which the first is there already. -/
theorem run_pass (b : UInt8) (bs : Bytes) :
    (loop passFrom b).run bs = .ok (match digits? (b :: bs) with
      | none => .fault .unexpectedEnd []
      | some (_, rest) => .ok () rest) := by
  show loopFrom passFrom b bs = _
  induction bs generalizing b with
  | nil =>
    rw [loopFrom, digits?]
    by_cases hb : b < 0x80
    · rw [run_passFrom_last hb, if_pos hb]
    · rw [run_passFrom_more hb, if_neg hb]
      rfl
  | cons next bs ih =>
    rw [loopFrom, digits?]
    by_cases hb : b < 0x80
    · rw [run_passFrom_last hb, if_pos hb]
    · rw [run_passFrom_more hb, if_neg hb]
      simp only [dif_pos (Nat.lt_succ_self bs.length), List.length_cons, ih]
      cases digits? (next :: bs) <;> rfl

section Word

variable {top : UInt8} {finish : BitVec 64 → Nat → UInt8 → α} {value : Bytes → α} {cause : Fault}

theorem run_group_nil (s : BitVec 64 × Nat) :
    (group top finish cause s).run [] = .ok (.fault .unexpectedEnd []) := rfl

/-- A tenth byte that does not fit. -/
theorem run_group_refused {b : UInt8} (h : b ≠ 0 ∧ b ≠ top) (word : BitVec 64) (bs : Bytes) :
    (group top finish cause (word, 63)).run (b :: bs) = .ok (match digits? (b :: bs) with
      | none => .fault .unexpectedEnd []
      | some (_, rest) => .fault cause rest) := by
  show (if 63 = 63 ∧ b ≠ 0 ∧ b ≠ top then _ else _ : Reader _).run bs = _
  rw [if_pos ⟨rfl, h⟩]
  show (loop passFrom b >>= _).run bs = _
  simp only [bind, run_pass]
  cases digits? (b :: bs) <;> rfl

/-- The state after the digits `ds`: the value of these is in the word. -/
def wordOf (ds : Bytes) : BitVec 64 × Nat := (BitVec.ofNat 64 (digitValue ds), 7 * ds.length)

/-- What one byte does to the word. -/
theorem run_group_fits {ds : Bytes} {b : UInt8} (hlen : ds.length ≤ 9)
    (h : ds.length = 9 → b = 0 ∨ b = top) (bs : Bytes) :
    (group top finish cause (wordOf ds)).run (b :: bs) =
      .ok (.ok (if b < 0x80 then .inr (finish (wordOf (ds ++ [b])).1 (wordOf (ds ++ [b])).2 b)
        else .inl (wordOf (ds ++ [b]))) bs) := by
  have hfits : ¬ (7 * ds.length = 63 ∧ b ≠ 0 ∧ b ≠ top) := by
    rintro ⟨hshift, hzero, htop⟩
    rcases h (by omega) with h | h
    · exact hzero h
    · exact htop h
  have hlow : digitValue ds < 2 ^ (7 * ds.length) := by
    rw [← placeValue_two_pow (b := 128) 7 rfl]
    exact digitValue_lt ds
  have hword : (wordOf ds).1 ||| lowBits b <<< (7 * ds.length) = (wordOf (ds ++ [b])).1 := by
    rw [wordOf, wordOf, lowBits_eq, or_shiftLeft hlow, digitValue_append,
      placeValue_two_pow (b := 128) 7 rfl]
    rfl
  have hshift : 7 * ds.length + 7 = (wordOf (ds ++ [b])).2 := by
    show 7 * ds.length + 7 = 7 * (ds ++ [b]).length
    rw [List.length_append, List.length_singleton]
    omega
  show (if 7 * ds.length = 63 ∧ b ≠ 0 ∧ b ≠ top then _ else _ : Reader _).run bs = _
  rw [if_neg hfits, shiftLeft_eq (by omega)]
  show Except.ok (Outcome.ok (if continues b = true
    then Sum.inl ((wordOf ds).1 ||| lowBits b <<< (7 * ds.length), 7 * ds.length + 7)
    else Sum.inr (finish ((wordOf ds).1 ||| lowBits b <<< (7 * ds.length)) (7 * ds.length + 7) b))
    bs) = _
  rw [hword, hshift]
  by_cases hb : b < 0x80
  · rw [if_pos hb, if_neg fun hmore => (continues_iff b).mp hmore hb]
  · rw [if_neg hb, if_pos ((continues_iff b).mpr hb)]

/-! ### The loop -/

/-- What the loop computes from the state after the digits `ds`. -/
def wordAfter (top : UInt8) (value : Bytes → α) (cause : Fault) (ds : Bytes) : Decoder α where
  run bs :=
    match digits? bs with
    | none => .fault .unexpectedEnd []
    | some (es, rest) =>
      if fitsWord top (ds ++ es) then .ok (value (ds ++ es)) rest else .fault cause rest

theorem run_wordAfter_last (ds : Bytes) {b : UInt8} (hb : b < 0x80) (bs : Bytes) :
    (wordAfter top value cause ds).run (b :: bs) =
      if fitsWord top (ds ++ [b]) then .ok (value (ds ++ [b])) bs else .fault cause bs := by
  simp only [wordAfter, digits?, if_pos hb]

theorem run_wordAfter_more (ds : Bytes) {b : UInt8} (hb : ¬ b < 0x80) (bs : Bytes) :
    (wordAfter top value cause ds).run (b :: bs) =
      (wordAfter top value cause (ds ++ [b])).run bs := by
  simp only [wordAfter, digits?, if_neg hb]
  cases digits? bs with
  | none => rfl
  | some found => simp only [List.append_assoc, List.singleton_append]

/-- A tenth byte that does not fit is refused with the bytes that follow it in the number. -/
theorem run_wordAfter_refused {ds : Bytes} {b : UInt8} (hlen : ds.length = 9)
    (h : b ≠ 0 ∧ b ≠ top) (bs : Bytes) :
    (wordAfter top value cause ds).run (b :: bs) = match digits? (b :: bs) with
      | none => .fault .unexpectedEnd []
      | some (_, rest) => .fault cause rest := by
  rw [wordAfter]
  cases hds : digits? (b :: bs) with
  | none => simp only [hds]
  | some found =>
    obtain ⟨es, rest⟩ := found
    obtain ⟨es, rfl⟩ : ∃ es', es = b :: es' := by
      rw [digits?] at hds
      split at hds
      · cases hds
        exact ⟨[], rfl⟩
      · split at hds <;> cases hds
        exact ⟨_, rfl⟩
    have hfits : ¬ fitsWord top (ds ++ b :: es) = true := by
      rw [fitsWord_of_tenth hlen]
      rintro ⟨-, hzero | htop⟩
      · exact h.1 hzero
      · exact h.2 htop
    simp only [hds, if_neg hfits]

variable (htop : top < 0x80)
  (hfinish : ∀ {init : Bytes} {last : UInt8}, last < 0x80 → fitsWord top (init ++ [last]) = true →
    finish (wordOf (init ++ [last])).1 (wordOf (init ++ [last])).2 last = value (init ++ [last]))
include htop hfinish

/-- From the state after some digits the loop goes on as if it had them before it. -/
theorem run_word {ds : Bytes} (hlen : ds.length ≤ 9) (bs : Bytes) :
    loopFrom (group top finish cause) (wordOf ds) bs =
      .ok ((wordAfter top value cause ds).run bs) := by
  induction bs generalizing ds with
  | nil =>
    rw [loopFrom, run_group_nil]
    rfl
  | cons b bs ih =>
    rw [loopFrom]
    by_cases hrefused : ds.length = 9 ∧ b ≠ 0 ∧ b ≠ top
    · obtain ⟨hnine, hbyte⟩ := hrefused
      have hshift : wordOf ds = ((wordOf ds).1, 63) := by rw [wordOf, hnine]
      rw [hshift, run_group_refused hbyte, run_wordAfter_refused hnine hbyte]
      cases digits? (b :: bs) <;> rfl
    · have hfits : ds.length = 9 → b = 0 ∨ b = top := by
        intro hnine
        by_contra hbyte
        exact hrefused ⟨hnine, not_or.mp hbyte⟩
      rw [run_group_fits hlen hfits]
      by_cases hb : b < 0x80
      · have hfit : fitsWord top (ds ++ [b]) = true := by
          rcases Nat.lt_or_eq_of_le hlen with hshort | hnine
          · refine fitsWord_of_short ?_
            rw [List.length_append]
            exact hshort
          · exact (fitsWord_of_tenth hnine).mpr ⟨rfl, hfits hnine⟩
        rw [if_pos hb, run_wordAfter_last ds hb, if_pos hfit, hfinish hb hfit]
      · have hshort : ds.length ≠ 9 := by
          intro hnine
          rcases hfits hnine with rfl | rfl
          · exact hb (by decide)
          · exact hb htop
        have hnext : (ds ++ [b]).length ≤ 9 := by
          rw [List.length_append, List.length_singleton]
          omega
        rw [if_neg hb, run_wordAfter_more ds hb]
        simp only [List.length_cons, dif_pos (Nat.lt_succ_self bs.length)]
        exact ih hnext

theorem computes_word : (word top finish cause).Computes limit (wordAfter top value cause []) := by
  intro bs _
  have hstart : ([] : Bytes).length ≤ 9 := Nat.zero_le 9
  exact run_word htop hfinish hstart bs

end Word

/-! ### The value of the word -/

theorem finishUnsigned_eq {init : Bytes} {last : UInt8} (hlast : last < 0x80)
    (hfits : fitsWord 1 (init ++ [last]) = true) :
    finishUnsigned (wordOf (init ++ [last])).1 (wordOf (init ++ [last])).2 last =
      digitValue (init ++ [last]) := by
  obtain ⟨-, hlt⟩ := (fitsUnsigned_iff hlast).mp hfits
  rw [finishUnsigned, wordOf, BitVec.toNat_ofNat]
  exact Nat.mod_eq_of_lt hlt

theorem finishSigned_eq {init : Bytes} {last : UInt8} (hlast : last < 0x80)
    (hfits : fitsWord 0x7f (init ++ [last]) = true) :
    finishSigned (wordOf (init ++ [last])).1 (wordOf (init ++ [last])).2 last =
      signedDigitValue (init ++ [last]) := by
  obtain ⟨hlen, hlow, hhigh⟩ := (fitsSigned_iff hlast).mp hfits
  have hvalue := signedDigitValue_concat init hlast
  have hsign := negative_iff hlast
  have hlt := digitValue_lt (init ++ [last])
  rw [placeValue_two_pow (b := 128) 7 rfl] at hvalue hlt
  rw [finishSigned, wordOf]
  generalize digitValue (init ++ [last]) = digits at *
  generalize (init ++ [last]).length = len at *
  generalize signedDigitValue (init ++ [last]) = value at *
  by_cases hnegative : negative last = true
  · rw [if_pos (hsign.mp hnegative)] at hvalue
    by_cases hroom : 7 * len < 64
    -- Setting the bits above the digits takes their place value off, in a word.
    · have hones : BitVec.allOnes 64 = BitVec.ofNat 64 0xffffffffffffffff := rfl
      have hwrap : ((digits + 2 ^ (7 * len) * 0xffffffffffffffff : Nat) : Int) =
          value + (2 ^ 64 : Nat) * (2 ^ (7 * len) : Nat) := by
        rw [hvalue]
        push_cast
        omega
      rw [if_pos ⟨hroom, hnegative⟩, hones, or_shiftLeft hlt, BitVec.toInt_ofNat', hwrap,
        Int.add_mul_bmod_self_left]
      exact Int.bmod_eq_of_le (by omega) (by omega)
    -- There are ten digits, and what does not fit in the word are 64 times its size.
    · have hten : len = 10 := by omega
      subst hten
      have hwrap : (digits : Int) = value + (2 ^ 64 : Nat) * 64 := by
        rw [hvalue]
        omega
      rw [if_neg fun h => hroom h.1, BitVec.toInt_ofNat', hwrap, Int.add_mul_bmod_self_left]
      exact Int.bmod_eq_of_le (by omega) (by omega)
  · rw [if_neg fun h => hnegative (hsign.mpr h), Int.natCast_zero, Int.sub_zero] at hvalue
    rw [if_neg fun h => hnegative h.2, BitVec.toInt_ofNat', ← hvalue]
    exact Int.bmod_eq_of_le (by omega) (by omega)

theorem computes_wordUnsigned : wordUnsigned.Computes limit Decoder.unsigned :=
  computes_word (by decide) finishUnsigned_eq

theorem computes_wordSigned : wordSigned.Computes limit Decoder.signed :=
  computes_word (by decide) finishSigned_eq

end Reader

end Machine

/-! ### Exact numbers -/

namespace Decoder

open Leb128

/-- What is left behind a number starts behind the first byte below `0x80`. -/
theorem run_unsigned_of_last {bs : Bytes} {k : Nat} (hk : bs.findIdx? (· < 0x80) = some k) :
    if k ≤ 8 ∨ k = 9 ∧ bs.getD 9 0 ≤ 1 then
      unsigned.run bs = .ok (groups bs (k + 1)) (bs.drop (k + 1)) ∧
        groups bs (k + 1) < 0x10000000000000000
    else unsigned.run bs = .fault .unsignedOverflow (bs.drop (k + 1)) := by
  have hrun := run_unsigned_eq bs
  simp only [hk] at hrun
  by_cases hfits : k ≤ 8 ∨ k = 9 ∧ bs.getD 9 0 ≤ 1
  · rw [if_pos hfits] at hrun ⊢
    obtain ⟨bytes, -, hspell⟩ := delimited_unsigned.run_eq_ok.mp hrun
    exact ⟨hrun, (spells_unsigned.mp hspell).fits⟩
  · rw [if_neg hfits] at hrun ⊢
    exact hrun

/-- **The reader of unsigned numbers is exact**: it gives the sum of the groups of seven bits up to
the first byte below `0x80`, which is a number of 64 bits, and leaves what is behind that byte; it
refuses a tenth byte above 1, and an eleventh, only there; and without a last byte it takes all
there is. So the bytes that give a number, whatever follows them, are its shortest form and those
padded to at most ten bytes. The loop that puts a number together in a word does the same. -/
theorem unsigned_exact :
    (∀ bs : Bytes, Machine.Reader.wordUnsigned.run bs = .ok (unsigned.run bs)) ∧
    (∀ bs : Bytes, bs.findIdx? (· < 0x80) = none → unsigned.run bs = .fault .unexpectedEnd []) ∧
    (∀ (bs : Bytes) (k : Nat), bs.findIdx? (· < 0x80) = some k → k < bs.length ∧
      if k ≤ 8 ∨ k = 9 ∧ bs.getD 9 0 ≤ 1 then
        unsigned.run bs = .ok (groups bs (k + 1)) (bs.drop (k + 1)) ∧
          groups bs (k + 1) < 0x10000000000000000
      else unsigned.run bs = .fault .unsignedOverflow (bs.drop (k + 1))) ∧
    (∀ value < 0x10000000000000000, (encodeUnsigned value).length ≤ 10 ∧
      ∀ bytes : Bytes, (∀ rest, unsigned.run (bytes ++ rest) = .ok value rest) ↔
        ∃ zeros, (encodeUnsigned value).length + zeros ≤ 10 ∧
          bytes = padded (encodeUnsigned value) zeros) := by
  refine ⟨?_, ?_, ?_, ?_⟩
  · intro bs
    exact Machine.Reader.computes_wordUnsigned bs (Nat.le_refl _)
  · intro bs hnone
    rw [run_unsigned_eq, hnone]
  · intro bs k hk
    exact ⟨(List.findIdx?_eq_some_iff_findIdx_eq.mp hk).1, run_unsigned_of_last hk⟩
  · intro value hvalue
    refine ⟨(isUnsigned_encode hvalue).short, fun bytes => ?_⟩
    rw [← spells_unsigned_iff hvalue]
    constructor
    · intro h
      have hrun := h []
      rwa [List.append_nil] at hrun
    · intro h rest
      exact h.run delimited_unsigned rest

/-- Three bytes of a number, and a number of one byte with two zeros behind it. -/
theorem unsigned_exact_threeBytes :
    unsigned.run [0xe5, 0x8e, 0x26, 0x2a] = .ok 624485 [0x2a] ∧
    unsigned.run [0x85, 0x80, 0x00, 0x2a] = .ok 5 [0x2a] := by
  obtain ⟨-, -, hlast, hforms⟩ := unsigned_exact
  constructor
  · obtain ⟨-, h⟩ := hlast [0xe5, 0x8e, 0x26, 0x2a] 2 (by decide)
    rw [if_pos (by decide)] at h
    exact h.1
  · have hfive : encodeUnsigned 5 = [5] := by
      rw [encodeUnsigned, if_pos (by decide)]
      rfl
    have hpadded := ((hforms 5 (by decide)).2 [0x85, 0x80, 0x00]).mpr
    rw [hfive] at hpadded
    exact hpadded ⟨2, by decide, by decide⟩ [0x2a]

/-- **The reader of signed numbers is exact**: it gives the groups of seven bits up to the first
byte below `0x80` as a two's complement number of so many bits, and leaves what is behind that
byte; of ten bytes, the last of which repeats the sign, it gives the low 63 bits and the sign; it
refuses any other tenth byte, and an eleventh; and without a last byte it takes all there is. So a
number of 64 bits is read from its shortest form, whatever follows it. The loop that puts a number
together in a word does the same. -/
theorem signed_exact :
    (∀ bs : Bytes, Machine.Reader.wordSigned.run bs = .ok (signed.run bs)) ∧
    (∀ bs : Bytes, bs.findIdx? (· < 0x80) = none → signed.run bs = .fault .unexpectedEnd []) ∧
    (∀ (bs : Bytes) (k : Nat), bs.findIdx? (· < 0x80) = some k → k < bs.length ∧
      signed.run bs =
        if k ≤ 8 then
          .ok (BitVec.ofNat (7 * (k + 1)) (groups bs (k + 1))).toInt (bs.drop (k + 1))
        else if k = 9 ∧ (bs.getD 9 0 = 0 ∨ bs.getD 9 0 = 0x7f) then
          .ok (groups bs 9 - if bs.getD 9 0 = 0 then 0 else 0x8000000000000000) (bs.drop 10)
        else .fault .signedOverflow (bs.drop (k + 1))) ∧
    (∀ value : Int, -0x8000000000000000 ≤ value → value < 0x8000000000000000 →
      (∀ rest, signed.run (encodeSigned value ++ rest) = .ok value rest) ∧
      ∀ bytes, signed.run bytes = .ok value [] → (encodeSigned value).length ≤ bytes.length) := by
  refine ⟨?_, ?_, ?_, ?_⟩
  · intro bs
    exact Machine.Reader.computes_wordSigned bs (Nat.le_refl _)
  · intro bs hnone
    rw [run_signed_eq, hnone]
  · intro bs k hk
    have hrun := run_signed_eq bs
    simp only [hk] at hrun
    exact ⟨(List.findIdx?_eq_some_iff_findIdx_eq.mp hk).1, hrun⟩
  · intro value hlow hhigh
    exact ⟨signed_encode hlow hhigh, fun bytes h => (spells_signed.mp h).length_le⟩

/-- A negative number of two bytes, and the least number of 64 bits. -/
theorem signed_exact_negative :
    signed.run [0x80, 0x7f, 0x2a] = .ok (-128) [0x2a] ∧
    signed.run (encodeSigned (-0x8000000000000000) ++ [0x2a]) =
      .ok (-0x8000000000000000) [0x2a] := by
  obtain ⟨-, -, hlast, hforms⟩ := signed_exact
  constructor
  · obtain ⟨-, h⟩ := hlast [0x80, 0x7f, 0x2a] 1 (by decide)
    exact h
  · exact (hforms (-0x8000000000000000) (by decide) (by decide)).1 [0x2a]

end Decoder

end Dwarf
