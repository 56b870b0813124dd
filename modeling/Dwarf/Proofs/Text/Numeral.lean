import Dwarf.Text.Numeral
/-!
# How a number is to be read

A dump shows numbers by their digits, and whoever reads it takes them for the number: the last
digit counts ones, and those in front of it count the base. Here a text is called a numeral by this
reading and not by the way it was made, and the same is done for the columns into which a dump puts
its texts.

> `numeral_iff`: there is one numeral for each number, without a zero in front.
>
> `isDecimal_iff`, `isSignedDecimal_iff`, `isHexadecimal_iff`, `isWideHexadecimal_iff`: the four
> ways to write a number are such numerals.
-/

namespace Dwarf

/-- `digits` stand for `value`. The last of them counts ones, and those in front of it, if there
are any, stand for how often the base is in it. -/
inductive Numeral (base : Nat) : (value : Nat) → (digits : List Char) → Prop where
  | digit {d : Nat} (hd : d < base) : Numeral base d [Nat.digitChar d]
  | more {count d : Nat} {front : List Char} (hcount : 0 < count) (hd : d < base)
    (hfront : Numeral base count front) :
    Numeral base (count * base + d) (front ++ [Nat.digitChar d])

theorem numeral_toDigits {base : Nat} (hbase : 1 < base) (value : Nat) :
    Numeral base value (Nat.toDigits base value) := by
  induction value using Nat.strongRecOn with
  | ind value ih =>
    rw [Nat.toDigits_eq_if hbase]
    split
    · exact .digit ‹_›
    · rename_i hle
      have hlt : value / base < value := Nat.div_lt_self (by omega) hbase
      have hcount : 0 < value / base := Nat.div_pos (Nat.not_lt.mp hle) (by omega)
      have hsum := Nat.div_add_mod' value base
      have hmore := Numeral.more hcount (Nat.mod_lt value (by omega)) (ih _ hlt)
      rw [hsum] at hmore
      exact hmore

theorem numeral_iff {base : Nat} (hbase : 1 < base) {value : Nat} {digits : List Char} :
    Numeral base value digits ↔ digits = Nat.toDigits base value := by
  constructor
  · intro h
    induction h with
    | digit hd => rw [Nat.toDigits_of_lt_base hd]
    | @more count d front hcount hd hfront ih =>
      have hle : base ≤ count * base + d :=
        Nat.le_trans (Nat.le_mul_of_pos_left base hcount) (Nat.le_add_right _ _)
      rw [Nat.toDigits_of_base_le hbase hle, Nat.mul_comm count,
        Nat.mul_add_div (Nat.lt_of_le_of_lt (Nat.zero_le d) hd), Nat.mul_add_mod,
        Nat.div_eq_of_lt hd, Nat.mod_eq_of_lt hd, Nat.add_zero, ih]
  · rintro rfl
    exact numeral_toDigits hbase value

/-! ### Numbers in a dump -/

variable {value : Nat} {text : String}

/-- `text` is `value` in base ten. -/
def IsDecimal (value : Nat) (text : String) : Prop := Numeral 10 value text.toList

/-- `text` is `value` in base ten, and begins with a minus sign if it is negative. -/
inductive IsSignedDecimal : (value : Int) → (text : String) → Prop where
  | nonneg {size : Nat} {digits : String} (hdigits : IsDecimal size digits) :
    IsSignedDecimal size digits
  | neg {size : Nat} {digits : String} (hpos : 0 < size) (hdigits : IsDecimal size digits) :
    IsSignedDecimal (-size) ("-" ++ digits)

/-- `text` is `value` in base sixteen. -/
def IsHexDigits (value : Nat) (text : String) : Prop := Numeral 16 value text.toList

/-- `text` is `value` in base sixteen, after `0x`. -/
def IsHexadecimal (value : Nat) (text : String) : Prop :=
  ∃ digits, IsHexDigits value digits ∧ text = "0x" ++ digits

theorem isDecimal_iff : IsDecimal value text ↔ text = decimal value := by
  rw [IsDecimal, numeral_iff (by decide), decimal, ← String.toList_inj, String.toList_ofList]

theorem isSignedDecimal_iff {value : Int} :
    IsSignedDecimal value text ↔ text = signedDecimal value := by
  constructor
  · rintro (hdigits | ⟨hpos, hdigits⟩)
    · exact isDecimal_iff.mp hdigits
    · obtain ⟨before, rfl⟩ := Nat.exists_eq_succ_of_ne_zero (Nat.ne_of_gt hpos)
      rw [isDecimal_iff.mp hdigits]
      rfl
  · rintro rfl
    cases value with
    | ofNat size => exact .nonneg (isDecimal_iff.mpr rfl)
    | negSucc before => exact .neg (Nat.succ_pos before) (isDecimal_iff.mpr rfl)

theorem isHexDigits_iff : IsHexDigits value text ↔ text = hexDigits value := by
  rw [IsHexDigits, numeral_iff (by decide), hexDigits, ← String.toList_inj, String.toList_ofList]

theorem isHexadecimal_iff : IsHexadecimal value text ↔ text = hexadecimal value := by
  constructor
  · rintro ⟨digits, hdigits, rfl⟩
    rw [isHexDigits_iff.mp hdigits]
    rfl
  · rintro rfl
    exact ⟨hexDigits value, isHexDigits_iff.mpr rfl, rfl⟩

/-! ### Columns -/

/-- `fill`, over and over, is what `text` lacks to take up `width` characters. -/
def Fills (fill : Char) (width : Nat) (text filling : String) : Prop :=
  (∀ c ∈ filling.toList, c = fill) ∧ filling.length + text.length = max width text.length

/-- `text` is `value` in base sixteen, after `0x`, and has at least sixteen digits. -/
def IsWideHexadecimal (value : Nat) (text : String) : Prop :=
  ∃ digits zeros, IsHexDigits value digits ∧ Fills '0' 16 digits zeros ∧
    text = "0x" ++ zeros ++ digits

theorem fills_iff {fill : Char} {width : Nat} {filling : String} :
    Fills fill width text filling ↔ filling = filler fill width text := by
  have hlack : ∀ n, n + text.length = max width text.length ↔ n = width - text.length := by
    omega
  rw [Fills, hlack, filler, ← String.toList_inj, String.toList_ofList, List.eq_replicate_iff,
    String.length_toList, and_comm]

theorem isWideHexadecimal_iff : IsWideHexadecimal value text ↔ text = wideHexadecimal value := by
  constructor
  · rintro ⟨digits, zeros, hdigits, hzeros, rfl⟩
    rw [fills_iff.mp hzeros, isHexDigits_iff.mp hdigits]
    rfl
  · rintro rfl
    exact ⟨hexDigits value, _, isHexDigits_iff.mpr rfl, fills_iff.mpr rfl, rfl⟩

end Dwarf
