import Dwarf.Bytes.Order
/-!
# Text stored as UTF-8

Strings in a section are bytes that need not be text. `scan` splits any bytes
into characters and the runs that no character can start with: such a run is as
long as some character begins with it, and otherwise one byte. `text?` accepts
bytes without such runs, and `lossyText` puts U+FFFD for each of them.

A lead byte fixes the number of continuation bytes that follow and the range of
the first of them. The narrower ranges are what keeps out overlong forms,
surrogates and numbers above U+10FFFF.

> `scan` ends because `continuation_length_le`: continuation bytes are taken off
> the front.
-/

namespace Dwarf

namespace Utf8

/-- What a lead byte of a multi-byte character announces. -/
structure Lead where
  /-- The high bits that the lead byte contributes. -/
  bits : Nat
  /-- The smallest first continuation byte. -/
  low : UInt8
  /-- The largest first continuation byte. -/
  high : UInt8
  /-- The number of continuation bytes after the first. -/
  more : Nat

/-- The announcement of a lead byte of two to four bytes. -/
def lead? (b : UInt8) : Option Lead :=
  if b < 0xc2 then none
  else if b < 0xe0 then some ⟨b.toNat - 0xc0, 0x80, 0xbf, 0⟩
  else if b = 0xe0 then some ⟨0, 0xa0, 0xbf, 1⟩
  else if b = 0xed then some ⟨0xd, 0x80, 0x9f, 1⟩
  else if b < 0xf0 then some ⟨b.toNat - 0xe0, 0x80, 0xbf, 1⟩
  else if b = 0xf0 then some ⟨0, 0x90, 0xbf, 2⟩
  else if b < 0xf4 then some ⟨b.toNat - 0xf0, 0x80, 0xbf, 2⟩
  else if b = 0xf4 then some ⟨4, 0x80, 0x8f, 2⟩
  else none

/-- Take `count + 1` continuation bytes off the front, the first of them from
`low` to `high`, and add their bits to `bits`. `none` where one is missing or out
of its range; the bytes before it are taken all the same. -/
def continuation (bits : Nat) (low high : UInt8) : (count : Nat) → Bytes → Option Char × Bytes
  | _, [] => (none, [])
  | count, b :: bs =>
    if low ≤ b ∧ b ≤ high then
      let bits := bits * 64 + b.toNat % 64
      match count with
      | 0 => (some (Char.ofNat bits), bs)
      | count + 1 => continuation bits 0x80 0xbf count bs
    else (none, b :: bs)

theorem continuation_length_le (bs : Bytes) (bits : Nat) (low high : UInt8) (count : Nat) :
    (continuation bits low high count bs).2.length ≤ bs.length := by
  induction bs generalizing bits low high count with
  | nil => simp [continuation]
  | cons b bs ih =>
    unfold continuation
    split
    · cases count with
      | zero => simp
      | succ count => exact Nat.le_succ_of_le (ih _ _ _ _)
    · exact Nat.le_refl _

/-- The first character of `b :: bs`, or `none` where no character starts, and
what comes after it. -/
def next (b : UInt8) (bs : Bytes) : Option Char × Bytes :=
  if b < 0x80 then (some (Char.ofNat b.toNat), bs)
  else match lead? b with
    | none => (none, bs)
    | some l => continuation l.bits l.low l.high l.more bs

theorem next_length_le (b : UInt8) (bs : Bytes) : (next b bs).2.length ≤ bs.length := by
  unfold next
  split
  · exact Nat.le_refl _
  · split
    · exact Nat.le_refl _
    · exact continuation_length_le _ _ _ _ _

/-- The characters of `bs` in order, with `none` for each run of bytes that
stands for no character. -/
def scan : Bytes → List (Option Char)
  | [] => []
  | b :: bs => (next b bs).1 :: scan (next b bs).2
  termination_by bs => bs.length
  decreasing_by
    have := next_length_le b bs
    simp only [List.length_cons]
    omega

end Utf8

/-- The text that `bs` holds, if all of it is UTF-8. -/
def text? (bs : Bytes) : Option String := do
  let chars ← (Utf8.scan bs).mapM id
  return String.ofList chars

/-- The text that `bs` holds, with U+FFFD for each run that is not UTF-8. -/
def lossyText (bs : Bytes) : String :=
  String.ofList ((Utf8.scan bs).map fun c => c.getD '\uFFFD')

end Dwarf
