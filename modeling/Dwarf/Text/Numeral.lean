/-!
# Numbers and columns in text

Dumps write numbers in decimal or in lower-case hexadecimal after `0x`, and line
up columns with blanks. A text that is already as wide as its column is written
whole: padding never cuts, and `cut` never pads.
-/

namespace Dwarf

/-- `value` in base ten. -/
def decimal (value : Nat) : String := String.ofList (Nat.toDigits 10 value)

/-- `value` in base ten, with a minus sign if it is negative. -/
def signedDecimal : Int → String
  | .ofNat value => decimal value
  | .negSucc value => "-" ++ decimal (value + 1)

/-- The lower-case hexadecimal digits of `value`. -/
def hexDigits (value : Nat) : String := String.ofList (Nat.toDigits 16 value)

/-- `value` in hexadecimal, after `0x`. -/
def hexadecimal (value : Nat) : String := "0x" ++ hexDigits value

/-- `width - length` copies of `fill`. -/
def filler (fill : Char) (width : Nat) (text : String) : String :=
  String.ofList (List.replicate (width - text.length) fill)

/-- `text` in a column of `width` characters, at its left edge. -/
def padRight (width : Nat) (text : String) : String := text ++ filler ' ' width text

/-- `text` in a column of `width` characters, at its right edge. -/
def padLeft (width : Nat) (text : String) : String := filler ' ' width text ++ text

/-- The first `width` characters of `text`, or all of it if it has no more. -/
def cut (width : Nat) (text : String) : String := String.ofList (text.toList.take width)

/-- `value` in hexadecimal after `0x`, with leading zeros up to sixteen digits. -/
def wideHexadecimal (value : Nat) : String :=
  "0x" ++ filler '0' 16 (hexDigits value) ++ hexDigits value

end Dwarf
