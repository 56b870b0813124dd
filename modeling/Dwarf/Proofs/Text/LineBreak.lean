import Dwarf.Bytes.Order
import Dwarf.Code.Constant
import Dwarf.Proofs.Text.Numeral
import Dwarf.Proofs.Text.Utf8
/-!
# Line breaks in text

A text with a line break at its end is one line only if it has no other. Numbers, padding and the
names of codes have none, so what is put together from them is one line. A string out of a section
can have any bytes. Then it could be that something else in it than a byte `0x0a` is shown as a
line break, or that such a byte is lost in a run that is not UTF-8. Neither happens, since only
bytes from `0x80` on are taken together, to characters and to runs.

> `lineBreaks_lossyText`: a string has as many line breaks, once it is text, as it has bytes `0x0a`.
>
> `wholeLines_line`: a text with a line break at its end is one line, and one more for each line
> break inside.
-/

namespace Dwarf

/-- The number of line breaks in a text. -/
def lineBreaks (text : String) : Nat := text.toList.count '\n'

@[simp] theorem lineBreaks_append (s t : String) :
    lineBreaks (s ++ t) = lineBreaks s + lineBreaks t := by
  rw [lineBreaks, String.toList_append, List.count_append]
  rfl

theorem lineBreaks_eq_zero {text : String} : lineBreaks text = 0 ↔ '\n' ∉ text.toList :=
  List.count_eq_zero

/-! ### Numerals and columns -/

theorem Numeral.not_mem {c : Char} (hc : ∀ digit, Nat.digitChar digit ≠ c) {base value : Nat}
    {digits : List Char} (h : Numeral base value digits) : c ∉ digits := by
  induction h with
  | @digit d hd =>
    rw [List.mem_singleton]
    exact (hc d).symm
  | @more count d front hcount hd hfront ih =>
    rw [List.mem_append, List.mem_singleton]
    rintro (hmem | hlast)
    · exact ih hmem
    · exact hc d hlast.symm

theorem not_mem_decimal {c : Char} (hc : ∀ digit, Nat.digitChar digit ≠ c) (value : Nat) :
    c ∉ (decimal value).toList := by
  rw [decimal, String.toList_ofList]
  exact (numeral_toDigits (by decide) value).not_mem hc

theorem digitChar_ne_lineBreak (digit : Nat) : Nat.digitChar digit ≠ '\n' :=
  Nat.digitChar_ne '\n' rfl

@[simp] theorem lineBreaks_decimal (value : Nat) : lineBreaks (decimal value) = 0 :=
  lineBreaks_eq_zero.mpr (not_mem_decimal digitChar_ne_lineBreak value)

@[simp] theorem lineBreaks_signedDecimal (value : Int) : lineBreaks (signedDecimal value) = 0 := by
  cases value with
  | ofNat value => exact lineBreaks_decimal value
  | negSucc value =>
    show lineBreaks ("-" ++ decimal (value + 1)) = 0
    rw [lineBreaks_append, lineBreaks_decimal]
    decide

@[simp] theorem lineBreaks_hexDigits (value : Nat) : lineBreaks (hexDigits value) = 0 := by
  rw [lineBreaks_eq_zero, hexDigits, String.toList_ofList]
  exact (numeral_toDigits (by decide) value).not_mem digitChar_ne_lineBreak

@[simp] theorem lineBreaks_hexadecimal (value : Nat) : lineBreaks (hexadecimal value) = 0 := by
  rw [hexadecimal, lineBreaks_append, lineBreaks_hexDigits]
  decide

theorem lineBreaks_filler {fill : Char} (hfill : fill ≠ '\n') (width : Nat) (text : String) :
    lineBreaks (filler fill width text) = 0 := by
  rw [lineBreaks_eq_zero, filler, String.toList_ofList]
  exact fun hmem => hfill (List.eq_of_mem_replicate hmem).symm

@[simp] theorem lineBreaks_padRight (width : Nat) (text : String) :
    lineBreaks (padRight width text) = lineBreaks text := by
  rw [padRight, lineBreaks_append, lineBreaks_filler (by decide)]
  rfl

@[simp] theorem lineBreaks_padLeft (width : Nat) (text : String) :
    lineBreaks (padLeft width text) = lineBreaks text := by
  rw [padLeft, lineBreaks_append, lineBreaks_filler (by decide), Nat.zero_add]

@[simp] theorem lineBreaks_wideHexadecimal (value : Nat) :
    lineBreaks (wideHexadecimal value) = 0 := by
  rw [wideHexadecimal, lineBreaks_append, lineBreaks_append, lineBreaks_hexDigits,
    lineBreaks_filler (by decide)]
  decide

/-! ### Names -/

theorem lineBreaks_of_bytes {text : String} (h : (bytesOfString text).contains 0x0a = false) :
    lineBreaks text = 0 := by
  rw [lineBreaks_eq_zero]
  intro hmem
  have hbytes : bytesOfString text = text.toList.flatMap String.utf8EncodeChar := by
    rw [bytesOfString, String.toUTF8_eq_toByteArray, ← String.utf8Encode_toList, List.utf8Encode]
    exact List.toList_data_toByteArray
  have hbreak : (0x0a : UInt8) ∈ String.utf8EncodeChar '\n' := by decide
  have hin : (0x0a : UInt8) ∈ bytesOfString text :=
    hbytes ▸ List.mem_flatMap.mpr ⟨'\n', hmem, hbreak⟩
  rw [List.contains_iff_mem.mpr hin] at h
  cases h

namespace CodeSpace

theorem mem_of_name? {space : CodeSpace} {code : Nat} {name : String}
    (h : space.name? code = some name) : (code, name) ∈ space.names := by
  obtain ⟨before, after, hnames, -⟩ := List.lookup_eq_some_iff.mp h
  rw [hnames]
  exact List.mem_append_right before List.mem_cons_self

/-- No code is shown with a line break. -/
theorem lineBreaks_render {space : CodeSpace} (hspace : space ∈ all) (code : Nat) :
    lineBreaks (space.render code) = 0 := by
  -- The tables are checked by bytes, since reading characters back out of them takes long.
  have hclean : ∀ space ∈ all, (bytesOfString space.label).contains 0x0a = false ∧
      ∀ named ∈ space.names, (bytesOfString named.2).contains 0x0a = false := by
    decide +kernel
  obtain ⟨hlabel, hnames⟩ := hclean space hspace
  cases hname : space.name? code with
  | some name =>
    rw [render_of_named hname]
    exact lineBreaks_of_bytes (hnames _ (mem_of_name? hname))
  | none =>
    rw [render_of_unnamed hname]
    simp only [lineBreaks_append, lineBreaks_decimal, lineBreaks_of_bytes hlabel]
    decide

end CodeSpace

/-! ### Strings -/

namespace Utf8

theorem Continues.le_of_mem {low high b : UInt8} {count : Nat} {bs : Bytes}
    (h : Continues low high count bs) (hlow : 0x80 ≤ low) (hmem : b ∈ bs) : 0x80 ≤ b := by
  induction h with
  | nil => cases hmem
  | last hleft =>
    obtain rfl := List.mem_singleton.mp hmem
    exact UInt8.le_trans hlow hleft
  | more hleft hright hmore ih =>
    rcases List.mem_cons.mp hmem with rfl | hmem
    · exact UInt8.le_trans hlow hleft
    · exact ih (UInt8.le_refl _) hmem

theorem encode_lineBreak : String.utf8EncodeChar '\n' = [0x0a] := by decide

/-- All bytes of a character outside ASCII are large. -/
theorem eq_lineBreak_of_mem {c : Char} (hmem : 0x0a ∈ String.utf8EncodeChar c) : c = '\n' := by
  cases hencode : String.utf8EncodeChar c with
  | nil => exact absurd hencode (encode_ne_nil c)
  | cons b tail =>
    rw [hencode] at hmem
    rcases encode_eq_cons hencode with ⟨-, rfl⟩ | ⟨l, hlead, hcontinues, -⟩
    · rw [← List.mem_singleton.mp hmem, ← encode_lineBreak] at hencode
      exact (encode_append_inj (congrArg (· ++ []) hencode)).1
    · rcases List.mem_cons.mp hmem with rfl | hmem
      · cases hlead
      · exact absurd (hcontinues.le_of_mem (range_of_lead? hlead).1 hmem) (by decide)

theorem count_encode (c : Char) :
    (String.utf8EncodeChar c).count 0x0a = if c = '\n' then 1 else 0 := by
  split
  · rename_i hc
    subst hc
    decide
  · rename_i hc
    exact List.count_eq_zero.mpr fun hmem => hc (eq_lineBreak_of_mem hmem)

theorem Lost.not_mem {run rest : Bytes} (h : Lost run rest) : 0x0a ∉ run := by
  intro hmem
  have hrun : run = [0x0a] := by
    rcases h.opens with hone | ⟨c, hbegin⟩
    · obtain ⟨b, rfl⟩ := List.length_eq_one_iff.mp hone
      rw [List.mem_singleton.mp hmem]
    · rw [eq_lineBreak_of_mem (hbegin.subset hmem), encode_lineBreak] at hbegin
      exact hbegin.eq_of_length_le (List.length_pos_of_mem hmem)
  -- The byte is a character, and so not lost.
  refine h.no_char '\n' ⟨rest, ?_⟩
  rw [encode_lineBreak, hrun]

theorem Lossy.count {bytes : Bytes} {chars : List Char} (h : Lossy bytes chars) :
    chars.count '\n' = bytes.count 0x0a := by
  induction h with
  | nil => rfl
  | char c hrest ih =>
    rw [List.count_append, count_encode, List.count_cons, ih, Nat.add_comm]
    simp
  | lost hrun hrest ih =>
    rw [List.count_append, List.count_eq_zero.mpr hrun.not_mem, List.count_cons, ih, Nat.add_comm]
    rfl

end Utf8

/-- Where a string has the byte `0x0a`, its text has a line break, and nowhere else. -/
theorem lineBreaks_lossyText (bs : Bytes) : lineBreaks (lossyText bs) = bs.count 0x0a := by
  have htext : IsTextOf bs (lossyText bs) := isTextOf_iff.mpr rfl
  exact htext.count

/-! ### Whole lines -/

/-- `text` is `n` lines, each up to a line break and without another one. -/
inductive WholeLines : (n : Nat) → (text : String) → Prop where
  | nil : WholeLines 0 ""
  | cons {n : Nat} {line text : String} (hline : lineBreaks line = 0) (hrest : WholeLines n text) :
    WholeLines (n + 1) (line ++ "\n" ++ text)

namespace WholeLines

variable {m n : Nat} {s t : String}

/-- No other number of lines is right. -/
theorem lineBreaks_eq (h : WholeLines n t) : lineBreaks t = n := by
  induction h with
  | nil => rfl
  | @cons n line text hline hrest ih =>
    have hbreak : lineBreaks "\n" = 1 := by decide
    rw [lineBreaks_append, lineBreaks_append, hline, hbreak, ih]
    omega

theorem append (hs : WholeLines m s) (ht : WholeLines n t) : WholeLines (m + n) (s ++ t) := by
  induction hs with
  | nil =>
    rw [Nat.zero_add, String.empty_append]
    exact ht
  | @cons m line text hline hrest ih =>
    rw [Nat.succ_add, String.append_assoc]
    exact .cons hline ih

/-- A text without a line break belongs to the line behind it. -/
theorem push (h : WholeLines (n + 1) t) (hs : lineBreaks s = 0) : WholeLines (n + 1) (s ++ t) := by
  cases h with
  | @cons _ line rest hline hrest =>
    rw [← String.append_assoc, ← String.append_assoc]
    refine .cons ?_ hrest
    rw [lineBreaks_append, hs, hline]

theorem of_chars (chars : List Char) :
    WholeLines (chars.count '\n' + 1) (String.ofList chars ++ "\n") := by
  induction chars with
  | nil => exact @WholeLines.cons 0 "" "" (by decide) .nil
  | cons c chars ih =>
    rw [← List.singleton_append, String.ofList_append, String.append_assoc, List.count_append]
    by_cases hc : c = '\n'
    · subst hc
      rw [Nat.add_comm ([_].count _), ← Nat.add_right_comm]
      exact @WholeLines.cons _ "" _ (by decide) ih
    · have hcount : [c].count '\n' = 0 := List.count_eq_zero.mpr (by simpa using Ne.symm hc)
      rw [hcount, Nat.zero_add]
      refine ih.push ?_
      rw [lineBreaks, String.toList_ofList, hcount]

end WholeLines

/-- A text that is ended by a line break has one line more than it has line breaks before it. -/
theorem wholeLines_line (text : String) : WholeLines (lineBreaks text + 1) (text ++ "\n") := by
  have hlines := WholeLines.of_chars text.toList
  rw [String.ofList_toList] at hlines
  exact hlines

end Dwarf
