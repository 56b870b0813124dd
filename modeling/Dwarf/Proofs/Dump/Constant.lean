import Dwarf.Dump.Info
import Dwarf.Proofs.Attribute.Constant
import Dwarf.Proofs.Text.LineBreak
/-!
# How a constant is shown

Seven forms store an integer constant, and a producer takes whichever is shortest, so the form
tells nothing about the attribute. What a reader of a dump wants to see is the name of the
constant, if the attribute is an enumeration, and else the number. This module compares what a
dump shows with the form out of which the constant was read.

> `Shown`: the text for a constant by its attribute alone.
>
> `Attribute.dumpText_constant`: the unsigned forms show this text. The two forms of signed
> constants always show the number, which is the same text just where the constant has no name.
>
> `Attribute.encoding_shown_apart`: one constant of one attribute, shown in two ways.
-/

namespace Dwarf

/-- `text` is what to show for a constant of the attribute called `name`: its symbol if the
attribute is an enumeration and `value` one of its codes, or else the number. -/
inductive Shown (name value : Nat) : (text : String) → Prop where
  | symbol {space : CodeSpace} (hspace : valueSpace? name = some space)
    (hcode : value < space.limit) : Shown name value (space.render value)
  | number (hnone : ∀ space, valueSpace? name = some space → space.limit ≤ value) :
    Shown name value (decimal value)

theorem shown_constantText (name value : Nat) : Shown name value (constantText name value) := by
  unfold constantText constantName?
  cases hspace : valueSpace? name with
  | none => exact .number fun space h => by rw [hspace] at h; cases h
  | some space =>
    show Shown name value ((space.render? value).getD _)
    rw [CodeSpace.render?]
    by_cases hcode : value < space.limit
    · rw [if_pos hcode]
      exact .symbol hspace hcode
    · rw [if_neg hcode]
      refine .number fun space' h => ?_
      rw [hspace] at h
      cases h
      exact Nat.not_lt.mp hcode

theorem shown_iff {name value : Nat} {text : String} :
    Shown name value text ↔ text = constantText name value := by
  constructor
  · intro h
    unfold constantText constantName?
    cases h with
    | symbol hspace hcode =>
      rw [hspace]
      show _ = (CodeSpace.render? _ value).getD _
      rw [CodeSpace.render?, if_pos hcode]
      rfl
    | number hnone =>
      cases hspace : valueSpace? name with
      | none => rfl
      | some space =>
        show _ = (space.render? value).getD _
        rw [CodeSpace.render?, if_neg (Nat.not_lt.mpr (hnone space hspace))]
        rfl
  · intro h
    rw [h]
    exact shown_constantText name value

/-! ### Symbols are no numbers -/

/-- Every name in a space of values has this letter. -/
theorem letter_mem_of_valueSpace? {name : Nat} {space : CodeSpace}
    (h : valueSpace? name = some space) : ∀ named ∈ space.names, 'D' ∈ named.2.toList := by
  unfold valueSpace? at h
  split at h <;> cases h <;> decide +kernel

theorem render_ne_decimal {name : Nat} {space : CodeSpace} (h : valueSpace? name = some space)
    (code value : Nat) : space.render code ≠ decimal value := by
  intro heq
  cases hname : space.name? code with
  | some symbol =>
    rw [CodeSpace.render_of_named hname] at heq
    have hletter := letter_mem_of_valueSpace? h _ (CodeSpace.mem_of_name? hname)
    rw [heq] at hletter
    exact not_mem_decimal (fun _ => Nat.digitChar_ne 'D' rfl) value hletter
  | none =>
    rw [CodeSpace.render_of_unnamed hname] at heq
    refine not_mem_decimal (fun _ => Nat.digitChar_ne 'U' rfl) value ?_
    rw [← heq, String.toList_append, String.toList_append, String.toList_append]
    simp

/-- Where a constant has a name, the number is another text. -/
theorem constantText_eq_decimal {name value : Nat} :
    constantText name value = decimal value ↔ constantName? name value = none := by
  unfold constantText
  constructor
  · intro h
    cases hname : constantName? name value with
    | none => rfl
    | some symbol =>
      rw [hname] at h
      obtain ⟨space, hspace, hrender⟩ := Option.bind_eq_some_iff.mp hname
      rw [CodeSpace.render?] at hrender
      split at hrender
      · cases hrender
        exact absurd h (render_ne_decimal hspace value value)
      · cases hrender
  · intro h
    rw [h]
    rfl

/-! ### Constants in their forms -/

namespace Form

/-- The forms of signed constants. -/
def IsSigned (form : Form) : Prop := form = sdata ∨ form = implicitConst

instance (form : Form) : Decidable form.IsSigned := inferInstanceAs (Decidable (_ ∨ _))

end Form

namespace Attribute

variable {enc : Encoding} {n : Nat} {form : Form} {const : Option Int} {bytes : Bytes}

/-- A constant is read in its form, and shown by its name or its number. -/
theorem decode_constant (h : Form.Constant enc.order n form const bytes) (name : Nat)
    (rest : Bytes) : ∃ value,
      (decode enc ⟨name, form.code, const⟩).run (bytes ++ rest) = .ok ⟨name, form, value⟩ rest ∧
      ∀ s, value.dumpText s name =
        .ok (if form.IsSigned then decimal n else constantText name n) := by
  have hread := @run_decode_of_spells enc form bytes ⟨name, form.code, const⟩ rfl
  cases h with
  | data1 h | data2 h | data4 h | data8 h =>
    exact ⟨_, hread (Decoder.spells_uint.mpr h) rest, fun _ => rfl⟩
  | udata h => exact ⟨_, hread (Decoder.spells_unsigned.mpr h) rest, fun _ => rfl⟩
  | sdata h => exact ⟨_, hread (Decoder.spells_signed.mpr h) rest, fun _ => rfl⟩
  | implicitConst => exact ⟨.sdata n, @hread (n : Int) rfl rest, fun _ => rfl⟩

/-- **A constant is shown by its attribute, unless it has a symbol and its form is signed.** For
each number and each attribute there is one text to show. A form of integer constants that has
room for the number stores it in some bytes. From any bytes that do, and whatever follows them,
the constant is read, and what is written for it is the text to show in each unsigned form. In a
signed form it is the number, and this is the text to show just where there is no symbol. -/
theorem dumpText_constant (s : Sections) (enc : Encoding) (name n : Nat) :
    (∀ text, Shown name n text ↔ text = constantText name n) ∧
    (∀ form : Form, form.HasRoom n → ∃ const bytes, form.Constant enc.order n const bytes) ∧
    ∀ (form : Form) (const : Option Int) (bytes rest : Bytes),
      form.Constant enc.order n const bytes → ∃ value text,
        (decode enc ⟨name, form.code, const⟩).run (bytes ++ rest) = .ok ⟨name, form, value⟩ rest ∧
        value.dumpText s name = .ok text ∧ (form.IsSigned → text = decimal n) ∧
        (Shown name n text ↔ ¬ form.IsSigned ∨ constantName? name n = none) := by
  refine ⟨fun text => shown_iff, fun form h => Form.exists_constant h enc.order, ?_⟩
  intro form const bytes rest h
  obtain ⟨value, hread, htext⟩ := decode_constant h name rest
  by_cases hsigned : form.IsSigned
  · refine ⟨value, decimal n, hread, ?_, fun _ => rfl, ?_⟩
    · rw [htext s, if_pos hsigned]
    · rw [shown_iff, eq_comm, constantText_eq_decimal]
      exact ⟨.inr, fun h => h.resolve_left fun hnot => hnot hsigned⟩
  · refine ⟨value, constantText name n, hread, ?_, fun h => absurd h hsigned, ?_⟩
    · rw [htext s, if_neg hsigned]
    · exact ⟨fun _ => .inl hsigned, fun _ => shown_constantText name n⟩

/-- The language of a unit in a big-endian file: in two bytes, and as a signed number that is
padded. -/
theorem dumpText_constant_language :
    (∃ value, (decode ⟨.big, 4, .dwarf32, 4⟩ ⟨0x13, 0x05, none⟩).run [0, 0x0c, 0xff] =
        .ok ⟨0x13, .data2, value⟩ [0xff] ∧ value.dumpText default 0x13 = .ok "DW_LANG_C99") ∧
    ∃ value, (decode ⟨.big, 4, .dwarf32, 4⟩ ⟨0x13, 0x0d, none⟩).run [0x8c, 0, 0xff] =
        .ok ⟨0x13, .sdata, value⟩ [0xff] ∧ value.dumpText default 0x13 = .ok "12" := by
  obtain ⟨hshown, -, hread⟩ := dumpText_constant default ⟨.big, 4, .dwarf32, 4⟩ 0x13 0x0c
  have hinteger : ByteOrder.big.IsInteger 2 0x0c [0, 0x0c] := ⟨rfl, by decide⟩
  have hsigned : Leb128.IsSigned 0x0c [0x8c, 0] :=
    ⟨⟨[0x8c], 0, rfl, by decide +kernel, by decide⟩, by decide, by decide, by decide, by decide⟩
  constructor
  · obtain ⟨value, text, hrun, htext, -, hiff⟩ := hread .data2 none _ [0xff] (.data2 hinteger)
    have hname : text = constantText 0x13 0x0c := (hshown text).mp (hiff.mpr (.inl (by decide)))
    refine ⟨value, hrun, ?_⟩
    rw [htext, hname]
    rfl
  · obtain ⟨value, text, hrun, htext, hnumber, -⟩ := hread .sdata none _ [0xff] (.sdata hsigned)
    refine ⟨value, hrun, ?_⟩
    rw [htext, hnumber (.inl rfl)]
    exact congrArg Except.ok (by decide +kernel : decimal 12 = "12")

/-- The encoding of a base type, once in the entry and once in the declaration: the same number of
the same attribute, of which a dump shows the name in one form and not in the other. -/
theorem encoding_shown_apart :
    (decode ⟨.little, 8, .dwarf32, 5⟩ ⟨0x3e, 0x0b, none⟩).run [5] =
      .ok ⟨0x3e, .data1, .data 1 5⟩ [] ∧
    (decode ⟨.little, 8, .dwarf32, 5⟩ ⟨0x3e, 0x21, some 5⟩).run [] =
      .ok ⟨0x3e, .implicitConst, .sdata 5⟩ [] ∧
    (Value.data 1 5).dumpText default 0x3e = .ok "DW_ATE_signed" ∧
    (Value.sdata 5).dumpText default 0x3e = .ok "5" := by
  refine ⟨by decide +kernel, by decide +kernel, rfl, ?_⟩
  exact congrArg Except.ok (by decide +kernel : decimal 5 = "5")

end Attribute

end Dwarf
