import Dwarf.Proofs.Attribute.Delimited
import Dwarf.Proofs.Bytes.Leb128
/-!
# Attributes that come with their form

A declaration can leave the form of an attribute to the entry, which then has the code of the
form in front of the value. This code may be the indirect one again, so a value can stand behind
any number of codes, each of them padded or not. None of these detours is to be seen in what is
read:

> `Form.readCode_link`: behind a number, reading goes on as if the declaration had given it.
>
> `Form.exists_links`: a chain of indirect codes ends, since each takes a byte.

There is one form that a detour cannot lead to. The value of `Form.implicitConst` is in the
declaration, and a declaration with the indirect form has none, whatever its field `const` holds
(`AttrSpec.implicitConst?_of_ne`).

> `Attribute.decode_indirect`: an indirect form and the code behind it are read as a
> declaration with this code is.
-/

namespace Dwarf

theorem AttrSpec.implicitConst?_of_ne {form : Nat} (h : form ≠ Form.implicitConst.code)
    (name : Nat) (const : Option Int) : AttrSpec.implicitConst? ⟨name, form, const⟩ = none :=
  if_neg h

namespace Form

theorem readCode_link {code : Nat} {number : Bytes} (h : Leb128.IsUnsigned code number)
    (bs : Bytes) : readCode indirectCode (number ++ bs) =
      if 0xffff < code then .fault (.formRange code) bs else readCode code bs :=
  readCode_indirect (h.run bs)

/-- The indirect code in front of others makes no difference. -/
theorem readCode_links {links : List Bytes}
    (h : ∀ link ∈ links, Leb128.IsUnsigned indirectCode link) (bs : Bytes) :
    readCode indirectCode (links.flatten ++ bs) = readCode indirectCode bs := by
  induction links with
  | nil => rfl
  | cons link links ih =>
    rw [List.flatten_cons, List.append_assoc, readCode_link (h link List.mem_cons_self),
      if_neg (by decide)]
    exact ih fun other hother => h other (List.mem_cons_of_mem link hother)

/-- No indirect code follows: either there is another one, or none that can be read. -/
def Settles (bs : Bytes) : Prop :=
  (∃ code number rest, bs = number ++ rest ∧ Leb128.IsUnsigned code number ∧
    code ≠ indirectCode) ∨
  ∃ cause rest, Decoder.unsigned.run bs = .fault cause rest

/-- Every byte string starts with a chain of indirect codes that has an end. -/
theorem exists_links (bs : Bytes) : ∃ (links : List Bytes) (rest : Bytes),
    bs = links.flatten ++ rest ∧ (∀ link ∈ links, Leb128.IsUnsigned indirectCode link) ∧
      links.length ≤ bs.length ∧ Settles rest := by
  induction hlen : bs.length using Nat.strongRecOn generalizing bs with
  | ind size ih =>
    subst hlen
    cases hrun : Decoder.unsigned.run bs with
    | fault cause rest => exact ⟨[], bs, rfl, by simp, Nat.zero_le _, .inr ⟨cause, rest, hrun⟩⟩
    | ok code mid =>
      have hless := Decoder.consuming_unsigned hrun
      obtain ⟨number, rfl, hspells⟩ := Decoder.delimited_unsigned.run_eq_ok.mp hrun
      have hnumber := Decoder.spells_unsigned.mp hspells
      by_cases hcode : code = indirectCode
      · subst hcode
        obtain ⟨links, rest, hmid, hlinks, hcount, hend⟩ := ih mid.length hless mid rfl
        refine ⟨number :: links, rest, ?_, ?_, ?_, hend⟩
        · rw [List.flatten_cons, List.append_assoc, ← hmid]
        · intro link hlink
          rcases List.mem_cons.mp hlink with rfl | hlink
          · exact hnumber
          · exact hlinks link hlink
        · rw [List.length_cons]
          omega
      · exact ⟨[], number ++ mid, rfl, by simp, Nat.zero_le _,
          .inl ⟨code, number, mid, rfl, hnumber, hcode⟩⟩

end Form

namespace Attribute

variable {enc : Encoding} {name code : Nat} {const const' : Option Int} {bs rest : Bytes}

theorem run_decode (spec : AttrSpec) : (decode enc spec).run bs =
    match Form.readCode spec.form bs with
    | .ok code rest => (decodeAs enc spec code).run rest
    | .fault cause rest => .fault cause rest := by
  have hresolve : (Form.resolve spec.form).run bs = Form.readCode spec.form bs := rfl
  rw [decode, Decoder.run_bind, hresolve]
  cases Form.readCode spec.form bs <;> rfl

/-- Only in one form does it matter whose code it was. -/
theorem decodeAs_eq (h : code ≠ Form.implicitConst.code) (const' : Option Int) (code' : Nat) :
    decodeAs enc ⟨name, Form.indirectCode, const⟩ code' =
      decodeAs enc ⟨name, code, const'⟩ code' := by
  rw [decodeAs, decodeAs, AttrSpec.implicitConst?_of_ne h,
    AttrSpec.implicitConst?_of_ne (by decide)]

theorem decodeAs_implicitConst :
    (decodeAs enc ⟨name, Form.indirectCode, const⟩ Form.implicitConst.code).run bs =
      .fault .indirectConstant bs := rfl

theorem run_decode_link {number : Bytes} (h : Leb128.IsUnsigned code number) :
    (decode enc ⟨name, Form.indirectCode, const⟩).run (number ++ bs) =
      if 0xffff < code then .fault (.formRange code) bs
      else if code = Form.implicitConst.code then .fault .indirectConstant bs
      else (decode enc ⟨name, code, const'⟩).run bs := by
  rw [run_decode, Form.readCode_link h]
  by_cases hrange : 0xffff < code
  · rw [if_pos hrange, if_pos hrange]
  · rw [if_neg hrange, if_neg hrange]
    by_cases hconst : code = Form.implicitConst.code
    · rw [if_pos hconst, hconst, Form.readCode_of_ne (by decide)]
      exact decodeAs_implicitConst
    · rw [if_neg hconst, run_decode]
      simp only [decodeAs_eq hconst const']

theorem form_ne_implicitConst {a : Attribute}
    (h : (decode enc ⟨name, Form.indirectCode, const⟩).run bs = .ok a rest) :
    a.form ≠ .implicitConst := by
  intro hform
  obtain ⟨code, mid, -, hread⟩ := Decoder.run_bind_eq_ok.mp h
  rw [decodeAs] at hread
  split at hread
  · cases hread
  · next form hcode =>
    obtain ⟨payload, mid', hpayload, hvalue⟩ := Decoder.run_bind_eq_ok.mp hread
    cases hvalue
    subst hform
    cases hpayload

/-- **The indirect form is transparent.** An attribute with the indirect form is read from the
code of a form, padded or not, and what follows it as an attribute with this form is read from
what follows: with the same value or fault, and leaving the same bytes. This is so for every
code of up to 16 bits but the one of `Form.implicitConst`, be it unknown or the indirect one.

So any number of indirect codes in front of the last one changes nothing. Every byte string
starts with finitely many of them, no more than it has bytes, and behind these there is another
code or none that can be read. And whatever is read, it is not the constant of the declaration:
this makes no difference, and no attribute of that form is read. -/
theorem decode_indirect (enc : Encoding) (name : Nat) (const : Option Int) :
    (∀ (code : Nat) (number : Bytes), Leb128.IsUnsigned code number →
      ∀ (const' : Option Int) (bs : Bytes),
        (decode enc ⟨name, Form.indirectCode, const⟩).run (number ++ bs) =
          if 0xffff < code then .fault (.formRange code) bs
          else if code = Form.implicitConst.code then .fault .indirectConstant bs
          else (decode enc ⟨name, code, const'⟩).run bs) ∧
    (∀ links : List Bytes, (∀ link ∈ links, Leb128.IsUnsigned Form.indirectCode link) →
      ∀ bs, (decode enc ⟨name, Form.indirectCode, const⟩).run (links.flatten ++ bs) =
        (decode enc ⟨name, Form.indirectCode, const⟩).run bs) ∧
    (∀ bs : Bytes, ∃ (links : List Bytes) (rest : Bytes), bs = links.flatten ++ rest ∧
      (∀ link ∈ links, Leb128.IsUnsigned Form.indirectCode link) ∧ links.length ≤ bs.length ∧
        Form.Settles rest) ∧
    (∀ (bs : Bytes) (cause : Fault) (rest : Bytes), Decoder.unsigned.run bs = .fault cause rest →
      (decode enc ⟨name, Form.indirectCode, const⟩).run bs = .fault cause rest) ∧
    (∀ const' : Option Int, decode enc ⟨name, Form.indirectCode, const⟩ =
      decode enc ⟨name, Form.indirectCode, const'⟩) ∧
    ∀ (bs : Bytes) (a : Attribute) (rest : Bytes),
      (decode enc ⟨name, Form.indirectCode, const⟩).run bs = .ok a rest →
        a.form ≠ .implicitConst := by
  refine ⟨?_, ?_, Form.exists_links, ?_, fun _ => rfl, ?_⟩
  · intro code number h const' bs
    exact run_decode_link h
  · intro links h bs
    rw [run_decode, run_decode, Form.readCode_links h]
  · intro bs cause rest h
    rw [run_decode, Form.readCode_fault h]
  · intro bs a rest h
    exact form_ne_implicitConst h

/-- A declaration that leaves the form to the entry, and has a constant to no avail. -/
def undecidedSpec : AttrSpec := ⟨3, Form.indirectCode, some 7⟩

/-- The parameters of a unit of version 4. -/
def version4 : Encoding := ⟨.little, 8, .dwarf32, 4⟩

/-- Two indirect codes, of which the second is padded, lead to a constant of one byte, to the form
that only a declaration can give, to a code of 17 bits, and to the end of the bytes. -/
theorem decode_indirect_undecidedSpec :
    (decode version4 undecidedSpec).run [0x16, 0x96, 0, 0x0b, 9, 0xff] =
      .ok ⟨3, .data1, .data 1 9⟩ [0xff] ∧
    (decode version4 undecidedSpec).run [0x16, 0x96, 0, 0x21, 0xff] =
      .fault .indirectConstant [0xff] ∧
    (decode version4 undecidedSpec).run [0x16, 0x96, 0, 0x80, 0x80, 4, 0xff] =
      .fault (.formRange 0x10000) [0xff] ∧
    (decode version4 undecidedSpec).run [0x16, 0x96, 0, 0x80] = .fault .unexpectedEnd [] ∧
    Form.data1 ≠ .implicitConst := by
  obtain ⟨hlink, hlinks, -, hbroken, -, hform⟩ := decode_indirect version4 3 (some 7)
  have hchain : ∀ bs, (decode version4 undecidedSpec).run ([0x16, 0x96, 0] ++ bs) =
      (decode version4 undecidedSpec).run bs := by
    refine hlinks [[0x16], [0x96, 0]] fun link hmem => ?_
    rcases List.mem_cons.mp hmem with rfl | hmem
    · exact Decoder.spells_unsigned.mp rfl
    · obtain rfl := List.mem_singleton.mp hmem
      exact Decoder.spells_unsigned.mp rfl
  have hplain : (decode version4 ⟨3, 0x0b, none⟩).run [9, 0xff] =
      .ok ⟨3, .data1, .data 1 9⟩ [0xff] := by
    decide +kernel
  have hdata : (decode version4 undecidedSpec).run [0x0b, 9, 0xff] =
      .ok ⟨3, .data1, .data 1 9⟩ [0xff] :=
    (hlink 0x0b [0x0b] (Decoder.spells_unsigned.mp rfl) none [9, 0xff]).trans hplain
  have hconst : (decode version4 undecidedSpec).run [0x21, 0xff] =
      .fault .indirectConstant [0xff] :=
    hlink 0x21 [0x21] (Decoder.spells_unsigned.mp rfl) none [0xff]
  have hrange : (decode version4 undecidedSpec).run [0x80, 0x80, 4, 0xff] =
      .fault (.formRange 0x10000) [0xff] :=
    hlink 0x10000 [0x80, 0x80, 4] (Decoder.spells_unsigned.mp rfl) none [0xff]
  have hend : (decode version4 undecidedSpec).run [0x80] = .fault .unexpectedEnd [] :=
    hbroken [0x80] .unexpectedEnd [] rfl
  exact ⟨(hchain _).trans hdata, (hchain _).trans hconst, (hchain _).trans hrange,
    (hchain _).trans hend, hform _ _ _ hdata⟩

end Attribute

end Dwarf
