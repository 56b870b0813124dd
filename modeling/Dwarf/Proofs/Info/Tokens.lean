import Dwarf.Proofs.Info.Walk
/-!
# The tokens of a unit

Before it is a forest, the contents of a unit are a row of tokens: entries, and the null entries
that end lists of children. Each token says where it ends, whatever is open around it, so the row
is there even where the null entries do not fit the entries. It ends with the unit, or at a token
that cannot be read.

`Tokens` says this of a byte string, and `Malformed` what is wrong with the first token that cannot
be read: its number, its code, or one of its attributes behind others that can be read.

> `exists_tokens`: every byte string is a row of tokens and what is left of it.
>
> `Tokens.longest`: no other row is longer.
-/

namespace Dwarf

/-- An entry or a null entry. -/
inductive Token where
  /-- An entry, without its children. -/
  | entry (head : EntryHead)
  /-- A zero code, which ends a list of children. -/
  | null (close : Bytes)

namespace Token

/-- What the token spells. -/
def bytes : Token → Bytes
  | entry head => head.bytes
  | null close => close

/-- An entry has a code of the table and the attributes that belong to it; a null entry is a zero,
padded or not. -/
def WellFormed (enc : Encoding) (table : AbbrevTable) : Token → Prop
  | entry head => head.WellFormed enc table
  | null close => Leb128.IsUnsigned 0 close

/-- What tokens in a row spell. -/
def spelled (ts : List Token) : Bytes := ts.flatMap bytes

@[simp] theorem spelled_nil : spelled [] = [] := rfl

@[simp] theorem spelled_cons (t : Token) (ts : List Token) :
    spelled (t :: ts) = t.bytes ++ spelled ts := rfl

end Token

/-- The bytes start with a token that cannot be read, for this cause. -/
inductive Malformed (enc : Encoding) (table : AbbrevTable) : Bytes → Fault → Prop where
  /-- There is no number. -/
  | number {bs rest : Bytes} {cause : Fault}
    (hfault : Decoder.unsigned.run bs = .fault cause rest) : Malformed enc table bs cause
  /-- The number is not a code of the table. -/
  | undeclared {code : Nat} {number : Bytes} (hnumber : Leb128.IsUnsigned code number)
    (hne : code ≠ 0) (hcode : table.get? code = none) (rest : Bytes) :
    Malformed enc table (number ++ rest) (.unknownCode code)
  /-- An attribute cannot be read. -/
  | part {d : Declaration} {number rest left : Bytes} {before after : List AttrSpec}
    {spec : AttrSpec} {parts : List (Bytes × Attribute)} {cause : Fault}
    (hnumber : Leb128.IsUnsigned d.code number) (hne : d.code ≠ 0)
    (hcode : table.get? d.code = some d) (hspecs : d.attributes = before ++ spec :: after)
    (hparts : Attribute.Parts enc before parts)
    (hfault : (Attribute.decode enc spec).run rest = .fault cause left) :
    Malformed enc table (number ++ (parts.flatMap (·.1) ++ rest)) cause

/-- The bytes are those of the tokens, and behind them either nothing or a token that cannot be
read. -/
structure Tokens (enc : Encoding) (table : AbbrevTable) (bs : Bytes) (ts : List Token)
    (rest : Bytes) : Prop where
  spelled : bs = Token.spelled ts ++ rest
  wellFormed : ∀ t ∈ ts, t.WellFormed enc table
  ends : rest = [] ∨ ∃ cause, Malformed enc table rest cause

variable {enc : Encoding} {table : AbbrevTable}

/-! ### Reading a token -/

theorem Malformed.run_decode {bs : Bytes} {cause : Fault} (h : Malformed enc table bs cause)
    (offset : Nat) (scopes : List Nat) :
    ∃ left, (Entry.decode enc table offset scopes).run bs = .fault cause left := by
  cases h with
  | @number _ rest _ hfault =>
    refine ⟨rest, ?_⟩
    rw [Entry.decode, Decoder.run_bind, hfault]
  | @undeclared code number hnumber hne hcode rest =>
    refine ⟨rest, ?_⟩
    rw [Entry.decode, hnumber.run_bind, if_neg hne]
    simp only [hcode]
    rfl
  | @part d number rest left before after spec parts _ hnumber hne hcode hspecs hparts hfault =>
    refine ⟨left, ?_⟩
    have hattrs := hparts.run_decodeAll hfault after
    rw [Entry.decode, hnumber.run_bind, if_neg hne]
    simp only [hcode, hspecs, Decoder.run_bind, hattrs]

/-- A token is read as what it is, whatever is open and whatever follows. -/
theorem Token.WellFormed.run_decode {t : Token} (h : t.WellFormed enc table) (offset : Nat)
    (scopes : List Nat) (rest : Bytes) :
    ∃ e, (Entry.decode enc table offset scopes).run (t.bytes ++ rest) = .ok e rest := by
  cases t with
  | entry head => exact ⟨_, Entry.run_decode_head h offset scopes rest⟩
  | null close => exact ⟨_, Entry.run_decode_null h offset scopes rest⟩

/-- No token takes no bytes. -/
theorem Token.WellFormed.bytes_ne_nil {t : Token} (h : t.WellFormed enc table) : t.bytes ≠ [] := by
  obtain ⟨e, hrun⟩ := h.run_decode 0 [] []
  rw [List.append_nil] at hrun
  exact (Entry.consuming_decode enc table 0 []).ne_nil hrun

/-! ### There is one row of tokens -/

theorem EntryHead.WellFormed.unique {head head' : EntryHead} (h : head.WellFormed enc table)
    (h' : head'.WellFormed enc table) {x y : Bytes}
    (heq : head.bytes ++ x = head'.bytes ++ y) : head = head' ∧ x = y := by
  cases head with
  | mk codeBytes declaration parts =>
    cases head' with
    | mk codeBytes' declaration' parts' =>
      simp only [EntryHead.bytes, List.append_assoc] at heq
      obtain ⟨rfl, hcode, hlater⟩ := Decoder.delimited_unsigned.unique
        (Decoder.spells_unsigned.mpr h.code) (Decoder.spells_unsigned.mpr h'.code) heq
      -- The table has one declaration for the code.
      have hdeclared := h.declared
      rw [hcode, h'.declared] at hdeclared
      cases hdeclared
      obtain ⟨rfl, hrest⟩ := h.attributes.unique h'.attributes hlater
      exact ⟨rfl, hrest⟩

theorem EntryHead.WellFormed.ne_null {head : EntryHead} (h : head.WellFormed enc table)
    {close : Bytes} (hclose : Leb128.IsUnsigned 0 close) (x y : Bytes) :
    head.bytes ++ x ≠ close ++ y := by
  intro heq
  rw [EntryHead.bytes, List.append_assoc] at heq
  obtain ⟨-, hzero, -⟩ := Decoder.delimited_unsigned.unique
    (Decoder.spells_unsigned.mpr h.code) (Decoder.spells_unsigned.mpr hclose) heq
  exact h.ne_zero hzero

theorem Token.WellFormed.unique {t t' : Token} (h : t.WellFormed enc table)
    (h' : t'.WellFormed enc table) {x y : Bytes} (heq : t.bytes ++ x = t'.bytes ++ y) :
    t = t' ∧ x = y := by
  cases t with
  | entry head =>
    cases t' with
    | entry head' =>
      obtain ⟨rfl, hrest⟩ := EntryHead.WellFormed.unique h h' heq
      exact ⟨rfl, hrest⟩
    | null close' => exact absurd heq (EntryHead.WellFormed.ne_null h h' x y)
  | null close =>
    cases t' with
    | entry head' => exact absurd heq.symm (EntryHead.WellFormed.ne_null h' h y x)
    | null close' =>
      obtain ⟨rfl, -, hrest⟩ := Decoder.delimited_unsigned.unique
        (Decoder.spells_unsigned.mpr h) (Decoder.spells_unsigned.mpr h') heq
      exact ⟨rfl, hrest⟩

theorem Malformed.ne_token {bs : Bytes} {cause : Fault} (h : Malformed enc table bs cause)
    {t : Token} (ht : t.WellFormed enc table) (rest : Bytes) : bs ≠ t.bytes ++ rest := by
  rintro rfl
  obtain ⟨left, hfault⟩ := h.run_decode 0 []
  obtain ⟨e, hrun⟩ := ht.run_decode 0 [] rest
  rw [hrun] at hfault
  cases hfault

/-- Any tokens at the front of the bytes are the first of the row. -/
theorem Tokens.longest {bs rest : Bytes} {ts : List Token} (h : Tokens enc table bs ts rest)
    {ts' : List Token} {rest' : Bytes} (hts' : ∀ t ∈ ts', t.WellFormed enc table)
    (hbs : bs = Token.spelled ts' ++ rest') : ts' <+: ts := by
  induction ts' generalizing bs ts with
  | nil => exact List.nil_prefix
  | cons t' ts' ih =>
    have ht' := hts' t' List.mem_cons_self
    rw [Token.spelled_cons, List.append_assoc] at hbs
    cases ts with
    | nil =>
      -- What is left starts with no token.
      have hrest : rest = t'.bytes ++ (Token.spelled ts' ++ rest') := h.spelled.symm.trans hbs
      rcases h.ends with rfl | ⟨cause, hmalformed⟩
      · exact absurd (List.append_eq_nil_iff.mp hrest.symm).1 ht'.bytes_ne_nil
      · exact absurd hrest (hmalformed.ne_token ht' _)
    | cons t ts =>
      have ht := h.wellFormed t List.mem_cons_self
      have hspelled := h.spelled
      rw [Token.spelled_cons, List.append_assoc, hbs] at hspelled
      obtain ⟨rfl, hlater⟩ := ht'.unique ht hspelled
      have hrow : Tokens enc table (Token.spelled ts' ++ rest') ts rest :=
        ⟨hlater, fun t ht => h.wellFormed t (List.mem_cons_of_mem _ ht), h.ends⟩
      rw [List.cons_prefix_cons]
      exact ⟨rfl, ih hrow (fun t ht => hts' t (List.mem_cons_of_mem _ ht)) rfl⟩

/-! ### There is a row of tokens -/

theorem exists_token {bs : Bytes} (hne : bs ≠ []) :
    (∃ t rest, Token.WellFormed enc table t ∧ bs = t.bytes ++ rest) ∨
      ∃ cause, Malformed enc table bs cause := by
  cases hrun : Decoder.unsigned.run bs with
  | fault cause rest => exact .inr ⟨cause, .number hrun⟩
  | ok code mid =>
    obtain ⟨number, rfl, hspells⟩ := Decoder.delimited_unsigned.run_eq_ok.mp hrun
    have hnumber := Decoder.spells_unsigned.mp hspells
    by_cases hzero : code = 0
    · subst hzero
      exact .inl ⟨.null number, mid, hnumber, rfl⟩
    · cases hcode : table.get? code with
      | none => exact .inr ⟨_, .undeclared hnumber hzero hcode mid⟩
      | some d =>
        cases hattrs : (Attribute.decodeAll enc d.attributes).run mid with
        | ok attributes rest =>
          obtain ⟨head, hhead, hbytes, -⟩ := Entry.exists_head hrun hzero hcode hattrs
          exact .inl ⟨.entry head, rest, hhead, hbytes⟩
        | fault cause left =>
          obtain ⟨before, spec, after, parts, rest, hspecs, hparts, rfl, hfault⟩ :=
            Attribute.exists_parts_of_fault hattrs
          obtain ⟨-, rfl⟩ := AbbrevTable.get?_eq_some.mp hcode
          exact .inr ⟨cause, .part hnumber hzero hcode hspecs hparts hfault⟩

theorem exists_tokens (enc : Encoding) (table : AbbrevTable) (bs : Bytes) :
    ∃ ts rest, Tokens enc table bs ts rest := by
  induction hsize : bs.length using Nat.strongRecOn generalizing bs with
  | ind size ih =>
    subst hsize
    by_cases hnil : bs = []
    · exact ⟨[], [], hnil, by simp, .inl rfl⟩
    · rcases exists_token hnil with ⟨t, mid, ht, rfl⟩ | ⟨cause, hmalformed⟩
      · have hpos := List.length_pos_iff.mpr ht.bytes_ne_nil
        have hless : mid.length < (t.bytes ++ mid).length := by
          rw [List.length_append]
          omega
        obtain ⟨ts, rest, hrow⟩ := ih mid.length hless mid rfl
        refine ⟨t :: ts, rest, ?_, ?_, hrow.ends⟩
        · rw [Token.spelled_cons, List.append_assoc, ← hrow.spelled]
        · intro t' ht'
          rcases List.mem_cons.mp ht' with rfl | ht'
          · exact ht
          · exact hrow.wellFormed t' ht'
      · exact ⟨[], bs, rfl, by simp, .inr ⟨cause, hmalformed⟩⟩

end Dwarf
