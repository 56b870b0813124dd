import Dwarf.Proofs.Info.Tokens
/-!
# What is wrong with the entries of a unit

Four things can go wrong while entries are read: a token cannot be read, a null entry has no list
of children to end, the last open list is ended before the unit is, or lists are open where the
unit ends. Several of these can be the case in the same bytes, and the first that the reader comes
to is reported.

What the reader comes to first can be told from the tokens alone. It keeps the open entries, but all
that counts is how many they are, and this is the `balance` of the tokens so far: entries with
children less null entries. `Token.fate` goes through the tokens with this number in hand:

> `fault_walk`: the entries that are open are as many as the balance says.

The number is never below zero before something is wrong. It is zero at a null entry in two cases
only: no entry with children came before, or an earlier null entry brought it back to zero. In the
second case bytes followed that null entry, and it was reported already.

> `Entry.complete_classified`: which fault is reported, by the balance of the tokens.
-/

namespace Dwarf

namespace Token

/-- The token is an entry whose children follow. -/
def opens : Token → Bool
  | entry head => head.declaration.hasChildren
  | null _ => false

/-- The token is a null entry. -/
def closes : Token → Bool
  | entry _ => false
  | null _ => true

/-- The number of entries with children less that of null entries. -/
def balance (ts : List Token) : Int := (ts.countP opens : Int) - ts.countP closes

/-- A null entry comes before any entry with children. -/
def NullFirst (ts : List Token) : Prop :=
  ∃ before close after, ts = before ++ null close :: after ∧ before.countP opens = 0

/-- A null entry makes the tokens so far even, and bytes follow it. -/
def ClosesEarly (ts : List Token) (rest : Bytes) : Prop :=
  ∃ before close after, ts = before ++ null close :: after ∧
    balance (before ++ [null close]) = 0 ∧ spelled after ++ rest ≠ []

/-- As `ClosesEarly`, where `depth` entries with children came before the tokens. -/
def ClosesFrom (depth : Int) (ts : List Token) (rest : Bytes) : Prop :=
  ∃ before close after, ts = before ++ null close :: after ∧
    depth + balance (before ++ [null close]) = 0 ∧ spelled after ++ rest ≠ []

/-- The fault that is come to first with `depth` entries open, the tokens `ts` ahead and behind
them `rest`, which cannot be read because of `cause`. -/
def fate (rest : Bytes) (cause : Fault) : Nat → List Token → Option Fault
  | depth, [] =>
    if rest ≠ [] then some cause else if depth = 0 then none else some (.openScopes depth)
  | depth, entry head :: ts =>
    fate rest cause (if head.declaration.hasChildren then depth + 1 else depth) ts
  | 0, null _ :: _ => some .nullWithoutScope
  | depth + 1, null _ :: ts =>
    if depth = 0 ∧ spelled ts ++ rest ≠ [] then some .trailingEntries else fate rest cause depth ts

variable {ts : List Token} {rest : Bytes} {cause : Fault}

/-! ### One token more -/

theorem balance_nil : balance [] = 0 := rfl

theorem balance_entry (head : EntryHead) (ts : List Token) : balance (entry head :: ts) =
    (if head.declaration.hasChildren then 1 else 0) + balance ts := by
  have hcloses : (entry head :: ts).countP closes = ts.countP closes :=
    List.countP_cons_of_neg Bool.false_ne_true
  rw [balance, balance, hcloses]
  by_cases hch : head.declaration.hasChildren = true
  · have hopens : (entry head :: ts).countP opens = ts.countP opens + 1 :=
      List.countP_cons_of_pos hch
    rw [hopens, if_pos hch]
    omega
  · have hopens : (entry head :: ts).countP opens = ts.countP opens := List.countP_cons_of_neg hch
    rw [hopens, if_neg hch]
    omega

theorem balance_null (close : Bytes) (ts : List Token) :
    balance (null close :: ts) = balance ts - 1 := by
  have hopens : (null close :: ts).countP opens = ts.countP opens :=
    List.countP_cons_of_neg Bool.false_ne_true
  have hcloses : (null close :: ts).countP closes = ts.countP closes + 1 :=
    List.countP_cons_of_pos rfl
  rw [balance, balance, hopens, hcloses]
  omega

theorem NullFirst.entry {head : EntryHead} (hch : head.declaration.hasChildren = false)
    (h : NullFirst ts) : NullFirst (entry head :: ts) := by
  obtain ⟨before, close, after, rfl, hbefore⟩ := h
  refine ⟨.entry head :: before, close, after, rfl, ?_⟩
  rw [List.countP_cons_of_neg (by simp [opens, hch]), hbefore]

theorem not_nullFirst {head : EntryHead} (hch : head.declaration.hasChildren = true) :
    ¬ NullFirst (entry head :: ts) := by
  rintro ⟨before, close, after, hsplit, hbefore⟩
  cases before with
  | nil => cases hsplit
  | cons t before =>
    cases hsplit
    exact List.countP_eq_zero.mp hbefore _ List.mem_cons_self hch

theorem nullFirst_null (close : Bytes) (ts : List Token) : NullFirst (null close :: ts) :=
  ⟨[], close, ts, rfl, rfl⟩

theorem closesFrom_nil {depth : Int} : ¬ ClosesFrom depth [] rest := by
  rintro ⟨before, close, after, hsplit, -⟩
  cases before <;> cases hsplit

theorem closesFrom_entry {depth : Int} {head : EntryHead} :
    ClosesFrom depth (entry head :: ts) rest ↔
      ClosesFrom (depth + if head.declaration.hasChildren then 1 else 0) ts rest := by
  constructor
  · rintro ⟨before, close, after, hsplit, heven, hlater⟩
    cases before with
    | nil => cases hsplit
    | cons t before =>
      cases hsplit
      rw [List.cons_append, balance_entry] at heven
      exact ⟨before, close, after, rfl, by omega, hlater⟩
  · rintro ⟨before, close, after, rfl, heven, hlater⟩
    refine ⟨entry head :: before, close, after, rfl, ?_, hlater⟩
    rw [List.cons_append, balance_entry]
    omega

theorem closesFrom_null {depth : Int} {close : Bytes} :
    ClosesFrom depth (null close :: ts) rest ↔
      (depth = 1 ∧ spelled ts ++ rest ≠ []) ∨ ClosesFrom (depth - 1) ts rest := by
  constructor
  · rintro ⟨before, close', after, hsplit, heven, hlater⟩
    cases before with
    | nil =>
      cases hsplit
      rw [List.nil_append, balance_null, balance_nil] at heven
      exact .inl ⟨by omega, hlater⟩
    | cons t before =>
      cases hsplit
      rw [List.cons_append, balance_null] at heven
      exact .inr ⟨before, close', after, rfl, by omega, hlater⟩
  · rintro (⟨rfl, hlater⟩ | ⟨before, close', after, rfl, heven, hlater⟩)
    · refine ⟨[], close, ts, rfl, ?_, hlater⟩
      rw [List.nil_append, balance_null, balance_nil]
      rfl
    · refine ⟨null close :: before, close', after, rfl, ?_, hlater⟩
      rw [List.cons_append, balance_null]
      omega

theorem ClosesFrom.ne_nil {depth : Int} (h : ClosesFrom depth ts rest) :
    spelled ts ++ rest ≠ [] := by
  obtain ⟨before, close, after, rfl, -, hlater⟩ := h
  intro hnil
  apply hlater
  simp only [spelled, List.flatMap_append, List.flatMap_cons, List.append_eq_nil_iff] at hnil ⊢
  exact ⟨hnil.1.2.2, hnil.2⟩

theorem closesEarly_iff : ClosesEarly ts rest ↔ ClosesFrom 0 ts rest := by
  simp only [ClosesEarly, ClosesFrom, Int.zero_add]

/-! ### Which fault comes first -/

theorem fate_of_nullFirst (h : NullFirst ts) : fate rest cause 0 ts = some .nullWithoutScope := by
  obtain ⟨before, close, after, rfl, hbefore⟩ := h
  induction before with
  | nil => rfl
  | cons t before ih =>
    cases t with
    | null close' => rfl
    | entry head =>
      have hnone := List.countP_eq_zero.mp hbefore
      have hch : ¬ head.declaration.hasChildren = true := hnone _ List.mem_cons_self
      rw [List.cons_append, fate, if_neg hch]
      exact ih (List.countP_eq_zero.mpr fun t ht => hnone t (List.mem_cons_of_mem _ ht))

theorem fate_of_closesFrom {depth : Nat} (hfirst : depth = 0 → ¬ NullFirst ts)
    (h : ClosesFrom depth ts rest) : fate rest cause depth ts = some .trailingEntries := by
  induction ts generalizing depth with
  | nil => exact absurd h closesFrom_nil
  | cons t ts ih =>
    cases t with
    | entry head =>
      rw [closesFrom_entry] at h
      rw [fate]
      by_cases hch : head.declaration.hasChildren = true
      · rw [if_pos hch] at h ⊢
        exact ih (by omega) h
      · rw [if_neg hch, Int.add_zero] at h
        rw [if_neg hch]
        refine ih (fun hdepth hnull => hfirst hdepth ?_) h
        exact hnull.entry (Bool.not_eq_true _ ▸ hch)
    | null close =>
      cases depth with
      | zero => exact absurd (nullFirst_null close ts) (hfirst rfl)
      | succ depth =>
        rw [fate]
        rw [closesFrom_null] at h
        by_cases hlast : depth = 0 ∧ spelled ts ++ rest ≠ []
        · rw [if_pos hlast]
        · rw [if_neg hlast]
          rcases h with ⟨hdepth, hlater⟩ | h
          · exact absurd ⟨by omega, hlater⟩ hlast
          · -- Something follows, so this null entry was not the end of the last list.
            have hdepth : depth ≠ 0 := fun hdepth => hlast ⟨hdepth, h.ne_nil⟩
            have hless : ((depth + 1 : Nat) : Int) - 1 = depth := by omega
            rw [hless] at h
            exact ih (fun h => absurd h hdepth) h

/-- If no fault is come to among the tokens, the balance says how many entries are open behind
them. -/
theorem exists_depth {enc : Encoding} {table : AbbrevTable} {depth : Nat}
    (hts : ∀ t ∈ ts, t.WellFormed enc table) (hfirst : depth = 0 → ¬ NullFirst ts)
    (h : ¬ ClosesFrom depth ts rest) :
    ∃ last : Nat, (last : Int) = depth + balance ts ∧
      fate rest cause depth ts = fate rest cause last [] := by
  induction ts generalizing depth with
  | nil => exact ⟨depth, by rw [balance_nil, Int.add_zero], rfl⟩
  | cons t ts ih =>
    have hlater : ∀ t ∈ ts, t.WellFormed enc table := fun t ht => hts t (List.mem_cons_of_mem _ ht)
    cases t with
    | entry head =>
      rw [closesFrom_entry] at h
      rw [fate, balance_entry]
      by_cases hch : head.declaration.hasChildren = true
      · rw [if_pos hch] at h
        rw [if_pos hch, if_pos hch]
        obtain ⟨last, hlast, hfate⟩ := @ih (depth + 1) hlater (by omega) h
        exact ⟨last, by omega, hfate⟩
      · rw [if_neg hch, Int.add_zero] at h
        rw [if_neg hch, if_neg hch]
        obtain ⟨last, hlast, hfate⟩ := ih hlater
          (fun hdepth hnull => hfirst hdepth (hnull.entry (Bool.not_eq_true _ ▸ hch))) h
        exact ⟨last, by omega, hfate⟩
    | null close =>
      cases depth with
      | zero => exact absurd (nullFirst_null close ts) (hfirst rfl)
      | succ depth =>
        rw [closesFrom_null, not_or] at h
        obtain ⟨hlast, h⟩ := h
        have hless : ((depth + 1 : Nat) : Int) - 1 = depth := by omega
        rw [hless] at h
        have hgoes : ¬ (depth = 0 ∧ spelled ts ++ rest ≠ []) := by
          rintro ⟨rfl, hnext⟩
          exact hlast ⟨rfl, hnext⟩
        rw [fate, if_neg hgoes, balance_null]
        have hend : depth = 0 → ¬ NullFirst ts := by
          rintro hdepth ⟨before, close', after, rfl, -⟩
          have hclose := hlater (null close') (by simp)
          exact hgoes ⟨hdepth, by simp [spelled, hclose.bytes_ne_nil]⟩
        obtain ⟨last, hcount, hfate⟩ := ih hlater hend h
        exact ⟨last, by omega, hfate⟩

end Token

namespace Entry

open Token

variable {enc : Encoding} {table : AbbrevTable} {ts : List Token} {rest : Bytes} {cause : Fault}

/-! ### Reading tokens -/

theorem walk_malformed (h : Malformed enc table rest cause) (hne : rest ≠ []) (index offset : Nat)
    (scopes : List Nat) : walk enc table index scopes ⟨offset, rest⟩ = .stop cause := by
  obtain ⟨left, hfault⟩ := h.run_decode offset scopes
  rw [walk_eq_decode, if_neg (by simpa using hne)]
  simp only [hfault]

/-- The entries that are open are as many as the balance of the tokens says. -/
theorem fault_walk (hts : ∀ t ∈ ts, t.WellFormed enc table)
    (hrest : rest ≠ [] → Malformed enc table rest cause) (index offset : Nat)
    (scopes : List Nat) :
    (walk enc table index scopes ⟨offset, spelled ts ++ rest⟩).fault =
      fate rest cause scopes.length ts := by
  induction ts generalizing index offset scopes with
  | nil =>
    by_cases hnil : rest = []
    · subst hnil
      cases scopes with
      | nil =>
        rw [spelled_nil, List.nil_append, walk_nil]
        rfl
      | cons scope outer =>
        rw [walk_eq]
        rfl
    · rw [spelled_nil, List.nil_append, walk_malformed (hrest hnil) hnil, fate, if_pos hnil]
      rfl
  | cons t ts ih =>
    have hlater : ∀ t ∈ ts, t.WellFormed enc table := fun t ht => hts t (List.mem_cons_of_mem _ ht)
    have ht := hts t List.mem_cons_self
    rw [spelled_cons, List.append_assoc]
    cases t with
    | entry head =>
      rw [fate, Token.bytes, walk_head ht]
      show (walk enc table _ _ _).fault = _
      rw [ih hlater]
      by_cases hch : head.declaration.hasChildren = true
      · rw [if_pos hch, if_pos hch, List.length_cons]
      · rw [if_neg hch, if_neg hch]
    | null close =>
      cases scopes with
      | nil =>
        rw [Token.bytes, walk_unopened ht]
        rfl
      | cons scope outer =>
        rw [Token.bytes, walk_null ht, List.length_cons, fate]
        by_cases hlast : outer.length = 0 ∧ spelled ts ++ rest ≠ []
        · have htrailing : (outer.isEmpty && !(spelled ts ++ rest).isEmpty) = true := by
            simpa using hlast
          rw [if_pos hlast, if_pos htrailing]
          rfl
        · have hgoes : ¬ (outer.isEmpty && !(spelled ts ++ rest).isEmpty) = true := by
            simpa using hlast
          rw [if_neg hlast, if_neg hgoes, ih hlater]

/-- **The entries of a unit fail for one reason.** The bytes are a row of tokens and something
behind it, which is nothing or starts with a token that cannot be read; and no row is longer.
From these it can be told whether the entries can be read, and what is reported if they cannot.
A null entry before any entry with children comes first. Next is a null entry that makes the
number of null entries equal to that of entries with children, if anything at all follows it. If
there is neither, it is the token that cannot be read. If there is none, and more entries have
children than there are null entries, the difference is reported. Otherwise all is well. -/
theorem complete_classified (h : UnitHeader) (table : AbbrevTable) :
    (∃ ts rest, Tokens h.encoding table h.entries ts rest) ∧
    ∀ ts rest, Tokens h.encoding table h.entries ts rest →
      (∀ ts' rest', (∀ t ∈ ts', Token.WellFormed h.encoding table t) →
        h.entries = spelled ts' ++ rest' → ts' <+: ts) ∧
      (NullFirst ts → (all h table).complete = .error .nullWithoutScope) ∧
      (¬ NullFirst ts → ClosesEarly ts rest →
        (all h table).complete = .error .trailingEntries) ∧
      (¬ NullFirst ts → ¬ ClosesEarly ts rest →
        (∀ cause, rest ≠ [] → Malformed h.encoding table rest cause →
          (all h table).complete = .error cause) ∧
        (rest = [] → 0 < balance ts →
          (all h table).complete = .error (.openScopes (balance ts).toNat)) ∧
        (rest = [] → ¬ 0 < balance ts → ∃ es, (all h table).complete = .ok es)) := by
  refine ⟨exists_tokens _ _ _, fun ts rest hrow => ?_⟩
  have hfault : ∀ cause, (rest ≠ [] → Malformed h.encoding table rest cause) →
      (all h table).fault = fate rest cause 0 ts := by
    intro cause hcause
    rw [all, hrow.spelled]
    exact fault_walk hrow.wellFormed hcause 0 h.entriesOffset []
  -- Before `rest` is come to, it makes no difference what is wrong with it.
  obtain ⟨cause, hcause⟩ : ∃ cause, rest ≠ [] → Malformed h.encoding table rest cause := by
    rcases hrow.ends with hnil | ⟨cause, hmalformed⟩
    · exact ⟨.inputFailure, fun hne => absurd hnil hne⟩
    · exact ⟨cause, fun _ => hmalformed⟩
  refine ⟨fun ts' rest' => hrow.longest, ?_, ?_, ?_⟩
  · intro hnull
    rw [Progress.complete_eq_error, hfault cause hcause]
    exact fate_of_nullFirst hnull
  · intro hnull hearly
    rw [Progress.complete_eq_error, hfault cause hcause]
    exact fate_of_closesFrom (fun _ => hnull) (closesEarly_iff.mp hearly)
  · intro hnull hearly
    have hdepth : ∀ cause, ∃ last : Nat, (last : Int) = balance ts ∧
        fate rest cause 0 ts = fate rest cause last [] := by
      intro cause
      obtain ⟨last, hlast, hfate⟩ := exists_depth hrow.wellFormed (fun _ => hnull)
        (fun h => hearly (closesEarly_iff.mpr h))
      exact ⟨last, by simpa using hlast, hfate⟩
    refine ⟨?_, ?_, ?_⟩
    · intro cause hne hmalformed
      obtain ⟨last, -, hfate⟩ := hdepth cause
      rw [Progress.complete_eq_error, hfault cause fun _ => hmalformed, hfate, fate, if_pos hne]
    · intro hnil hpos
      obtain ⟨last, hlast, hfate⟩ := hdepth cause
      rw [Progress.complete_eq_error, hfault cause hcause, hfate, fate, if_neg (not_not_intro hnil),
        if_neg (by omega), ← hlast, Int.toNat_natCast]
    · intro hnil hpos
      obtain ⟨last, hlast, hfate⟩ := hdepth cause
      refine ⟨(all h table).items, Progress.complete_eq_ok.mpr ⟨?_, rfl⟩⟩
      rw [hfault cause hcause, hfate, fate, if_neg (not_not_intro hnil), if_pos (by omega)]

/-- An entry with children and no attributes. -/
def parentHead : EntryHead := ⟨[1], ⟨1, 0x11, true, []⟩, []⟩

/-- The table that declares it. -/
def parentTable : AbbrevTable := (AbbrevTable.empty.insert? ⟨1, 0x11, true, []⟩).getD .empty

/-- A unit of version 4 with these entries. -/
def unitOf (entries : Bytes) : UnitHeader where
  offset := 0
  length := 7 + entries.length
  format := .dwarf32
  order := .little
  fields := ⟨4, 8, 0, .compilation⟩
  headerSize := 11
  entries

theorem wellFormed_parentHead (enc : Encoding) : parentHead.WellFormed enc parentTable where
  code := Decoder.spells_unsigned.mp rfl
  ne_zero := by decide
  declared := by decide +kernel
  attributes := .nil

theorem complete_classified_unitOf :
    (all (unitOf [0]) parentTable).complete = .error .nullWithoutScope ∧
    (all (unitOf [1, 0, 0xff]) parentTable).complete = .error .trailingEntries ∧
    (all (unitOf [1, 0xff]) parentTable).complete = .error .unexpectedEnd ∧
    (all (unitOf [1, 1, 0]) parentTable).complete = .error (.openScopes 1) ∧
    ∃ es, (all (unitOf [1, 0]) parentTable).complete = .ok es := by
  have hentry : ∀ enc, Token.WellFormed enc parentTable (.entry parentHead) :=
    wellFormed_parentHead
  have hnull : ∀ enc, Token.WellFormed enc parentTable (.null [0]) :=
    fun _ => Decoder.spells_unsigned.mp rfl
  have hgarbage : ∀ enc, Malformed enc parentTable [0xff] .unexpectedEnd := fun _ => .number rfl
  have hfirst : ∀ ts, ¬ NullFirst (.entry parentHead :: ts) := fun ts => not_nullFirst rfl
  refine ⟨?_, ?_, ?_, ?_, ?_⟩
  · obtain ⟨-, hrow⟩ := complete_classified (unitOf [0]) parentTable
    obtain ⟨-, hunopened, -⟩ := hrow [.null [0]] [] ⟨rfl, by simp [hnull], .inl rfl⟩
    exact hunopened (nullFirst_null ..)
  · obtain ⟨-, hrow⟩ := complete_classified (unitOf [1, 0, 0xff]) parentTable
    obtain ⟨-, -, htrailing, -⟩ := hrow [.entry parentHead, .null [0]] [0xff]
      ⟨rfl, by simp [hentry, hnull], .inr ⟨_, hgarbage _⟩⟩
    exact htrailing (hfirst _) ⟨[.entry parentHead], [0], [], rfl, rfl, by decide⟩
  · obtain ⟨-, hrow⟩ := complete_classified (unitOf [1, 0xff]) parentTable
    obtain ⟨-, -, -, hlater⟩ := hrow [.entry parentHead] [0xff]
      ⟨rfl, by simp [hentry], .inr ⟨_, hgarbage _⟩⟩
    have hearly : ¬ ClosesEarly [.entry parentHead] [0xff] := by
      rw [closesEarly_iff, closesFrom_entry]
      exact closesFrom_nil
    exact (hlater (hfirst _) hearly).1 _ (by decide) (hgarbage _)
  · obtain ⟨-, hrow⟩ := complete_classified (unitOf [1, 1, 0]) parentTable
    obtain ⟨-, -, -, hlater⟩ := hrow [.entry parentHead, .entry parentHead, .null [0]] []
      ⟨rfl, by simp [hentry, hnull], .inl rfl⟩
    have hearly : ¬ ClosesEarly [.entry parentHead, .entry parentHead, .null [0]] [] := by
      rw [closesEarly_iff, closesFrom_entry, closesFrom_entry, closesFrom_null]
      rintro (⟨-, hnext⟩ | h)
      · exact hnext rfl
      · exact closesFrom_nil h
    exact (hlater (hfirst _) hearly).2.1 rfl (by decide)
  · obtain ⟨-, hrow⟩ := complete_classified (unitOf [1, 0]) parentTable
    obtain ⟨-, -, -, hlater⟩ := hrow [.entry parentHead, .null [0]] []
      ⟨rfl, by simp [hentry, hnull], .inl rfl⟩
    have hearly : ¬ ClosesEarly [.entry parentHead, .null [0]] [] := by
      rw [closesEarly_iff, closesFrom_entry, closesFrom_null]
      rintro (⟨-, hnext⟩ | h)
      · exact hnext rfl
      · exact closesFrom_nil h
    exact (hlater (hfirst _) hearly).2.2 rfl (by decide)

end Entry

end Dwarf
