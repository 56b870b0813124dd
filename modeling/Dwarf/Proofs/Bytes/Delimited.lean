import Dwarf.Bytes.Leb128
/-!
# A value ends where its own bytes say

Nothing marks the end of a value in a section: the next one starts right behind
it. So a reader must find the end of a value in the bytes of the value alone, and
what comes after them must not matter.

> `Delimited`: a run that succeeds takes bytes that give the same value whatever
> follows them, and a run that fails for another reason than a lack of bytes fails
> in the same way whatever follows.

`Spells` names the bytes that a value takes. With it a run is a statement about the
start of its input, and a run of two decoders is two such statements end to end:

> `Delimited.run_eq_ok`: a run succeeds exactly when its input starts with bytes
> that spell its value.
>
> `Delimited.spells_bind`: what two decoders read one after the other is spelled
> by bytes of the first and then bytes of the second.
-/

namespace Dwarf

/-- `bytes` are the integer `value` in `width` bytes. -/
structure ByteOrder.IsInteger (order : ByteOrder) (width value : Nat) (bytes : Bytes) : Prop where
  length : bytes.length = width
  value : order.decode bytes = value

/-- An integer that fits has just one way to be written in its width. -/
theorem ByteOrder.isInteger_iff {order : ByteOrder} {width value : Nat} {bytes : Bytes} :
    order.IsInteger width value bytes ↔
      value < placeValue 256 width ∧ bytes = order.encode width value := by
  constructor
  · intro h
    obtain ⟨rfl, rfl⟩ := h
    exact ⟨order.decode_lt bytes, (order.encode_decode bytes).symm⟩
  · intro h
    obtain ⟨hlt, rfl⟩ := h
    exact ⟨order.length_encode width value, by rw [order.decode_encode, Nat.mod_eq_of_lt hlt]⟩

namespace Decoder

variable {α β : Type}

/-- `bytes` spell `value`: a run on them takes every one of them. -/
def Spells (d : Decoder α) (bytes : Bytes) (value : α) : Prop := d.run bytes = .ok value []

/-- Where a run ends, and how, is decided by the bytes that it takes. -/
structure Delimited (d : Decoder α) : Prop where
  /-- A value comes from the bytes that were taken for it. -/
  ok : ∀ {bs rest : Bytes} {value : α}, d.run bs = .ok value rest →
    ∃ head, bs = head ++ rest ∧ ∀ tail, d.run (head ++ tail) = .ok value tail
  /-- More bytes help only where there were too few. -/
  fault : ∀ {bs rest : Bytes} {cause : Fault}, d.run bs = .fault cause rest →
    cause ≠ .unexpectedEnd → ∀ tail, d.run (bs ++ tail) = .fault cause (rest ++ tail)

/-- A run of two decoders ends with a value only if both do. -/
theorem run_bind_eq_ok {d : Decoder α} {f : α → Decoder β} {bs rest : Bytes} {value : β} :
    (d >>= f).run bs = .ok value rest ↔
      ∃ first mid, d.run bs = .ok first mid ∧ (f first).run mid = .ok value rest := by
  rw [run_bind]
  cases d.run bs with
  | ok first mid =>
    constructor
    · intro h
      exact ⟨first, mid, rfl, h⟩
    · intro h
      obtain ⟨first', mid', hfirst, h⟩ := h
      cases hfirst
      exact h
  | fault cause mid =>
    constructor
    · intro h
      cases h
    · intro h
      obtain ⟨first, mid', hfirst, -⟩ := h
      cases hfirst

theorem value_eq_ok {d : Decoder α} {bs : Bytes} {value : α} :
    d.value bs = .ok value ↔ ∃ rest, d.run bs = .ok value rest := by
  unfold Decoder.value
  cases d.run bs with
  | ok found rest =>
    constructor
    · intro h
      cases h
      exact ⟨rest, rfl⟩
    · intro h
      obtain ⟨rest', hrun⟩ := h
      cases hrun
      rfl
  | fault cause rest =>
    constructor
    · intro h
      cases h
    · intro h
      obtain ⟨rest', hrun⟩ := h
      cases hrun

theorem value_eq_error {d : Decoder α} {bs : Bytes} {cause : Fault} :
    d.value bs = .error cause ↔ ∃ rest, d.run bs = .fault cause rest := by
  unfold Decoder.value
  cases d.run bs with
  | ok found rest =>
    constructor
    · intro h
      cases h
    · intro h
      obtain ⟨rest', hrun⟩ := h
      cases hrun
  | fault cause' rest =>
    constructor
    · intro h
      cases h
      exact ⟨rest, rfl⟩
    · intro h
      obtain ⟨rest', hrun⟩ := h
      cases hrun
      rfl

theorem reporting_eq_ok {cause : Fault} {d : Decoder α} {bs rest : Bytes} {value : α}
    (h : (reporting cause d).run bs = .ok value rest) : d.run bs = .ok value rest := by
  simp only [reporting] at h
  split at h
  · next hrun =>
    cases h
    exact hrun
  · cases h

/-- What is read is not reported. -/
theorem value_reporting {cause : Fault} {d : Decoder α} {bs : Bytes} {value : α}
    (h : d.value bs = .ok value) : (reporting cause d).value bs = .ok value := by
  obtain ⟨rest, hrun⟩ := value_eq_ok.mp h
  simp only [Decoder.value, reporting, hrun, Outcome.toExcept]

theorem within_eq_ok {d : Decoder α} {inner bs rest left : Bytes} {value : α}
    (h : (within inner d).run bs = .ok (value, left) rest) :
    rest = bs ∧ d.run inner = .ok value left := by
  simp only [within] at h
  split at h
  · next hrun =>
    cases h
    exact ⟨rfl, hrun⟩
  · cases h

/-- What stands at an offset stands behind as many bytes. -/
theorem drop_eq_iff {contents rest : Bytes} {offset : Nat} :
    offset ≤ contents.length ∧ contents.drop offset = rest ↔
      ∃ before, contents = before ++ rest ∧ before.length = offset := by
  constructor
  · intro h
    obtain ⟨hinside, rfl⟩ := h
    exact ⟨contents.take offset, (List.take_append_drop ..).symm, List.length_take_of_le hinside⟩
  · intro h
    obtain ⟨before, rfl, rfl⟩ := h
    refine ⟨?_, List.drop_left⟩
    rw [List.length_append]
    omega

/-! ### Runs in terms of spellings -/

/-- Bytes that spell a value are read as it, whatever follows them. -/
theorem Spells.run {d : Decoder α} (hd : Delimited d) {bytes : Bytes} {value : α}
    (h : d.Spells bytes value) (rest : Bytes) : d.run (bytes ++ rest) = .ok value rest := by
  obtain ⟨head, hbytes, hrun⟩ := hd.ok h
  rw [List.append_nil] at hbytes
  rw [hbytes]
  exact hrun rest

theorem Delimited.run_eq_ok {d : Decoder α} (hd : Delimited d) {bs rest : Bytes} {value : α} :
    d.run bs = .ok value rest ↔ ∃ bytes, bs = bytes ++ rest ∧ d.Spells bytes value := by
  constructor
  · intro h
    obtain ⟨head, hbs, hrun⟩ := hd.ok h
    have hspell : d.run (head ++ []) = .ok value [] := hrun []
    rw [List.append_nil] at hspell
    exact ⟨head, hbs, hspell⟩
  · intro hparts
    obtain ⟨bytes, rfl, h⟩ := hparts
    exact h.run hd rest

/-- Bytes start with one value at most, and it ends in one place. -/
theorem Delimited.unique {d : Decoder α} (hd : Delimited d) {bytes bytes' x y : Bytes}
    {value value' : α} (h : d.Spells bytes value) (h' : d.Spells bytes' value')
    (heq : bytes ++ x = bytes' ++ y) : bytes = bytes' ∧ value = value' ∧ x = y := by
  have hrun := h.run hd x
  rw [heq, h'.run hd y] at hrun
  injection hrun with hvalue hrest
  subst hrest
  exact ⟨List.append_cancel_right heq, hvalue.symm, rfl⟩

/-- A decoder that takes bytes has no value without any. -/
theorem Consuming.ne_nil {d : Decoder α} (hd : Consuming d) {bytes : Bytes} {value : α}
    (h : d.Spells bytes value) : bytes ≠ [] := by
  intro hnil
  subst hnil
  exact absurd (hd h) (Nat.lt_irrefl _)

/-! ### Composition -/

theorem Delimited.pure (value : α) : Delimited (pure value : Decoder α) where
  ok h := by
    cases h
    exact ⟨[], rfl, fun _ => rfl⟩
  fault h := by cases h

theorem Delimited.fail (cause : Fault) : Delimited (fail cause : Decoder α) where
  ok h := by cases h
  fault h _ _ := by
    cases h
    rfl

theorem Delimited.bind {d : Decoder α} {f : α → Decoder β} (hd : Delimited d)
    (hf : ∀ value, Delimited (f value)) : Delimited (d >>= f) where
  ok {bs rest value} h := by
    obtain ⟨first, mid, hr, hlast⟩ := run_bind_eq_ok.mp h
    obtain ⟨head, rfl, hfirst⟩ := hd.ok hr
    obtain ⟨head', rfl, hsecond⟩ := (hf first).ok hlast
    refine ⟨head ++ head', (List.append_assoc ..).symm, ?_⟩
    intro tail
    rw [List.append_assoc, run_bind, hfirst]
    exact hsecond tail
  fault {bs rest cause} h hcause tail := by
    rw [run_bind] at h ⊢
    cases hr : d.run bs with
    | fault cause' mid =>
      rw [hr] at h
      cases h
      rw [hd.fault hr hcause tail]
    | ok first mid =>
      rw [hr] at h
      obtain ⟨head, rfl, hfirst⟩ := hd.ok hr
      rw [List.append_assoc, hfirst]
      exact (hf first).fault h hcause tail

theorem Delimited.ite {p : Prop} [Decidable p] {d e : Decoder α} (hd : Delimited d)
    (he : Delimited e) : Delimited (if p then d else e) := by
  by_cases h : p
  · rw [if_pos h]
    exact hd
  · rw [if_neg h]
    exact he

theorem spells_pure {value value' : α} {bytes : Bytes} :
    (Pure.pure value : Decoder α).Spells bytes value' ↔ bytes = [] ∧ value' = value := by
  constructor
  · intro h
    cases h
    exact ⟨rfl, rfl⟩
  · intro h
    obtain ⟨rfl, rfl⟩ := h
    rfl

theorem Delimited.spells_bind {d : Decoder α} {f : α → Decoder β} (hd : Delimited d)
    {bytes : Bytes} {value : β} :
    (d >>= f).Spells bytes value ↔ ∃ first head tail,
      bytes = head ++ tail ∧ d.Spells head first ∧ (f first).Spells tail value := by
  constructor
  · intro h
    obtain ⟨first, mid, hr, htail⟩ := run_bind_eq_ok.mp h
    obtain ⟨head, hbytes, hhead⟩ := hd.run_eq_ok.mp hr
    exact ⟨first, head, mid, hbytes, hhead, htail⟩
  · intro h
    obtain ⟨first, head, tail, rfl, hhead, htail⟩ := h
    rw [Spells, run_bind, hhead.run hd tail]
    exact htail

/-! ### Primitives -/

theorem delimited_take (count : Nat) : Delimited (take count) where
  ok {bs rest head} h := by
    obtain ⟨rfl, rfl⟩ := take_eq_ok h
    exact ⟨head, rfl, fun tail => take_append head tail⟩
  fault {bs rest cause} h hcause := by
    -- Taking fails only for want of bytes.
    simp only [take] at h
    split at h
    · cases h
    · cases h
      exact absurd rfl hcause

theorem delimited_uint (order : ByteOrder) (width : Nat) : Delimited (uint order width) :=
  (delimited_take width).bind fun _ => .pure _

theorem delimited_byte : Delimited byte where
  ok {bs rest value} h := by
    cases bs with
    | nil => cases h
    | cons b bs =>
      cases h
      exact ⟨[b], rfl, fun _ => rfl⟩
  fault {bs rest cause} h hcause := by
    cases bs with
    | nil =>
      cases h
      exact absurd rfl hcause
    | cons b bs => cases h

/-- Bytes up to a zero byte, and the zero byte, are a string. -/
theorem terminated_eq_ok {bs rest text : Bytes} (h : terminated.run bs = .ok text rest) :
    bs = text ++ 0 :: rest ∧ ∀ b ∈ text, b ≠ 0 := by
  simp only [terminated] at h
  split at h
  · cases h
  · next b rest' hdrop =>
    cases h
    have hb : b = 0 := by
      have hhead := List.head?_dropWhile_not (· != 0) bs
      rw [hdrop] at hhead
      simpa using hhead
    subst hb
    constructor
    · rw [← hdrop]
      exact List.takeWhile_append_dropWhile.symm
    · have hall := List.all_takeWhile (p := (· != 0)) (l := bs)
      intro b hb
      simpa using List.all_eq_true.mp hall b hb

theorem delimited_terminated : Delimited terminated where
  ok {bs rest text} h := by
    obtain ⟨hbs, htext⟩ := terminated_eq_ok h
    refine ⟨text ++ [0], by rw [hbs, List.append_assoc]; rfl, fun tail => ?_⟩
    rw [List.append_assoc]
    exact terminated_append htext tail
  fault {bs rest cause} h hcause := by
    simp only [terminated] at h
    split at h
    · cases h
      exact absurd rfl hcause
    · cases h

theorem delimited_address (order : ByteOrder) (size : Nat) : Delimited (address order size) :=
  (delimited_uint order size).ite (.fail _)

theorem delimited_block (order : ByteOrder) (width : Nat) : Delimited (block order width) :=
  .ite ((delimited_uint order width).bind fun count => delimited_take count) (.fail _)

theorem delimited_initialLength (order : ByteOrder) : Delimited (initialLength order) :=
  (delimited_uint order 4).bind fun _ =>
    .ite (.pure _) (.ite ((delimited_uint order 8).bind fun _ => .pure _) (.fail _))

/-! ### What the primitives spell -/

theorem spells_take {count : Nat} {bytes head : Bytes} :
    (take count).Spells bytes head ↔ head = bytes ∧ bytes.length = count := by
  constructor
  · intro h
    obtain ⟨rfl, hlen⟩ := take_eq_ok h
    rw [List.append_nil]
    exact ⟨rfl, hlen⟩
  · intro h
    obtain ⟨rfl, rfl⟩ := h
    have htake := take_append head []
    rwa [List.append_nil] at htake

theorem spells_uint {order : ByteOrder} {width value : Nat} {bytes : Bytes} :
    (uint order width).Spells bytes value ↔ order.IsInteger width value bytes := by
  rw [uint, (delimited_take width).spells_bind]
  constructor
  · intro h
    obtain ⟨first, head, tail, rfl, hhead, htail⟩ := h
    obtain ⟨rfl, hlen⟩ := spells_take.mp hhead
    obtain ⟨rfl, rfl⟩ := spells_pure.mp htail
    rw [List.append_nil]
    exact ⟨hlen, rfl⟩
  · intro h
    obtain ⟨hlen, rfl⟩ := h
    exact ⟨bytes, bytes, [], (List.append_nil _).symm, spells_take.mpr ⟨rfl, hlen⟩,
      spells_pure.mpr ⟨rfl, rfl⟩⟩

theorem spells_byte {bytes : Bytes} {value : Nat} :
    byte.Spells bytes value ↔ ∃ b : UInt8, bytes = [b] ∧ b.toNat = value := by
  constructor
  · intro h
    cases bytes with
    | nil => cases h
    | cons b bs =>
      cases h
      exact ⟨b, rfl, rfl⟩
  · intro h
    obtain ⟨b, rfl, rfl⟩ := h
    rfl

theorem spells_terminated {bytes text : Bytes} :
    terminated.Spells bytes text ↔ bytes = text ++ [0] ∧ ∀ b ∈ text, b ≠ 0 := by
  constructor
  · intro h
    exact terminated_eq_ok h
  · intro h
    obtain ⟨rfl, htext⟩ := h
    exact terminated_append htext []

end Decoder

/-- The bytes of a number are found in the same way whatever follows them. -/
theorem Leb128.digits?_append {bs ds rest : Bytes} (h : digits? bs = some (ds, rest)) :
    bs = ds ++ rest ∧ ∀ tail, digits? (ds ++ tail) = some (ds, tail) := by
  refine ⟨(digits?_eq_some h).1, fun tail => ?_⟩
  induction bs generalizing ds with
  | nil => cases h
  | cons b bs ih =>
    rw [digits?] at h
    split at h
    · next hb =>
      cases h
      exact if_pos hb
    · next hb =>
      split at h
      · cases h
      · next ds' rest' hrec =>
        cases h
        exact digits?_cons hb (ih hrec)

namespace Decoder

open Leb128

/-- A decoder that finds the bytes of a number, checks them and takes their value. -/
theorem delimited_of_digits {fits : Bytes → Bool} {value : Bytes → α} {cause : Fault} :
    Delimited ⟨fun bs => match digits? bs with
      | none => .fault .unexpectedEnd []
      | some (ds, rest) => if fits ds then .ok (value ds) rest else .fault cause rest⟩ where
  ok {bs rest value} h := by
    simp only at h
    split at h
    · cases h
    · next ds rest' hds =>
      obtain ⟨hbs, hdigits⟩ := digits?_append hds
      split at h
      · next hfits =>
        cases h
        exact ⟨ds, hbs, fun tail => by simp only [hdigits tail, if_pos hfits]⟩
      · cases h
  fault {bs rest cause} h hcause tail := by
    simp only at h
    split at h
    · cases h
      exact absurd rfl hcause
    · next ds rest' hds =>
      obtain ⟨rfl, hdigits⟩ := digits?_append hds
      split at h
      · cases h
      · next hfits =>
        cases h
        simp only [List.append_assoc, hdigits, if_neg hfits]

theorem delimited_unsigned : Delimited unsigned := delimited_of_digits

theorem delimited_signed : Delimited signed := delimited_of_digits

theorem delimited_countedBlock : Delimited countedBlock :=
  delimited_unsigned.bind fun count => delimited_take count

end Decoder

end Dwarf
