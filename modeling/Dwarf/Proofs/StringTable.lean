import Dwarf.Proofs.Bytes.Delimited
import Dwarf.Proofs.Bytes.Tiling
import Dwarf.StringTable
/-!
# The strings of a section

The strings of a section are met in two ways. A listing goes through the section from its start
and counts how far it is. An entry points into the section, at the start of a string or anywhere
inside one, and nothing is counted. Both have to see the same strings, and the second one also
wherever the first one does not start.

> `Laid`: strings that stand one behind the other, each with the offset at which it starts.
>
> `laid_run`: what is listed is laid in the section, and behind it no string ends.
>
> `strings_laid`: looking up an offset gives the end, from there on, of the listed string in
> which it lies.
-/

namespace Dwarf

/-- The strings, each with its offset, stand in `bytes` one behind the other, the first of them at
the offset `start`. Each goes up to a zero byte and has none. -/
inductive Laid : (start : Nat) → List (Nat × Bytes) → (bytes : Bytes) → Prop where
  | nil {start : Nat} : Laid start [] []
  | cons {start : Nat} {text bytes : Bytes} {later : List (Nat × Bytes)}
    (htext : ∀ b ∈ text, b ≠ 0) (hlater : Laid (start + text.length + 1) later bytes) :
    Laid start ((start, text) :: later) (text ++ 0 :: bytes)

namespace Laid

variable {start offset : Nat} {found : List (Nat × Bytes)} {text bytes : Bytes}

/-- A string stands as far behind the start as there are bytes before it. -/
theorem around (h : Laid start found bytes) (hmem : (offset, text) ∈ found) :
    ∃ before after, bytes = before ++ (text ++ 0 :: after) ∧ offset = start + before.length ∧
      ∀ b ∈ text, b ≠ 0 := by
  induction h with
  | nil => cases hmem
  | @cons start first bytes later hfirst hlater ih =>
    rcases List.mem_cons.mp hmem with heq | hin
    · cases heq
      exact ⟨[], bytes, rfl, rfl, hfirst⟩
    · obtain ⟨before, after, rfl, rfl, htext⟩ := ih hin
      refine ⟨first ++ 0 :: before, after, ?_, ?_, htext⟩
      · rw [List.append_assoc, List.cons_append]
      · rw [List.length_append, List.length_cons]
        omega

/-- No byte lies between two strings: each belongs to one, if only as its zero byte. -/
theorem exists_mem (h : Laid start found bytes) {distance : Nat} (hin : distance < bytes.length) :
    ∃ offset text, (offset, text) ∈ found ∧ offset ≤ start + distance ∧
      start + distance ≤ offset + text.length := by
  induction h generalizing distance with
  | nil => cases hin
  | @cons start first bytes later hfirst hlater ih =>
    rcases Nat.lt_or_ge first.length distance with hbehind | hfront
    · rw [List.length_append, List.length_cons] at hin
      obtain ⟨offset, text, hmem, hlow, hhigh⟩ := @ih (distance - (first.length + 1)) (by omega)
      exact ⟨offset, text, List.mem_cons_of_mem _ hmem, by omega, by omega⟩
    · exact ⟨start, first, List.mem_cons_self, by omega, by omega⟩

end Laid

/-! ### One string -/

/-- Bytes start with a string, or no string ends in them. -/
theorem Decoder.terminated_cases (bs : Bytes) :
    (∃ text rest, bs = text ++ 0 :: rest ∧ (∀ b ∈ text, b ≠ 0) ∧ terminated.run bs = .ok text rest) ∨
      (∀ b ∈ bs, b ≠ 0) ∧ terminated.run bs = .fault .unexpectedEnd bs := by
  cases hrun : terminated.run bs with
  | ok text rest =>
    obtain ⟨hbs, htext⟩ := terminated_eq_ok hrun
    exact .inl ⟨text, rest, hbs, htext, rfl⟩
  | fault cause rest =>
    have hnone : ∀ b ∈ bs, b ≠ 0 := by
      intro b hb hzero
      subst hzero
      obtain ⟨text, rest', rfl, htext⟩ := List.eq_append_cons_of_mem hb
      have hclean : ∀ b ∈ text, b ≠ 0 := fun b hb hzero => htext (hzero ▸ hb)
      rw [terminated_append hclean rest'] at hrun
      cases hrun
    simp only [terminated] at hrun
    split at hrun
    · cases hrun
      exact .inr ⟨hnone, rfl⟩
    · cases hrun

theorem forward_stringItem : stringItem.Forward := fun _ =>
  Decoder.forward_terminated.bind fun _ => .pure _

theorem stringAt_of_inside {contents : Bytes} {offset : Nat} (hin : offset < contents.length) :
    stringAt contents offset = Decoder.terminated.value (contents.drop offset) := by
  rw [stringAt, if_neg (Nat.not_le.mpr hin)]

/-- From a place in a string on, what is found is the rest of the string. -/
theorem stringAt_within {before text after : Bytes} (htext : ∀ b ∈ text, b ≠ 0) {k : Nat}
    (hk : k ≤ text.length) :
    stringAt (before ++ (text ++ 0 :: after)) (before.length + k) = .ok (text.drop k) := by
  have hdrop : (before ++ (text ++ 0 :: after)).drop (before.length + k) =
      text.drop k ++ 0 :: after := by
    rw [← List.drop_drop, List.drop_left, List.drop_append_of_le_length hk]
  have hrest : ∀ b ∈ text.drop k, b ≠ 0 := fun b hb => htext b (List.mem_of_mem_drop hb)
  rw [stringAt_of_inside, hdrop]
  · exact Decoder.value_eq_ok.mpr ⟨after, Decoder.terminated_append hrest after⟩
  · simp only [List.length_append, List.length_cons]
    omega

/-- Where no string ends, none is found. -/
theorem stringAt_of_tail {laid tail : Bytes} (htail : ∀ b ∈ tail, b ≠ 0) {offset : Nat}
    (hlow : laid.length ≤ offset) (hin : offset < (laid ++ tail).length) :
    stringAt (laid ++ tail) offset = .error .unexpectedEnd := by
  rw [stringAt_of_inside hin, List.drop_append]
  rcases Decoder.terminated_cases (laid.drop offset ++ tail.drop (offset - laid.length)) with
    ⟨text, rest, hbs, -, -⟩ | ⟨-, hrun⟩
  · rw [List.drop_eq_nil_of_le hlow, List.nil_append] at hbs
    have hzero : (0 : UInt8) ∈ tail.drop (offset - laid.length) :=
      hbs ▸ List.mem_append_right text List.mem_cons_self
    exact absurd rfl (htail 0 (List.mem_of_mem_drop hzero))
  · exact Decoder.value_eq_error.mpr ⟨_, hrun⟩

/-! ### The whole section -/

/-- What a cursor has before it: strings that are laid there, and then bytes without a zero
byte, which are no string. -/
theorem laid_run (c : Cursor) : ∃ laid tail, c.rest = laid ++ tail ∧
    Laid c.offset (c.run stringItem).items laid ∧ (∀ b ∈ tail, b ≠ 0) ∧
    (c.run stringItem).fault = if tail = [] then none else some .unexpectedEnd := by
  fun_induction Cursor.run stringItem c with
  | case1 c hnil =>
    rw [List.isEmpty_iff.mp hnil]
    exact ⟨[], [], rfl, .nil, List.forall_mem_nil _, rfl⟩
  | case2 c hcons found rest h ih =>
    obtain ⟨text, mid, hrun, hfound⟩ := Decoder.run_bind_eq_ok.mp h
    cases hfound
    obtain ⟨hbytes, htext⟩ := Decoder.terminated_eq_ok hrun
    obtain ⟨laid, tail, hrest, hlaid, htail, hfault⟩ := ih
    -- The cursor counts what it took off the front, which is the string and its zero byte.
    have hoffset : (c.advance rest).offset = c.offset + text.length + 1 := by
      show c.offset + (c.rest.length - rest.length) = _
      rw [hbytes, List.length_append, List.length_cons]
      omega
    rw [hoffset] at hlaid
    refine ⟨text ++ 0 :: laid, tail, ?_, .cons htext hlaid, htail, hfault⟩
    rw [hbytes, List.append_assoc, List.cons_append, ← hrest]
    rfl
  | case3 c hcons cause rest h =>
    rcases Decoder.terminated_cases c.rest with ⟨text, mid, -, -, hrun⟩ | ⟨htail, hrun⟩
    · rw [stringItem, Decoder.run_bind, hrun] at h
      cases h
    · rw [stringItem, Decoder.run_bind, hrun] at h
      cases h
      have hne : c.rest ≠ [] := fun hnil => hcons (List.isEmpty_iff.mpr hnil)
      exact ⟨[], c.rest, rfl, .nil, htail, by rw [if_neg hne]; rfl⟩

/-- **Listing strings and looking them up agree everywhere.** Calls give the listed strings, then
at most one fault, and then nothing. The listed strings stand one behind the other from offset 0
on and have no zero byte; what is left behind the last zero byte of the section is no string, and
is the reason of the one fault, unless nothing is left.

An offset in a listed string, its zero byte included, gives the rest of that string, and every
offset before the last zero byte lies in one. Behind that no string is found, and behind the
section there is nothing to look at. The section may be the one of strings or the one of line
strings: both are listed and looked up in this way. -/
theorem strings_laid (contents : Bytes) :
    (∀ k, (Cursor.atStart contents).answer stringItem k = (strings contents).answer k) ∧
    ∃ laid tail, contents = laid ++ tail ∧ Laid 0 (strings contents).items laid ∧
      (∀ b ∈ tail, b ≠ 0) ∧
      (strings contents).fault = (if tail = [] then none else some .unexpectedEnd) ∧
      (∀ start text k, (start, text) ∈ (strings contents).items → k ≤ text.length →
        stringAt contents (start + k) = .ok (text.drop k)) ∧
      (∀ offset, offset < laid.length → ∃ start text, (start, text) ∈ (strings contents).items ∧
        start ≤ offset ∧ offset ≤ start + text.length) ∧
      (∀ offset, laid.length ≤ offset → offset < contents.length →
        stringAt contents offset = .error .unexpectedEnd) ∧
      ∀ offset, contents.length ≤ offset → stringAt contents offset = .error .offsetBounds := by
  refine ⟨Cursor.answer_eq stringItem _, ?_⟩
  obtain ⟨laid, tail, hcontents, hlaid, htail, hfault⟩ := laid_run (Cursor.atStart contents)
  replace hcontents : contents = laid ++ tail := hcontents
  replace hlaid : Laid 0 (strings contents).items laid := hlaid
  refine ⟨laid, tail, hcontents, hlaid, htail, hfault, ?_, ?_, ?_, ?_⟩
  · intro start text k hmem hk
    obtain ⟨before, after, hbytes, hstart, htext⟩ := hlaid.around hmem
    have hsection : contents = before ++ (text ++ 0 :: (after ++ tail)) := by
      rw [hcontents, hbytes, List.append_assoc, List.append_assoc, List.cons_append]
    have hplace : start = before.length := by rw [hstart]; exact Nat.zero_add _
    rw [hsection, hplace]
    exact stringAt_within htext hk
  · intro offset hin
    obtain ⟨start, text, hmem, hlow, hhigh⟩ := hlaid.exists_mem hin
    exact ⟨start, text, hmem, by omega, by omega⟩
  · intro offset hlow hin
    rw [hcontents] at hin ⊢
    exact stringAt_of_tail htail hlow hin
  · intro offset hbehind
    rw [stringAt, if_pos hbehind]

/-- An empty string, a string of two bytes, and a byte that no zero byte follows. -/
def brokenStrings : Bytes := [0, 0x61, 0x62, 0, 0x63]

theorem strings_laid_brokenStrings :
    (strings brokenStrings).items = [(0, []), (1, [0x61, 0x62])] ∧
    stringAt brokenStrings 0 = .ok [] ∧ stringAt brokenStrings 2 = .ok [0x62] ∧
    stringAt brokenStrings 3 = .ok [] ∧ stringAt brokenStrings 4 = .error .unexpectedEnd ∧
    stringAt brokenStrings 5 = .error .offsetBounds ∧
    (Cursor.atStart brokenStrings).answer stringItem 2 = .error .unexpectedEnd ∧
    (Cursor.atStart brokenStrings).answer stringItem 3 = .ok none := by
  have hitems : (strings brokenStrings).items = [(0, []), (1, [0x61, 0x62])] := by decide +kernel
  have hfault : (strings brokenStrings).fault = some .unexpectedEnd := by decide +kernel
  obtain ⟨hanswer, laid, tail, hcontents, hlaid, htail, -, hwithin, hcover, hbroken, hbehind⟩ :=
    strings_laid brokenStrings
  have hempty : (0, []) ∈ (strings brokenStrings).items := hitems ▸ by decide
  have htwo : (1, [0x61, 0x62]) ∈ (strings brokenStrings).items := hitems ▸ by decide
  -- Offset 4 lies in neither of the two strings, so it is not before the tail.
  have hlength : laid.length ≤ 4 := by
    refine Nat.not_lt.mp fun hin => ?_
    obtain ⟨start, text, hmem, -, hhigh⟩ := hcover 4 hin
    rw [hitems, List.mem_cons, List.mem_singleton] at hmem
    rcases hmem with heq | heq
    · cases heq
      exact absurd hhigh (by decide)
    · cases heq
      exact absurd hhigh (by decide)
  refine ⟨hitems, hwithin 0 [] 0 hempty (by decide), hwithin 1 _ 1 htwo (by decide),
    hwithin 1 _ 2 htwo (by decide), hbroken 4 hlength (by decide), hbehind 5 (by decide), ?_, ?_⟩
  · rw [hanswer, Progress.answer, hitems, hfault]
    rfl
  · rw [hanswer, Progress.answer, hitems, hfault]
    rfl

end Dwarf
