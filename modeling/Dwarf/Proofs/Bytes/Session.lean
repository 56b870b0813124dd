import Dwarf.Bytes.Session
import Dwarf.Proofs.Bytes.Loss
/-!
# A session stays in its view

Two things keep a session safe. Whatever was asked, the view that is left is a range of the one
before, and ranges of ranges are ranges, so the session never leaves the view that it started
with. And after a fault it is known where the view stands:

> `exists_range_of_step`, `eq_advance_of_step`: what one operation leaves, and what it leaves
> when it fails.
>
> `run_stays_inside`: so it is after any number of operations.
-/

namespace Dwarf

namespace View

/-! ### What an operation may leave -/

/-- How many of the bytes `bs` are taken where reading them fails. -/
def Reading.spoilt (bs : Bytes) : Reading → Nat
  | unsigned | signed | countedBlock => Decoder.numberSize bs
  | initialLength => Decoder.prefixSize 4 bs
  | block width => if width = 1 ∨ width = 2 ∨ width = 4 then Decoder.prefixSize width bs else 0
  | byte | fixed _ | integer _ | address _ | word _ | terminated | skip _ => 0

namespace Operation

/-- A range has to lie in view. Nothing else is asked of an operation. -/
def InRange (v : View) : Operation → Prop
  | range low high _ => low ≤ high ∧ high ≤ v.size
  | rangeFrom low _ => low ≤ v.size
  | rangeTo high _ => high ≤ v.size
  | read _ | find _ | split _ _ | truncate _ | readUpTo _ => True

/-- The session goes on in a part of the view that may end before it. -/
def narrows : Operation → Bool
  | split _ enter | range _ _ enter | rangeFrom _ enter | rangeTo _ enter => enter
  | truncate _ => true
  | read _ | find _ | readUpTo _ => false

/-- How many of the bytes `bs` in view an operation has taken when it fails. -/
def spoilt (bs : Bytes) : Operation → Nat
  | read reading => reading.spoilt bs
  | find _ | split _ _ | truncate _ | range _ _ _ | rangeFrom _ _ | rangeTo _ _ | readUpTo _ => 0

end Operation

variable {v w base : View} {op : Operation} {answer : Except Fault Answer}

/-- The view without its first `count` bytes. -/
def advance (v : View) (count : Nat) : View :=
  { v with start := v.start + count, bytes := v.bytes.drop count }

/-- The view shows the bytes of `base` from its offset on, and no others. -/
structure Inside (v base : View) : Prop where
  start_le : base.start ≤ v.start
  end_le : v.offsetFrom base + v.size ≤ base.size
  bytes : v.bytes = (base.bytes.drop (v.offsetFrom base)).take v.size
  order : v.order = base.order

/-! ### Ranges of a view -/

theorem advance_zero (v : View) : v.advance 0 = v := rfl

theorem range?_eq_some {low high : Nat} : v.range? low high = some w ↔
    (low ≤ high ∧ high ≤ v.size) ∧
      { v with start := v.start + low, bytes := (v.bytes.drop low).take (high - low) } = w := by
  rw [range?]
  by_cases h : low ≤ high ∧ high ≤ v.size
  · rw [if_pos h, Option.some.injEq, and_iff_right h]
  · rw [if_neg h]
    exact iff_of_false nofun fun hboth => h hboth.1

theorem range?_advance {count : Nat} (h : count ≤ v.size) :
    v.range? count v.size = some (v.advance count) := by
  refine range?_eq_some.mpr ⟨⟨h, Nat.le_refl _⟩, ?_⟩
  rw [advance, List.take_of_length_le (by rw [List.length_drop]; exact Nat.le_refl _)]

theorem size_of_range? {low high : Nat} (h : v.range? low high = some w) :
    w.size = high - low := by
  obtain ⟨⟨hle, hend⟩, rfl⟩ := range?_eq_some.mp h
  unfold size at hend ⊢
  rw [List.length_take, List.length_drop]
  omega

theorem offsetFrom_of_range? {low high : Nat} (h : v.range? low high = some w) :
    w.offsetFrom v = low := by
  obtain ⟨-, rfl⟩ := range?_eq_some.mp h
  exact Nat.add_sub_cancel_left v.start low

/-- A range of a range is a range. -/
theorem range?_trans {u : View} {low high low' high' : Nat} (h : v.range? low high = some w)
    (h' : w.range? low' high' = some u) : v.range? (low + low') (low + high') = some u := by
  have hsize := size_of_range? h
  obtain ⟨⟨hle, hend⟩, rfl⟩ := range?_eq_some.mp h
  obtain ⟨⟨hle', hend'⟩, rfl⟩ := range?_eq_some.mp h'
  rw [hsize] at hend'
  refine range?_eq_some.mpr ⟨by omega, ?_⟩
  have hbytes : (((v.bytes.drop low).take (high - low)).drop low').take (high' - low') =
      (v.bytes.drop (low + low')).take (low + high' - (low + low')) := by
    rw [List.drop_take, List.take_take, List.drop_drop]
    congr 1
    omega
  rw [hbytes, Nat.add_assoc]

/-- To be inside of a view is to be a range of it. -/
theorem inside_of_range? {low high : Nat} (h : base.range? low high = some v) :
    v.Inside base := by
  have hsize := size_of_range? h
  have hoffset := offsetFrom_of_range? h
  obtain ⟨⟨hle, hend⟩, hv⟩ := range?_eq_some.mp h
  refine ⟨?_, by omega, ?_, ?_⟩
  · rw [← hv]
    exact Nat.le_add_right base.start low
  · rw [hoffset, hsize, ← hv]
  · rw [← hv]

/-! ### One operation -/

theorem read_eq {α : Type} {d : Decoder α} {count : Nat} (h : count ≤ v.size)
    (hrest : (d.run v.bytes).rest = v.bytes.drop count) :
    v.read d = ((d.run v.bytes).toExcept, v.advance count) := by
  have htaken : v.size - (v.bytes.drop count).length = count := by
    rw [List.length_drop]
    exact Nat.sub_sub_self h
  rw [read, hrest, htaken]
  rfl

theorem exists_range_of_read {α : Type} {d : Decoder α} (hd : d.Forward) (v : View) :
    ∃ count ≤ v.size, (v.read d).2 = v.advance count := by
  obtain ⟨head, hbytes⟩ := hd v.bytes
  have hsize : v.size = head.length + (d.run v.bytes).rest.length := by
    rw [size, ← List.length_append, hbytes]
  have hle : head.length ≤ v.size := by omega
  have hrest := @List.drop_left _ head (d.run v.bytes).rest
  rw [hbytes] at hrest
  exact ⟨head.length, hle, congrArg Prod.snd (read_eq hle hrest.symm)⟩

theorem read_of_loses {α : Type} {d : Decoder α} {lost : Bytes → Nat} (hd : d.Loses lost)
    (hle : lost v.bytes ≤ v.size) {cause : Fault} (h : (v.read d).1 = .error cause) :
    (v.read d).2 = v.advance (lost v.bytes) := by
  cases hrun : d.run v.bytes with
  | ok value rest =>
    simp only [read, hrun, Outcome.toExcept] at h
    cases h
  | fault cause' rest =>
    have hrest : (d.run v.bytes).rest = v.bytes.drop (lost v.bytes) := by
      rw [hrun]
      exact hd hrun
    rw [read_eq hle hrest]

theorem Reading.forward_decoder (reading : Reading) (order : ByteOrder) :
    (reading.decoder order).Forward := by
  have hmap : ∀ {α : Type} {d : Decoder α} (f : α → Answer), d.Forward → (f <$> d).Forward :=
    fun f hd => hd.bind fun _ => .pure _
  cases reading with
  | byte => exact hmap _ Decoder.forward_byte
  | fixed width => exact hmap _ (Decoder.forward_uint order width)
  | integer width => exact hmap _ (.ite (Decoder.forward_uint order width) (.fail _))
  | unsigned => exact hmap _ Decoder.forward_unsigned
  | signed => exact hmap _ Decoder.forward_signed
  | address size => exact hmap _ (Decoder.forward_address order size)
  | word format => exact hmap _ (Decoder.forward_offset order format)
  | initialLength => exact hmap _ (Decoder.forward_initialLength order)
  | block width => exact hmap _ (Decoder.forward_block order width)
  | countedBlock => exact hmap _ Decoder.forward_countedBlock
  | terminated => exact hmap _ Decoder.forward_terminated
  | skip count => exact hmap _ ((Decoder.forward_take count).bind fun _ => .pure _)

theorem Reading.loses_decoder (reading : Reading) (order : ByteOrder) :
    (reading.decoder order).Loses fun bs => reading.spoilt bs := by
  cases reading with
  | byte => exact Decoder.clean_byte.map _
  | fixed width => exact (Decoder.clean_uint order width).map _
  | integer width => exact ((Decoder.clean_uint order width).ite (Decoder.clean_fail _)).map _
  | unsigned => exact Decoder.leaves_unsigned.loses.map _
  | signed => exact Decoder.leaves_signed.loses.map _
  | address size => exact ((Decoder.clean_uint order size).ite (Decoder.clean_fail _)).map _
  | word format => exact (Decoder.clean_uint order format.wordSize).map _
  | initialLength => exact (Decoder.loses_initialLength order).map _
  | block width => exact (Decoder.loses_block order width).map _
  | countedBlock =>
    exact (Decoder.leaves_unsigned.loses_bind fun count => Decoder.clean_take count).map _
  | terminated => exact Decoder.clean_terminated.map _
  | skip count => exact ((Decoder.clean_take count).map fun _ => PUnit.unit).map _

theorem Reading.spoilt_le (reading : Reading) (bs : Bytes) : reading.spoilt bs ≤ bs.length := by
  cases reading with
  | unsigned => exact Nat.min_le_right _ _
  | signed => exact Nat.min_le_right _ _
  | countedBlock => exact Nat.min_le_right _ _
  | initialLength => exact Decoder.prefixSize_le 4 bs
  | block width =>
    rw [spoilt]
    split
    · exact Decoder.prefixSize_le width bs
    · exact Nat.zero_le _
  | _ => exact Nat.zero_le _

theorem split_of_le {count : Nat} (h : count ≤ v.size) :
    v.split count = (.ok { v with bytes := v.bytes.take count }, v.advance count) := by
  have htake := Decoder.take_of_le h
  rw [split, read_eq h (congrArg Outcome.rest htake), htake]
  rfl

theorem split_of_lt {count : Nat} (h : v.size < count) :
    v.split count = (.error .unexpectedEnd, v) := by
  have htake := Decoder.take_of_short h
  rw [split, read_eq (Nat.zero_le _) (congrArg Outcome.rest htake), htake]
  rfl

theorem range?_self (v : View) : v.range? 0 v.size = some v := range?_advance (Nat.zero_le _)

theorem exists_range_of_look {low high : Nat} {enter : Bool}
    (h : v.look enter (v.range? low high) = some (answer, w)) :
    ∃ low high, v.range? low high = some w ∧ (enter = false → high = v.size) := by
  obtain ⟨part, hpart, hw⟩ := Option.map_eq_some_iff.mp h
  cases enter with
  | true =>
    cases hw
    exact ⟨low, high, hpart, nofun⟩
  | false =>
    cases hw
    exact ⟨0, v.size, v.range?_self, fun _ => rfl⟩

/-- Whatever is asked, what is left is a range of the view. Unless the session enters a part of
the view, the range has the same end. -/
theorem exists_range_of_step (h : v.step op = some (answer, w)) :
    ∃ low high, v.range? low high = some w ∧ (op.narrows = false → high = v.size) := by
  have hstay : ∃ low high, v.range? low high = some v ∧ (op.narrows = false → high = v.size) :=
    ⟨0, v.size, v.range?_self, fun _ => rfl⟩
  cases op with
  | read reading =>
    obtain ⟨count, hle, hread⟩ := exists_range_of_read (reading.forward_decoder v.order) v
    obtain rfl : (v.read (reading.decoder v.order)).2 = w :=
      congrArg Prod.snd (Option.some.inj h)
    rw [hread]
    exact ⟨count, v.size, range?_advance hle, fun _ => rfl⟩
  | find byte =>
    cases h
    exact hstay
  | split count enter =>
    rw [step] at h
    rcases Nat.lt_or_ge v.size count with hlt | hle
    · rw [split_of_lt hlt] at h
      cases h
      exact hstay
    · rw [split_of_le hle] at h
      cases h
      cases enter with
      | true => exact ⟨0, count, range?_eq_some.mpr ⟨⟨Nat.zero_le _, hle⟩, rfl⟩, nofun⟩
      | false => exact ⟨count, v.size, range?_advance hle, fun _ => rfl⟩
  | truncate count =>
    rw [step, truncate] at h
    by_cases hle : count ≤ v.size
    · rw [if_pos hle] at h
      cases h
      exact ⟨0, count, range?_eq_some.mpr ⟨⟨Nat.zero_le _, hle⟩, rfl⟩, nofun⟩
    · rw [if_neg hle] at h
      cases h
      exact hstay
  | range low high enter => exact exists_range_of_look h
  | rangeFrom low enter => exact exists_range_of_look h
  | rangeTo high enter => exact exists_range_of_look h
  | readUpTo count =>
    have hbytes : v.bytes.drop count = v.bytes.drop (min count v.size) := by
      rcases Nat.le_total count v.size with hle | hge
      · rw [Nat.min_eq_left hle]
      · rw [Nat.min_eq_right hge, List.drop_of_length_le hge, size, List.drop_length]
    obtain rfl : v.advance (min count v.size) = w := by
      cases h
      rw [advance, readUpTo, hbytes]
    exact ⟨min count v.size, v.size, range?_advance (Nat.min_le_right _ _), fun _ => rfl⟩

theorem look_ne_error {enter : Bool} {part : Option View} {cause : Fault} :
    v.look enter part ≠ some (.error cause, w) := by
  intro h
  obtain ⟨found, -, hw⟩ := Option.map_eq_some_iff.mp h
  cases hw

/-- After a fault the view is where `spoilt` says. -/
theorem eq_advance_of_step {cause : Fault} (h : v.step op = some (.error cause, w)) :
    w = v.advance (op.spoilt v.bytes) := by
  cases op with
  | read reading =>
    obtain ⟨hcause, rfl⟩ := Prod.mk.inj (Option.some.inj h)
    exact read_of_loses (reading.loses_decoder v.order) (reading.spoilt_le v.bytes) hcause
  | find byte =>
    obtain ⟨-, rfl⟩ := Prod.mk.inj (Option.some.inj h)
    exact v.advance_zero.symm
  | split count enter =>
    rw [step] at h
    rcases Nat.lt_or_ge v.size count with hlt | hle
    · rw [split_of_lt hlt] at h
      cases h
      exact v.advance_zero.symm
    · rw [split_of_le hle] at h
      cases h
  | truncate count =>
    rw [step, truncate] at h
    by_cases hle : count ≤ v.size
    · rw [if_pos hle] at h
      cases h
    · rw [if_neg hle] at h
      cases h
      exact v.advance_zero.symm
  | range low high enter => exact absurd h look_ne_error
  | rangeFrom low enter => exact absurd h look_ne_error
  | rangeTo high enter => exact absurd h look_ne_error
  | readUpTo count => cases h

theorem look_eq_none {low high : Nat} {enter : Bool} :
    v.look enter (v.range? low high) = none ↔ ¬ (low ≤ high ∧ high ≤ v.size) := by
  rw [look, Option.map_eq_none_iff, range?]
  by_cases h : low ≤ high ∧ high ≤ v.size
  · rw [if_pos h]
    exact iff_of_false nofun (not_not_intro h)
  · rw [if_neg h]
    exact iff_of_true rfl h

/-- A session ends only with a range that does not lie in view. -/
theorem step_eq_none : v.step op = none ↔ ¬ op.InRange v := by
  cases op with
  | range low high enter => exact look_eq_none
  | rangeFrom low enter => exact look_eq_none.trans (not_congr (and_iff_left (Nat.le_refl _)))
  | rangeTo high enter => exact look_eq_none.trans (not_congr (and_iff_right (Nat.zero_le _)))
  | split count enter =>
    rw [step]
    split <;> exact iff_of_false nofun (not_not_intro trivial)
  | truncate count =>
    rw [step]
    split <;> exact iff_of_false nofun (not_not_intro trivial)
  | _ => exact iff_of_false nofun (not_not_intro trivial)

/-! ### A session -/

/-- What any number of operations leave is a range of the view that they started with. -/
theorem exists_range_of_run {ops : List Operation} (h : v.run ops = some w) :
    ∃ low high, v.range? low high = some w ∧
      ((∀ op ∈ ops, op.narrows = false) → high = v.size) := by
  induction ops generalizing v with
  | nil =>
    cases h
    exact ⟨0, _, range?_self _, fun _ => rfl⟩
  | cons op ops ih =>
    rw [run] at h
    cases hstep : v.step op with
    | none =>
      rw [hstep] at h
      cases h
    | some found =>
      obtain ⟨answer, next⟩ := found
      rw [hstep] at h
      obtain ⟨low, high, hfirst, hend⟩ := exists_range_of_step hstep
      obtain ⟨low', high', hlater, hend'⟩ := ih h
      refine ⟨low + low', low + high', range?_trans hfirst hlater, fun hwide => ?_⟩
      have hhigh := hend (hwide op (List.mem_cons_self ..))
      have hhigh' := hend' fun op' hop' => hwide op' (List.mem_cons_of_mem _ hop')
      obtain ⟨⟨hle, -⟩, -⟩ := range?_eq_some.mp hfirst
      rw [size_of_range? hfirst] at hhigh'
      omega

/-- **A session never leaves its view.** After any operations, failed or not, the view shows the
bytes of the first one from its offset on, and the offset and the length stay within the length of
the first. The next operation keeps to that. It never moves the start back or the end on, and it
moves the end at all only if the session goes on in a part of the view. And if it fails, it has
taken exactly what `spoilt` says: nothing for most, and for the others their first part. -/
theorem run_stays_inside {ops : List Operation} (h : base.run ops = some v) :
    v.Inside base ∧
    ((∀ op ∈ ops, op.narrows = false) → v.offsetFrom base + v.size = base.size) ∧
    ∀ op, (v.step op = none ↔ ¬ op.InRange v) ∧
      ∀ answer w, v.step op = some (answer, w) →
        w.Inside base ∧
        (v.offsetFrom base ≤ w.offsetFrom base ∧
          w.offsetFrom base + w.size ≤ v.offsetFrom base + v.size) ∧
        (op.narrows = false →
          w.offsetFrom base + w.size = v.offsetFrom base + v.size) ∧
        ∀ cause, answer = .error cause → w = v.advance (op.spoilt v.bytes) := by
  obtain ⟨low, high, hrun, hend⟩ := exists_range_of_run h
  obtain ⟨⟨hle, -⟩, -⟩ := range?_eq_some.mp hrun
  have hsize := size_of_range? hrun
  have hoffset := offsetFrom_of_range? hrun
  refine ⟨inside_of_range? hrun, fun hwide => ?_, fun op => ⟨step_eq_none, ?_⟩⟩
  · have hhigh := hend hwide
    omega
  · intro answer w hstep
    obtain ⟨low', high', hrange, hend'⟩ := exists_range_of_step hstep
    obtain ⟨⟨hle', hhigh'⟩, -⟩ := range?_eq_some.mp hrange
    have hwhole := range?_trans hrun hrange
    have hsize' := size_of_range? hwhole
    have hoffset' := offsetFrom_of_range? hwhole
    refine ⟨inside_of_range? hwhole, ⟨by omega, by omega⟩, fun hwide => ?_, ?_⟩
    · have hsame := hend' hwide
      omega
    · rintro cause rfl
      exact eq_advance_of_step hstep

/-- A byte, and a longer length that is announced and missing. -/
def announcedView : View where
  start := 2
  bytes := [3, 0xff, 0xff, 0xff, 0xff, 1, 2, 0x80]
  order := .little

/-- The length is missing, so its announcement is lost. Behind it is a block, of which the length
is lost. -/
theorem run_stays_inside_announcedView :
    announcedView.run [.read .byte, .read .initialLength] = some ⟨7, [1, 2, 0x80], .little⟩ ∧
    Inside ⟨7, [1, 2, 0x80], .little⟩ announcedView ∧
    step ⟨7, [1, 2, 0x80], .little⟩ (.read (.block 2)) =
      some (.error .unexpectedEnd, ⟨9, [0x80], .little⟩) ∧
    Inside ⟨9, [0x80], .little⟩ announcedView ∧
    (⟨9, [0x80], .little⟩ : View) = advance ⟨7, [1, 2, 0x80], .little⟩ 2 := by
  have hrun : announcedView.run [.read .byte, .read .initialLength] =
      some ⟨7, [1, 2, 0x80], .little⟩ := rfl
  have hstep : step ⟨7, [1, 2, 0x80], .little⟩ (.read (.block 2)) =
      some (.error .unexpectedEnd, ⟨9, [0x80], .little⟩) := rfl
  obtain ⟨hinside, -, hnext⟩ := run_stays_inside hrun
  obtain ⟨hinside', -, -, hfault⟩ := (hnext (.read (.block 2))).2 _ _ hstep
  exact ⟨hrun, hinside, hstep, hinside', hfault _ rfl⟩

end View

end Dwarf
