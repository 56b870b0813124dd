import Dwarf.Proofs.Bytes.Taken
/-!
# Counting what is read

How much a decoder does is not to be seen in what it gives. A `Metered` decoder counts the items
that it begins, and it has no outcome where a loop would go on without having read anything. What
an item is, and where the loops are, is for each decoder to say.

> `Pays`: a run ends with this outcome, and began no more items than it took bytes.

Such runs can be put together, since what was taken adds up. An item pays for itself if it takes a
byte even where it ends with a fault (`Decoder.Hungry`), and so a loop is paid for however little
is read between its items.

> `Meters`: a metered decoder reads what a decoder reads, and pays for it, on any bytes.
>
> `pays_loop`, `Meters.loop`: a loop is paid for if its steps are.

A decoder that counts too little pays as well. That all items are counted can be seen in the values
that are made of them, and is put together from part to part like the runs.

> `Counts`: the value tells how many items were begun. `Counts.bind`, `Counts.loop`: they add up.
-/

namespace Dwarf

/-- A decoder that counts the items it begins. A run that would not end has no outcome. -/
structure Metered (α : Type) where
  /-- Read from the front of a byte string. -/
  run : Bytes → Option (Outcome α × Nat)

namespace Metered

variable {α β σ : Type}

/-- What is begun by one after the other is counted together. -/
instance : Monad Metered where
  pure value := ⟨fun bs => some (.ok value bs, 0)⟩
  bind m f := ⟨fun bs =>
    match m.run bs with
    | none => none
    | some (.fault cause rest, count) => some (.fault cause rest, count)
    | some (.ok value rest, count) =>
      ((f value).run rest).map fun (outcome, more) => (outcome, count + more)⟩

/-- Give up, having begun nothing. -/
def fail (cause : Fault) : Metered α := ⟨fun bs => some (.fault cause bs, 0)⟩

/-- The number of bytes that are left. -/
def remaining : Metered Nat := ⟨fun bs => some (.ok bs.length bs, 0)⟩

/-- Read something that is no item. -/
def free (d : Decoder α) : Metered α := ⟨fun bs => some (d.run bs, 0)⟩

/-- Read an item. Where nothing is left, none is begun. -/
def item (d : Decoder α) : Metered α := ⟨fun bs => some (d.run bs, if bs.isEmpty then 0 else 1)⟩

/-- Run `step` from state to state until it gives a value. -/
def loopFrom (step : σ → Metered (σ ⊕ β)) (state : σ) (bs : Bytes) : Option (Outcome β × Nat) :=
  match (step state).run bs with
  | none => none
  | some (.fault cause rest, count) => some (.fault cause rest, count)
  | some (.ok (.inr value) rest, count) => some (.ok value rest, count)
  | some (.ok (.inl next) rest, count) =>
    if _h : rest.length < bs.length then
      (loopFrom step next rest).map fun (outcome, more) => (outcome, count + more)
    else none
  termination_by bs.length

/-- Run `step` from state to state until it gives a value. -/
def loop (step : σ → Metered (σ ⊕ β)) (state : σ) : Metered β := ⟨loopFrom step state⟩

/-! ### Runs that pay for what they begin -/

/-- The run ends with this outcome, and has begun no more items than it has taken bytes. -/
def Pays (m : Metered α) (bs : Bytes) (outcome : Outcome α) : Prop :=
  ∃ count, m.run bs = some (outcome, count) ∧ count + outcome.rest.length ≤ bs.length

variable {m : Metered α} {f : α → Metered β} {bs mid : Bytes} {value : α} {outcome : Outcome β}

theorem pays_pure (value : α) (bs : Bytes) : (pure value : Metered α).Pays bs (.ok value bs) :=
  ⟨0, rfl, Nat.le_of_eq (Nat.zero_add _)⟩

theorem pays_fail (cause : Fault) (bs : Bytes) :
    (fail cause : Metered α).Pays bs (.fault cause bs) :=
  ⟨0, rfl, Nat.le_of_eq (Nat.zero_add _)⟩

theorem pays_remaining (bs : Bytes) : remaining.Pays bs (.ok bs.length bs) :=
  ⟨0, rfl, Nat.le_of_eq (Nat.zero_add _)⟩

theorem pays_free {d : Decoder α} (hd : d.Forward) (bs : Bytes) : (free d).Pays bs (d.run bs) :=
  ⟨0, rfl, by rw [Nat.zero_add]; exact (hd bs).length_le⟩

/-- The byte that an item takes pays for it. -/
theorem pays_item {d : Decoder α} (hd : d.Forward) (hungry : d.Hungry) (bs : Bytes) :
    (item d).Pays bs (d.run bs) := by
  refine ⟨if bs.isEmpty then 0 else 1, rfl, ?_⟩
  by_cases hnil : bs.isEmpty = true
  · rw [if_pos hnil, Nat.zero_add]
    exact (hd bs).length_le
  · rw [if_neg hnil, Nat.add_comm]
    exact hungry bs fun h => hnil (List.isEmpty_iff.mpr h)

theorem Pays.bind (hm : m.Pays bs (.ok value mid)) (hf : (f value).Pays mid outcome) :
    (m >>= f).Pays bs outcome := by
  obtain ⟨first, hrun, hfirst⟩ := hm
  obtain ⟨later, hrun', hlater⟩ := hf
  refine ⟨first + later, ?_, ?_⟩
  · simp only [Bind.bind, hrun, hrun', Option.map_some]
  · have hmid : first + mid.length ≤ bs.length := hfirst
    omega

theorem Pays.bind_fault {cause : Fault} {rest : Bytes} (hm : m.Pays bs (.fault cause rest)) :
    (m >>= f).Pays bs (.fault cause rest) := by
  obtain ⟨count, hrun, hcount⟩ := hm
  exact ⟨count, by simp only [Bind.bind, hrun], hcount⟩

section Loop

variable {step : σ → Metered (σ ⊕ β)} {state next : σ} {rest : Bytes}

theorem Pays.loop_fault {cause : Fault} (h : (step state).Pays bs (.fault cause rest)) :
    (loop step state).Pays bs (.fault cause rest) := by
  obtain ⟨count, hrun, hcount⟩ := h
  refine ⟨count, ?_, hcount⟩
  show loopFrom step state bs = _
  rw [loopFrom, hrun]

theorem Pays.loop_done {result : β} (h : (step state).Pays bs (.ok (.inr result) rest)) :
    (loop step state).Pays bs (.ok result rest) := by
  obtain ⟨count, hrun, hcount⟩ := h
  refine ⟨count, ?_, hcount⟩
  show loopFrom step state bs = _
  rw [loopFrom, hrun]

/-- A turn that has taken a byte may be followed by another. -/
theorem Pays.loop_more (h : (step state).Pays bs (.ok (.inl next) rest))
    (hless : rest.length < bs.length) (hlater : (loop step next).Pays rest outcome) :
    (loop step state).Pays bs outcome := by
  obtain ⟨first, hrun, hfirst⟩ := h
  obtain ⟨later, hrun', hcount⟩ := hlater
  have hfirst : first + rest.length ≤ bs.length := hfirst
  refine ⟨first + later, ?_, by omega⟩
  have hrun' : loopFrom step next rest = some (outcome, later) := hrun'
  show loopFrom step state bs = _
  rw [loopFrom, hrun]
  simp only [dif_pos hless, hrun', Option.map_some]

end Loop

/-! ### Metered decoders -/

/-- The metered decoder reads what the decoder reads, and pays for it. -/
def Meters (m : Metered α) (d : Decoder α) : Prop := ∀ bs, m.Pays bs (d.run bs)

variable {d : Decoder α} {g : α → Decoder β}

theorem meters_pure (value : α) : (pure value : Metered α).Meters (pure value) := pays_pure value

theorem meters_fail (cause : Fault) : (fail cause : Metered α).Meters (Decoder.fail cause) :=
  pays_fail cause

theorem meters_free (hd : d.Forward) : (free d).Meters d := pays_free hd

theorem meters_item (hd : d.Forward) (hungry : d.Hungry) : (item d).Meters d :=
  pays_item hd hungry

theorem Meters.bind (hm : m.Meters d) (hf : ∀ value, (f value).Meters (g value)) :
    (m >>= f).Meters (d >>= g) := by
  intro bs
  have hfirst := hm bs
  rw [Decoder.run_bind]
  cases hrun : d.run bs with
  | ok value mid =>
    rw [hrun] at hfirst
    exact hfirst.bind (hf value mid)
  | fault cause rest =>
    rw [hrun] at hfirst
    exact hfirst.bind_fault

theorem Meters.ite {p : Prop} [Decidable p] {m' : Metered α} {d' : Decoder α} (hpos : m.Meters d)
    (hneg : m'.Meters d') : (if p then m else m').Meters (if p then d else d') := by
  by_cases h : p
  · rw [if_pos h, if_pos h]
    exact hpos
  · rw [if_neg h, if_neg h]
    exact hneg

/-- A loop whose steps are metered is paid for, and what is known of its runs from the last turn on
is known from each turn before it. -/
theorem pays_loop {step : σ → Metered (σ ⊕ β)} {g : σ → Decoder (σ ⊕ β)}
    {R : σ → Bytes → Outcome β → Prop} (hstep : ∀ s, (step s).Meters (g s))
    (hfault : ∀ {s bs cause rest}, (g s).run bs = .fault cause rest → R s bs (.fault cause rest))
    (hdone : ∀ {s bs value rest}, (g s).run bs = .ok (.inr value) rest → R s bs (.ok value rest))
    (hmore : ∀ {s bs next rest}, (g s).run bs = .ok (.inl next) rest →
      rest.length < bs.length ∧ ∀ outcome, R next rest outcome → R s bs outcome)
    (s : σ) (bs : Bytes) : ∃ outcome, (loop step s).Pays bs outcome ∧ R s bs outcome := by
  induction hn : bs.length using Nat.strongRecOn generalizing s bs with
  | ind n ih =>
    have hturn := hstep s bs
    cases hrun : (g s).run bs with
    | fault cause rest =>
      rw [hrun] at hturn
      exact ⟨_, hturn.loop_fault, hfault hrun⟩
    | ok result rest =>
      rw [hrun] at hturn
      cases result with
      | inr value => exact ⟨_, hturn.loop_done, hdone hrun⟩
      | inl next =>
        obtain ⟨hless, hback⟩ := hmore hrun
        obtain ⟨outcome, hlater, houtcome⟩ := ih rest.length (by omega) next rest rfl
        exact ⟨outcome, hturn.loop_more hless hlater, hback outcome houtcome⟩

theorem Meters.loop {step : σ → Metered (σ ⊕ β)} {g : σ → Decoder (σ ⊕ β)} {d : σ → Decoder β}
    (hstep : ∀ s, (step s).Meters (g s)) (hd : Decoder.Loops g d) (s : σ) :
    (loop step s).Meters (d s) := by
  intro bs
  obtain ⟨outcome, hpays, rfl⟩ : ∃ outcome, (Metered.loop step s).Pays bs outcome ∧
      outcome = (d s).run bs := by
    refine pays_loop (R := fun s bs outcome => outcome = (d s).run bs) hstep ?_ ?_ ?_ s bs
    · intro s bs cause rest hrun
      rw [hd.run s bs, hrun]
    · intro s bs value rest hrun
      rw [hd.run s bs, hrun]
    · intro s bs next rest hrun
      refine ⟨hd.more hrun, fun outcome houtcome => ?_⟩
      rw [hd.run s bs, hrun, houtcome]
  exact hpays

/-- The answer that a turn leads to, if `later` gives the one from each state on. -/
def answerOf (later : σ → Bytes → Except Fault β) : Outcome (σ ⊕ β) → Except Fault β
  | .fault cause _ => .error cause
  | .ok (.inr value) _ => .ok value
  | .ok (.inl next) rest => later next rest

/-- Of a loop only the answer may be known, and not what it leaves. -/
theorem pays_loop_answer {step : σ → Metered (σ ⊕ β)} {g : σ → Decoder (σ ⊕ β)}
    {answer : σ → Bytes → Except Fault β} (hstep : ∀ s, (step s).Meters (g s))
    (hmore : ∀ {s bs next rest}, (g s).run bs = .ok (.inl next) rest → rest.length < bs.length)
    (hanswer : ∀ s bs, answer s bs = answerOf answer ((g s).run bs)) (s : σ) (bs : Bytes) :
    ∃ outcome, (loop step s).Pays bs outcome ∧ outcome.toExcept = answer s bs := by
  refine pays_loop (R := fun s bs outcome => outcome.toExcept = answer s bs) hstep ?_ ?_ ?_ s bs
  · intro s bs cause rest hrun
    rw [hanswer, hrun]
    rfl
  · intro s bs value rest hrun
    rw [hanswer, hrun]
    rfl
  · intro s bs next rest hrun
    refine ⟨hmore hrun, fun outcome houtcome => ?_⟩
    rw [hanswer, hrun, houtcome]
    rfl

/-- So many items are begun as are bytes, at most. -/
theorem Pays.exists_count {outcome : Outcome α} (h : m.Pays bs outcome) :
    ∃ count, m.run bs = some (outcome, count) ∧ count ≤ bs.length := by
  obtain ⟨count, hrun, hcount⟩ := h
  exact ⟨count, hrun, by omega⟩

/-! ### What has been counted -/

/-- The value of a run that succeeds and the number of items it has begun are as `R` says. -/
def Counts (m : Metered α) (R : α → Nat → Prop) : Prop :=
  ∀ ⦃bs value rest count⦄, m.run bs = some (.ok value rest, count) → R value count

variable {R : α → Nat → Prop}

theorem Counts.pure {value : α} (h : R value 0) : Counts (pure value) R := by
  intro bs value rest count hrun
  cases hrun
  exact h

theorem Counts.fail (cause : Fault) : Counts (fail cause) R := by
  intro bs value rest count hrun
  cases hrun

theorem Counts.remaining : Counts remaining fun _ count => count = 0 := by
  intro bs value rest count hrun
  cases hrun
  rfl

theorem Counts.free : Counts (free d) fun _ count => count = 0 := by
  intro bs value rest count hrun
  obtain ⟨-, rfl⟩ := Prod.mk.inj (Option.some.inj hrun)
  rfl

/-- What can be read was begun. -/
theorem Counts.item (hd : d.Consuming) : Counts (item d) fun _ count => count = 1 := by
  intro bs value rest count hrun
  obtain ⟨hread, rfl⟩ := Prod.mk.inj (Option.some.inj hrun)
  rw [hd.isEmpty_eq_false hread]
  rfl

theorem Counts.ite {p : Prop} [Decidable p] {m' : Metered α} (hpos : p → Counts m R)
    (hneg : ¬ p → Counts m' R) : Counts (if p then m else m') R := by
  by_cases h : p
  · rw [if_pos h]
    exact hpos h
  · rw [if_neg h]
    exact hneg h

theorem Counts.bind {first : α → Nat → Prop} {R : β → Nat → Prop} (hm : Counts m first)
    (hf : ∀ value count, first value count →
      Counts (f value) fun result more => R result (count + more)) :
    Counts (m >>= f) R := by
  intro bs result rest count hrun
  simp only [Bind.bind] at hrun
  split at hrun
  · cases hrun
  · cases hrun
  · next value mid before hfirst =>
    obtain ⟨⟨outcome, more⟩, hlater, heq⟩ := Option.map_eq_some_iff.mp hrun
    cases heq
    exact hf value before (hm hfirst) hlater

/-- `I` holds of each state and what was counted until then, if a turn keeps it. -/
theorem Counts.loop {step : σ → Metered (σ ⊕ β)} {I : σ → Nat → Prop} {R : β → Nat → Prop}
    (hstep : ∀ s count, I s count → Counts (step s) fun result more =>
      match result with
      | .inl next => I next (count + more)
      | .inr value => R value (count + more))
    {s : σ} (hs : I s 0) : Counts (loop step s) R := by
  intro bs value rest count hrun
  change loopFrom step s bs = some (.ok value rest, count) at hrun
  suffices hall : ∀ before, I s before → R value (before + count) by
    have htold := hall 0 hs
    rwa [Nat.zero_add] at htold
  clear hs
  induction hn : bs.length using Nat.strongRecOn generalizing s bs count with
  | ind n ih =>
    intro before hbefore
    rw [loopFrom] at hrun
    split at hrun
    · cases hrun
    · cases hrun
    · next result rest' count' hturn =>
      cases hrun
      exact hstep s before hbefore hturn
    · next next mid count' hturn =>
      split at hrun
      · next hless =>
        obtain ⟨⟨outcome, more⟩, hlater, heq⟩ := Option.map_eq_some_iff.mp hrun
        cases heq
        rw [← Nat.add_assoc]
        exact ih mid.length (hn ▸ hless) hlater rfl _ (hstep s before hbefore hturn)
      · cases hrun

end Metered

end Dwarf
