import Dwarf.Proofs.Bytes.Taken
import Dwarf.Proofs.Bytes.Tiling
/-!
# Reading with the operations of a machine

A machine computes with words of 64 bits and with slices of its memory, and some of its
operations have no result: a sum that is no word, a slice that goes past its buffer, an index
of no element. Such an operation ends the program. Here it is a `Trap`, which is neither a
value nor a fault, and reading is written out once more in these operations, with the checks
that the library makes before them and no others. The lengths of slices are the only words
that come from the machine itself; all others were read.

A decoder just takes its bytes. That a reader `Computes` a decoder says that it reads the same,
and that no run of it traps:

> `Computes.bind` and `Computes.loop`: readers that do so can be put together.

A loop that goes on without having read anything would not end, so this too is a trap. Memory
is taken to be large enough for what is read.
-/

namespace Dwarf

/-- Why an operation of the machine has no result. -/
inductive Trap where
  /-- A sum or a difference is no word of 64 bits. -/
  | overflow
  /-- A slice does not lie in its buffer. -/
  | range
  /-- An index is not that of an element. -/
  | index
  /-- The bytes given for an integer are not as many as it has. -/
  | width
  /-- A declaration was made with code zero. -/
  | zeroCode
  /-- A specification was made with a constant that its form does not have, or without one that
  it has. -/
  | constant
  /-- A loop went on without having read anything. -/
  | standstill
  deriving DecidableEq, Repr

namespace Machine

variable {α β σ : Type}

/-- The length of the longest slice. -/
def maxLength : Nat := 0x7fffffffffffffff

/-! ### Operations that may have no result -/

/-- The sum of two words. -/
def add (a b : Nat) : Except Trap Nat :=
  if a + b < 0x10000000000000000 then .ok (a + b) else .error .overflow

/-- The difference of two words. -/
def sub (a b : Nat) : Except Trap Nat := if b ≤ a then .ok (a - b) else .error .overflow

/-- The slice of a buffer that ends at `stop`. -/
def before (buffer : List α) (stop : Nat) : Except Trap (List α) :=
  if stop ≤ buffer.length then .ok (buffer.take stop) else .error .range

/-- The slice of a buffer that starts at `start`. -/
def behind (buffer : List α) (start : Nat) : Except Trap (List α) :=
  if start ≤ buffer.length then .ok (buffer.drop start) else .error .range

/-- The element at an index. -/
def element (elements : Array α) (index : Nat) : Except Trap α :=
  match elements[index]? with
  | some x => .ok x
  | none => .error .index

/-- The integer of `width` bytes that a buffer is. -/
def integer (order : ByteOrder) (width : Nat) (buffer : Bytes) : Except Trap Nat :=
  if buffer.length = width ∧ 1 ≤ width ∧ width ≤ 8 then .ok (order.decode buffer)
  else .error .width

theorem add_eq {a b : Nat} (h : a + b < 0x10000000000000000) : add a b = .ok (a + b) := if_pos h

theorem sub_eq {a b : Nat} (h : b ≤ a) : sub a b = .ok (a - b) := if_pos h

theorem before_eq {buffer : List α} {stop : Nat} (h : stop ≤ buffer.length) :
    before buffer stop = .ok (buffer.take stop) := if_pos h

theorem behind_eq {buffer : List α} {start : Nat} (h : start ≤ buffer.length) :
    behind buffer start = .ok (buffer.drop start) := if_pos h

theorem element_eq {elements : Array α} {index : Nat} {x : α} (h : elements[index]? = some x) :
    element elements index = .ok x := by rw [element, h]

theorem integer_eq {order : ByteOrder} {width : Nat} {buffer : Bytes}
    (hlen : buffer.length = width) (hwidth : 1 ≤ width ∧ width ≤ 8) :
    integer order width buffer = .ok (order.decode buffer) := if_pos ⟨hlen, hwidth⟩

/-! ### Readers -/

/-- A computation that moves forward in a buffer, unless it traps. -/
structure Reader (α : Type) where
  /-- Read from the start of a buffer. -/
  run : Bytes → Except Trap (Outcome α)

namespace Reader

/-- Readers run one after another, and a trap ends the run like a fault does. -/
instance : Monad Reader where
  pure value := ⟨fun bs => .ok (.ok value bs)⟩
  bind r f := ⟨fun bs =>
    match r.run bs with
    | .error trap => .error trap
    | .ok (.fault cause rest) => .ok (.fault cause rest)
    | .ok (.ok value rest) => (f value).run rest⟩

/-- Give up, having read nothing. -/
def fail (cause : Fault) : Reader α := ⟨fun bs => .ok (.fault cause bs)⟩

/-- An operation that reads nothing. -/
def lift (x : Except Trap α) : Reader α := ⟨fun bs => x.map (.ok · bs)⟩

/-- The number of bytes that are left. -/
def remaining : Reader Nat := ⟨fun bs => .ok (.ok bs.length bs)⟩

/-- Read with `r` from another buffer. What it leaves of it comes with its value. -/
def within (inner : Bytes) (r : Reader α) : Reader (α × Bytes) where
  run bs :=
    match r.run inner with
    | .error trap => .error trap
    | .ok (.fault cause _) => .ok (.fault cause bs)
    | .ok (.ok value rest) => .ok (.ok (value, rest) bs)

/-- Run `step` from state to state until it gives a value. -/
def loopFrom (step : σ → Reader (σ ⊕ β)) (state : σ) (bs : Bytes) : Except Trap (Outcome β) :=
  match (step state).run bs with
  | .error trap => .error trap
  | .ok (.fault cause rest) => .ok (.fault cause rest)
  | .ok (.ok (.inr value) rest) => .ok (.ok value rest)
  | .ok (.ok (.inl next) rest) =>
    if _h : rest.length < bs.length then loopFrom step next rest else .error .standstill
  termination_by bs.length

/-- Run `step` from state to state until it gives a value. -/
def loop (step : σ → Reader (σ ⊕ β)) (state : σ) : Reader β := ⟨loopFrom step state⟩

/-! ### What a reader computes -/

/-- On every buffer of at most `limit` bytes the reader reads what the decoder reads. -/
def Computes (limit : Nat) (r : Reader α) (d : Decoder α) : Prop :=
  ∀ bs : Bytes, bs.length ≤ limit → r.run bs = .ok (d.run bs)

variable {limit : Nat} {r : Reader α} {d : Decoder α} {k : α → Reader β} {f : α → Decoder β}

theorem computes_pure (value : α) : (pure value : Reader α).Computes limit (pure value) :=
  fun _ _ => rfl

theorem computes_fail (cause : Fault) :
    (fail cause : Reader α).Computes limit (Decoder.fail cause) := fun _ _ => rfl

/-- Of what comes second, only runs on values that come first matter. -/
theorem Computes.bind_of (hr : r.Computes limit d) (hd : d.Forward)
    (hk : ∀ value bs rest, bs.length ≤ limit → d.run bs = .ok value rest →
      (k value).Computes limit (f value)) :
    (r >>= k).Computes limit (d >>= f) := by
  intro bs hlen
  show (match r.run bs with
    | .error trap => .error trap
    | .ok (.fault cause rest) => .ok (.fault cause rest)
    | .ok (.ok value rest) => (k value).run rest) = Except.ok ((d >>= f).run bs)
  rw [hr bs hlen, Decoder.run_bind]
  cases hrun : d.run bs with
  | ok value rest =>
    exact hk value bs rest hlen hrun rest (Nat.le_trans (hd.length_le hrun) hlen)
  | fault cause rest => rfl

theorem Computes.bind (hr : r.Computes limit d) (hd : d.Forward)
    (hk : ∀ value, (k value).Computes limit (f value)) :
    (r >>= k).Computes limit (d >>= f) := hr.bind_of hd fun value _ _ _ _ => hk value

theorem Computes.lift_bind {x : Except Trap α} {value : α} {e : Decoder β} (hx : x = .ok value)
    (hk : (k value).Computes limit e) : (lift x >>= k).Computes limit e := by
  subst hx
  exact hk

theorem Computes.ite {p : Prop} [Decidable p] {r' : Reader α} {d' : Decoder α}
    (hpos : p → r.Computes limit d) (hneg : ¬ p → r'.Computes limit d') :
    (if p then r else r').Computes limit (if p then d else d') := by
  by_cases h : p
  · rw [if_pos h, if_pos h]
    exact hpos h
  · rw [if_neg h, if_neg h]
    exact hneg h

theorem Computes.within (hr : r.Computes limit d) {inner : Bytes} (hlen : inner.length ≤ limit) :
    (r.within inner).Computes limit (d.within inner) := by
  intro bs _
  simp only [Reader.within, Decoder.within, hr inner hlen]
  cases d.run inner <;> rfl

/-- A loop computes what is read in turns, if its steps compute the turns. -/
theorem Computes.loop {step : σ → Reader (σ ⊕ β)} {f : σ → Decoder (σ ⊕ β)} {d : σ → Decoder β}
    (hstep : ∀ s, (step s).Computes limit (f s)) (hd : Decoder.Loops f d) (s : σ) :
    (loop step s).Computes limit (d s) := by
  intro bs hlen
  show loopFrom step s bs = _
  induction hn : bs.length using Nat.strongRecOn generalizing s bs with
  | ind n ih =>
    rw [loopFrom, hstep s bs hlen, hd.run s bs]
    cases hrun : (f s).run bs with
    | fault cause rest => rfl
    | ok result rest =>
      cases result with
      | inr value => rfl
      | inl next =>
        have hless := hd.more hrun
        simp only [dif_pos hless]
        exact ih rest.length (by omega) next rest (by omega) rfl

/-! ### Primitives -/

/-- The next `count` bytes, of which the length is checked first. -/
def slice (count : Nat) : Reader Bytes where
  run bs :=
    if bs.length < count then .ok (.fault .unexpectedEnd bs)
    else do
      let head ← before bs count
      let rest ← behind bs count
      return .ok head rest

/-- The next byte, as the first of a slice of one. -/
def byte : Reader Nat := do
  let head ← slice 1
  let b ← lift (element head.toArray 0)
  return b.toNat

/-- An unsigned integer of `width` bytes. -/
def uint (order : ByteOrder) (width : Nat) : Reader Nat := do
  let head ← slice width
  lift (integer order width head)

/-- How far away the next byte of this value is. -/
def find (byte : UInt8) : Reader Nat where
  run bs :=
    match bs.findIdx? (· == byte) with
    | some index => .ok (.ok index bs)
    | none => .ok (.fault .unexpectedEnd bs)

/-- The bytes up to the next zero byte, which is found first and passed over last. -/
def terminated : Reader Bytes := do
  let index ← find 0
  let text ← slice index
  let _ ← slice 1
  return text

theorem computes_slice (count : Nat) : (slice count).Computes limit (Decoder.take count) := by
  intro bs _
  by_cases h : bs.length < count
  · rw [Decoder.take_of_short h]
    exact if_pos h
  · have hle : count ≤ bs.length := Nat.le_of_not_lt h
    rw [Decoder.take_of_le hle]
    simp only [slice, if_neg h, before_eq hle, behind_eq hle]
    rfl

theorem computes_byte : byte.Computes limit Decoder.byte := by
  intro bs _
  cases bs with
  | nil => rfl
  | cons b bs => rfl

theorem computes_uint (order : ByteOrder) {width : Nat} (h : 1 ≤ width ∧ width ≤ 8) :
    (uint order width).Computes limit (Decoder.uint order width) := by
  refine (computes_slice width).bind_of (Decoder.forward_take width) ?_
  intro head bs rest _ htake
  rw [integer_eq (Decoder.take_eq_ok htake).2 h]
  exact computes_pure _

theorem computes_terminated : terminated.Computes limit Decoder.terminated := by
  intro bs _
  by_cases hmem : 0 ∈ bs
  · obtain ⟨text, rest, rfl, htext⟩ := List.eq_append_cons_of_mem hmem
    have hne : ∀ b ∈ text, b ≠ 0 := fun b hb hzero => htext (hzero ▸ hb)
    have hfind : (text ++ 0 :: rest).findIdx? (· == 0) = some text.length := by
      rw [List.findIdx?_append, List.findIdx?_eq_none_iff.mpr (by simpa using hne)]
      simp [List.findIdx?_cons]
    have hslice := computes_slice text.length (text ++ 0 :: rest) (Nat.le_refl _)
    rw [Decoder.take_append] at hslice
    rw [Decoder.terminated_append hne]
    show (find 0 >>= _).run _ = _
    simp only [bind, find, hfind, hslice]
    rfl
  · have hne : ∀ b ∈ bs, b ≠ 0 := fun b hb hzero => hmem (hzero ▸ hb)
    have hfind : bs.findIdx? (· == 0) = none := List.findIdx?_eq_none_iff.mpr (by simpa using hne)
    have hdrop : bs.dropWhile (· != 0) = [] := by
      rw [← List.append_nil bs, List.dropWhile_append_of_pos fun b hb => bne_iff_ne.mpr (hne b hb)]
      rfl
    show (find 0 >>= _).run _ = _
    simp only [bind, find, hfind, Decoder.terminated, hdrop]

end Reader

/-! ### Iterators -/

/-- What the call of `next` gives that comes after `count` others. -/
def call (next : σ → Except Trap (Except Fault (Option α) × σ)) (state : σ) :
    (count : Nat) → Except Trap (Except Fault (Option α))
  | 0 => do
    let (answer, _) ← next state
    return answer
  | count + 1 => do
    let (_, state) ← next state
    call next state count

/-- An iterator that keeps step with a cursor gives what the cursor does. -/
theorem call_eq {next : σ → Except Trap (Except Fault (Option α) × σ)} {item : Item α}
    {R : σ → Cursor → Prop}
    (hnext : ∀ state c, R state c →
      ∃ state', next state = .ok ((c.next item).1, state') ∧ R state' (c.next item).2)
    {state : σ} {c : Cursor} (h : R state c) (count : Nat) :
    call next state count = .ok (c.answer item count) := by
  induction count generalizing state c with
  | zero =>
    obtain ⟨state', hstep, -⟩ := hnext state c h
    rw [call, hstep]
    rfl
  | succ count ih =>
    obtain ⟨state', hstep, h'⟩ := hnext state c h
    rw [call, hstep]
    exact ih h'

end Machine

end Dwarf
