import Dwarf.Encoding
import Dwarf.Fault
/-!
# Reading a value off the front of a byte string

A `Decoder` takes bytes from the front of a string. It ends with a value or with
a fault, and in both cases hands back what it left unread: a decoder that fails
half way has consumed what it looked at, and a caller can see how much.

The primitives are `byte`, `take`, `uint` and `terminated`. Each of them, when
it fails, has consumed nothing; the composed ones consume what their first parts
did. All of them only ever move forward:

> `Forward`: what a run leaves unread is a suffix of what it was given.

> `Consuming`: a run that succeeds has taken at least one byte.

Both compose (`Forward.bind`, `Consuming.bind`), and the second is what ends every
loop over the bytes of a section.
-/

namespace Dwarf

/-- How a run ended, and what it left unread. -/
inductive Outcome (α : Type) where
  /-- A value was read. -/
  | ok (value : α) (rest : Bytes)
  /-- Reading stopped. -/
  | fault (cause : Fault) (rest : Bytes)
  deriving DecidableEq, Repr

namespace Outcome

variable {α : Type}

/-- What was left unread, whether or not a value was read. -/
def rest : Outcome α → Bytes
  | ok _ rest => rest
  | fault _ rest => rest

/-- The value or the fault, without the bytes that were left. -/
def toExcept : Outcome α → Except Fault α
  | ok value _ => .ok value
  | fault cause _ => .error cause

end Outcome

/-- A computation that consumes bytes from the front of a string. -/
structure Decoder (α : Type) where
  /-- Read from the front of a byte string. -/
  run : Bytes → Outcome α

namespace Decoder

variable {α β : Type}

/-- Give up, having consumed nothing. -/
def fail (cause : Fault) : Decoder α := ⟨.fault cause⟩

/-- Decoders run one after another, each on what the one before left. A fault
ends the run where it arose. -/
instance : Monad Decoder where
  pure value := ⟨.ok value⟩
  bind d f := ⟨fun bs =>
    match d.run bs with
    | .ok value rest => (f value).run rest
    | .fault cause rest => .fault cause rest⟩

@[simp] theorem run_pure (value : α) (bs : Bytes) :
    (pure value : Decoder α).run bs = .ok value bs := rfl

@[simp] theorem run_fail (cause : Fault) (bs : Bytes) :
    (fail cause : Decoder α).run bs = .fault cause bs := rfl

theorem run_bind (d : Decoder α) (f : α → Decoder β) (bs : Bytes) :
    (d >>= f).run bs = match d.run bs with
      | .ok value rest => (f value).run rest
      | .fault cause rest => .fault cause rest := rfl

/-- Decoders that run alike are the same. -/
theorem ext {d e : Decoder α} (h : ∀ bs, d.run bs = e.run bs) : d = e := by
  cases d
  cases e
  exact congrArg mk (funext h)

instance : LawfulMonad Decoder :=
  LawfulMonad.mk' Decoder
    (fun d => ext fun bs => by
      show (d >>= fun value => pure value).run bs = d.run bs
      rw [run_bind]
      cases d.run bs <;> rfl)
    (fun _ _ => rfl)
    (fun d f g => ext fun bs => by
      simp only [run_bind]
      cases d.run bs <;> rfl)

/-- Run a decoder on `bs` for its value alone. -/
def value (d : Decoder α) (bs : Bytes) : Except Fault α := (d.run bs).toExcept

/-! ### Primitives -/

/-- The next `count` bytes. -/
def take (count : Nat) : Decoder Bytes where
  run bs :=
    if (bs.take count).length = count then .ok (bs.take count) (bs.drop count)
    else .fault .unexpectedEnd bs

/-- The next byte, as a number. -/
def byte : Decoder Nat where
  run
    | [] => .fault .unexpectedEnd []
    | b :: bs => .ok b.toNat bs

/-- Pass over `count` bytes. -/
def skip (count : Nat) : Decoder PUnit := do
  let _ ← take count

/-- An unsigned integer of `width` bytes. -/
def uint (order : ByteOrder) (width : Nat) : Decoder Nat := do
  return order.decode (← take width)

/-- The bytes up to the next zero byte, which is consumed and not returned. -/
def terminated : Decoder Bytes where
  run bs :=
    match bs.dropWhile (· != 0) with
    | [] => .fault .unexpectedEnd bs
    | _ :: rest => .ok (bs.takeWhile (· != 0)) rest

/-- Read with `d`, but report any fault as `cause`. -/
def reporting (cause : Fault) (d : Decoder α) : Decoder α where
  run bs :=
    match d.run bs with
    | .ok value rest => .ok value rest
    | .fault _ rest => .fault cause rest

/-- Read with `d` from `inner` instead of from what follows here, which stays
unread. What `d` leaves of `inner` comes with its value. -/
def within (inner : Bytes) (d : Decoder α) : Decoder (α × Bytes) where
  run bs :=
    match d.run inner with
    | .ok value rest => .ok (value, rest) bs
    | .fault cause _ => .fault cause bs

/-! ### Fields whose width is data -/

/-- An unsigned integer of `width` bytes, for a width of one to eight. -/
def integer (order : ByteOrder) (width : Nat) : Decoder Nat :=
  if 1 ≤ width ∧ width ≤ 8 then uint order width else fail .offsetWidth

/-- An address of `size` bytes. Addresses have 1, 2, 4 or 8 of them. -/
def address (order : ByteOrder) (size : Nat) : Decoder Nat :=
  if size = 1 ∨ size = 2 ∨ size = 4 ∨ size = 8 then uint order size else fail (.addressSize size)

/-- An offset into a section. -/
def offset (order : ByteOrder) (format : Format) : Decoder Nat := uint order format.wordSize

/-- The length field that opens a unit, which also tells the format: four bytes
below `0xfffffff0`, or the escape `0xffffffff` and eight bytes more. -/
def initialLength (order : ByteOrder) : Decoder (Nat × Format) := do
  let short ← uint order 4
  if short < 0xfffffff0 then
    return (short, .dwarf32)
  else if short = 0xffffffff then
    let long ← uint order 8
    return (long, .dwarf64)
  else
    fail (.reservedLength short)

/-- A block of bytes after its length, which has `width` bytes: 1, 2 or 4. -/
def block (order : ByteOrder) (width : Nat) : Decoder Bytes :=
  if width = 1 ∨ width = 2 ∨ width = 4 then do
    let count ← uint order width
    take count
  else fail (.addressSize width)

/-! ### Runs only move forward -/

/-- What a run leaves unread is a suffix of what it was given. -/
def Forward (d : Decoder α) : Prop := ∀ bs, (d.run bs).rest <:+ bs

theorem Forward.pure (value : α) : Forward (pure value : Decoder α) :=
  fun bs => List.suffix_refl bs

theorem Forward.fail (cause : Fault) : Forward (fail cause : Decoder α) :=
  fun bs => List.suffix_refl bs

theorem Forward.bind {d : Decoder α} {f : α → Decoder β} (hd : Forward d)
    (hf : ∀ value, Forward (f value)) : Forward (d >>= f) := by
  intro bs
  have h := hd bs
  rw [run_bind]
  cases hr : d.run bs with
  | ok value rest =>
    rw [hr] at h
    exact (hf value rest).trans h
  | fault cause rest =>
    rw [hr] at h
    exact h

theorem Forward.ite {p : Prop} [Decidable p] {d e : Decoder α} (hd : Forward d)
    (he : Forward e) : Forward (if p then d else e) := by
  by_cases h : p
  · rw [if_pos h]
    exact hd
  · rw [if_neg h]
    exact he

/-- A run that succeeded left a suffix. -/
theorem Forward.suffix {d : Decoder α} (hd : Forward d) {bs rest : Bytes} {value : α}
    (h : d.run bs = .ok value rest) : rest <:+ bs := by
  have := hd bs
  rwa [h] at this

theorem Forward.length_le {d : Decoder α} (hd : Forward d) {bs rest : Bytes} {value : α}
    (h : d.run bs = .ok value rest) : rest.length ≤ bs.length :=
  (hd.suffix h).length_le

/-- A run that succeeds has taken at least one byte. -/
def Consuming (d : Decoder α) : Prop :=
  ∀ ⦃bs : Bytes⦄ ⦃value : α⦄ ⦃rest : Bytes⦄, d.run bs = .ok value rest → rest.length < bs.length

/-- It is enough that the first part of a decoder takes a byte. -/
theorem Consuming.bind {d : Decoder α} {f : α → Decoder β} (hd : Consuming d)
    (hf : ∀ value, Forward (f value)) : Consuming (d >>= f) := by
  intro bs value rest h
  rw [run_bind] at h
  cases hr : d.run bs with
  | ok first mid =>
    rw [hr] at h
    exact Nat.lt_of_le_of_lt ((hf first).length_le h) (hd hr)
  | fault cause mid =>
    rw [hr] at h
    cases h

theorem forward_take (count : Nat) : Forward (take count) := by
  intro bs
  unfold take
  by_cases h : (bs.take count).length = count
  · simp only [if_pos h]
    exact List.drop_suffix count bs
  · simp only [if_neg h]
    exact List.suffix_refl bs

theorem Forward.reporting {d : Decoder α} (hd : Forward d) (cause : Fault) :
    Forward (reporting cause d) := by
  intro bs
  have h := hd bs
  simp only [Decoder.reporting]
  cases hr : d.run bs <;> (rw [hr] at h; exact h)

theorem forward_within (inner : Bytes) (d : Decoder α) : Forward (within inner d) := by
  intro bs
  simp only [within]
  cases d.run inner <;> exact List.suffix_refl bs

theorem forward_byte : Forward byte := by
  intro bs
  cases bs with
  | nil => exact List.suffix_refl _
  | cons b bs => exact List.suffix_cons b bs

theorem forward_uint (order : ByteOrder) (width : Nat) : Forward (uint order width) :=
  (forward_take width).bind fun _ => .pure _

theorem forward_terminated : Forward terminated := by
  intro bs
  show (match bs.dropWhile (· != 0) with
    | [] => Outcome.fault .unexpectedEnd bs
    | _ :: rest => .ok (bs.takeWhile (· != 0)) rest).rest <:+ bs
  split
  · exact List.suffix_refl bs
  · next b rest h =>
    have : b :: rest <:+ bs := h ▸ List.dropWhile_suffix _
    exact (List.suffix_cons b rest).trans this

theorem forward_address (order : ByteOrder) (size : Nat) : Forward (address order size) :=
  (forward_uint order size).ite (.fail _)

theorem forward_offset (order : ByteOrder) (format : Format) : Forward (offset order format) :=
  forward_uint order format.wordSize

theorem forward_initialLength (order : ByteOrder) : Forward (initialLength order) :=
  (forward_uint order 4).bind fun _ =>
    .ite (.pure _) (.ite ((forward_uint order 8).bind fun _ => .pure _) (.fail _))

theorem forward_block (order : ByteOrder) (width : Nat) : Forward (block order width) :=
  .ite ((forward_uint order width).bind fun count => forward_take count) (.fail _)

/-! ### What the primitives read -/

theorem take_append (head rest : Bytes) :
    (take head.length).run (head ++ rest) = .ok head rest := by
  simp [take]

theorem take_of_le {count : Nat} {bs : Bytes} (h : count ≤ bs.length) :
    (take count).run bs = .ok (bs.take count) (bs.drop count) := if_pos (List.length_take_of_le h)

theorem take_of_short {count : Nat} {bs : Bytes} (h : bs.length < count) :
    (take count).run bs = .fault .unexpectedEnd bs := by
  have : (bs.take count).length ≠ count := by
    rw [List.length_take]
    omega
  exact if_neg this

/-- Bytes that were taken, and what was left, make up what was there. -/
theorem take_eq_ok {count : Nat} {bs head rest : Bytes} (h : (take count).run bs = .ok head rest) :
    bs = head ++ rest ∧ head.length = count := by
  by_cases hlen : (bs.take count).length = count
  · rw [take] at h
    simp only [if_pos hlen] at h
    injection h with h₁ h₂
    subst h₁ h₂
    exact ⟨(List.take_append_drop count bs).symm, hlen⟩
  · rw [take] at h
    simp only [if_neg hlen] at h
    cases h

/-- Taking a positive number of bytes takes at least one. -/
theorem consuming_take {count : Nat} (h : 0 < count) : Consuming (take count) := by
  intro bs head rest hr
  obtain ⟨rfl, hlen⟩ := take_eq_ok hr
  rw [List.length_append]
  omega

theorem consuming_uint (order : ByteOrder) {width : Nat} (h : 0 < width) :
    Consuming (uint order width) :=
  (consuming_take h).bind fun _ => .pure _

theorem consuming_initialLength (order : ByteOrder) : Consuming (initialLength order) :=
  (consuming_uint order (by decide)).bind fun _ =>
    .ite (.pure _) (.ite ((forward_uint order 8).bind fun _ => .pure _) (.fail _))

/-- Reading undoes writing: an integer that fits its width comes back. -/
theorem uint_encode (order : ByteOrder) {width value : Nat} (h : value < placeValue 256 width)
    (rest : Bytes) : (uint order width).run (order.encode width value ++ rest) = .ok value rest := by
  have ht := take_append (order.encode width value) rest
  rw [order.length_encode] at ht
  rw [uint, run_bind, ht]
  simp only [run_pure, ByteOrder.decode_encode, Nat.mod_eq_of_lt h]

/-- Text without a zero byte comes back from its terminated form. -/
theorem terminated_append {text : Bytes} (h : ∀ b ∈ text, b ≠ 0) (rest : Bytes) :
    terminated.run (text ++ 0 :: rest) = .ok text rest := by
  have hall : ∀ b ∈ text, (b != 0) = true := fun b hb => bne_iff_ne.mpr (h b hb)
  have hdrop : (text ++ 0 :: rest).dropWhile (· != 0) = 0 :: rest := by
    rw [List.dropWhile_append_of_pos hall]
    simp
  have htake : (text ++ 0 :: rest).takeWhile (· != 0) = text := by
    rw [List.takeWhile_append_of_pos hall]
    simp
  simp only [terminated, hdrop, htake]

/-- A string takes at least its zero byte. -/
theorem consuming_terminated : Consuming terminated := by
  intro bs text rest h
  simp only [terminated] at h
  split at h
  · cases h
  · next b tail hdrop =>
    injection h with _ h₂
    subst h₂
    have : b :: tail <:+ bs := hdrop ▸ List.dropWhile_suffix _
    exact Nat.lt_of_succ_le this.length_le

end Decoder

end Dwarf
