import Dwarf.Text.Utf8
/-!
# Bytes that are shown as text

The text of a string is told here by the characters of UTF-8 alone, that is, by the bytes that each
of them is written with. Bytes with which no character is written are lost. How many of them go
into one replacement character is settled by the Unicode standard: as many as some character begins
with, and at least one.

> `opens_cons_iff`: what a lead byte announces is what comes after it in some character.
>
> `isTextOf_iff`: the text that is shown for bytes is their characters and these replacements, in
> order, and no other text is.
-/

namespace Dwarf

namespace Utf8

/-- Some character is written with these bytes and maybe others behind them. -/
def Opens (run : Bytes) : Prop := ∃ c, run <+: String.utf8EncodeChar c

/-- No character starts at `run`, and it is as much as some character begins with, or one byte if
there is none. -/
structure Lost (run rest : Bytes) : Prop where
  ne_nil : run ≠ []
  no_char : ∀ c, ¬ String.utf8EncodeChar c <+: run ++ rest
  opens : run.length = 1 ∨ Opens run
  longest : ∀ longer, longer <+: run ++ rest → Opens longer → longer.length ≤ run.length

/-- The bytes are shown as these characters, with a replacement for each run that is lost. -/
inductive Lossy : (bytes : Bytes) → (chars : List Char) → Prop where
  | nil : Lossy [] []
  | char (c : Char) {rest : Bytes} {chars : List Char} (hrest : Lossy rest chars) :
    Lossy (String.utf8EncodeChar c ++ rest) (c :: chars)
  | lost {run rest : Bytes} {chars : List Char} (hrun : Lost run rest) (hrest : Lossy rest chars) :
    Lossy (run ++ rest) ('\uFFFD' :: chars)

/-! ### Continuation bytes -/

/-- `bs` are continuation bytes, `count + 1` at most, and the first is from `low` to `high`. -/
inductive Continues : (low high : UInt8) → (count : Nat) → (bs : Bytes) → Prop where
  | nil {low high : UInt8} {count : Nat} : Continues low high count []
  | last {low high b : UInt8} (hlow : low ≤ b) (hhigh : b ≤ high) : Continues low high 0 [b]
  | more {low high b : UInt8} {count : Nat} {bs : Bytes} (hlow : low ≤ b) (hhigh : b ≤ high)
    (hmore : Continues 0x80 0xbf count bs) : Continues low high (count + 1) (b :: bs)

variable {low high b : UInt8} {count bits : Nat} {bs tail : Bytes} {l : Lead} {c : Char}

theorem Continues.of_prefix (h : Continues low high count bs) (hbegin : tail <+: bs) :
    Continues low high count tail := by
  induction h generalizing tail with
  | nil =>
    rw [List.prefix_nil.mp hbegin]
    exact .nil
  | last hlow hhigh =>
    rcases List.prefix_cons_iff.mp hbegin with rfl | ⟨rest, rfl, hrest⟩
    · exact .nil
    · rw [List.prefix_nil.mp hrest]
      exact .last hlow hhigh
  | more hlow hhigh hmore ih =>
    rcases List.prefix_cons_iff.mp hbegin with rfl | ⟨rest, rfl, hrest⟩
    · exact .nil
    · exact .more hlow hhigh (ih hrest)

theorem Continues.eq_last (h : Continues low high 0 bs) (hlength : bs.length = 1) :
    ∃ b, bs = [b] ∧ low ≤ b ∧ b ≤ high := by
  cases h with
  | nil => cases hlength
  | last hlow hhigh => exact ⟨_, rfl, hlow, hhigh⟩

theorem Continues.eq_more (h : Continues low high (count + 1) bs)
    (hlength : bs.length = count + 2) :
    ∃ b rest, bs = b :: rest ∧ low ≤ b ∧ b ≤ high ∧ Continues 0x80 0xbf count rest ∧
      rest.length = count + 1 := by
  cases h with
  | nil => cases hlength
  | more hlow hhigh hmore => exact ⟨_, _, rfl, hlow, hhigh, hmore, Nat.succ.inj hlength⟩

/-- What is missing can be put behind. -/
theorem Continues.exists_full (h : Continues low high count bs) (hrange : low ≤ high) :
    ∃ rest, Continues low high count (bs ++ rest) ∧ (bs ++ rest).length = count + 1 := by
  induction h with
  | @nil low high count =>
    have hfill : ∀ {low high : UInt8}, low ≤ high → Continues low high count
        (low :: List.replicate count 0x80) := by
      induction count with
      | zero => exact fun hrange => .last (UInt8.le_refl _) hrange
      | succ count ih => exact fun hrange => .more (UInt8.le_refl _) hrange (ih (by decide))
    exact ⟨_, hfill hrange, by simp⟩
  | last hlow hhigh => exact ⟨[], .last hlow hhigh, rfl⟩
  | more hlow hhigh hmore ih =>
    obtain ⟨rest, hrest, hlength⟩ := ih (by decide)
    exact ⟨rest, .more hlow hhigh hrest, congrArg (· + 1) hlength⟩

/-- The number that the bits of continuation bytes make up behind others. -/
def joined (bits : Nat) (bs : Bytes) : Nat := bs.foldl (fun v b => v * 64 + b.toNat % 64) bits

/-- The continuation bytes in front of `bs`, and the character if they are enough. -/
inductive Takes (bits : Nat) (low high : UInt8) (count : Nat) (bs : Bytes) :
    (found : Option Char × Bytes) → Prop where
  | full (taken : Bytes) {rest : Bytes} (hsplit : bs = taken ++ rest)
    (hcontinues : Continues low high count taken) (hlength : taken.length = count + 1) :
    Takes bits low high count bs (some (Char.ofNat (joined bits taken)), rest)
  | short (taken : Bytes) {rest : Bytes} (hsplit : bs = taken ++ rest)
    (hcontinues : Continues low high count taken) (hlength : taken.length ≤ count)
    (hlongest : ∀ longer, longer <+: bs → Continues low high count longer →
      longer.length ≤ taken.length) :
    Takes bits low high count bs (none, rest)

theorem takes_continuation (bs : Bytes) (bits : Nat) (low high : UInt8) (count : Nat) :
    Takes bits low high count bs (continuation bits low high count bs) := by
  induction bs generalizing bits low high count with
  | nil =>
    unfold continuation
    exact .short [] rfl .nil (Nat.zero_le _) fun longer hbegin _ => hbegin.length_le
  | cons b bs ih =>
    unfold continuation
    by_cases hrange : low ≤ b ∧ b ≤ high
    · rw [if_pos hrange]
      obtain ⟨hlow, hhigh⟩ := hrange
      cases count with
      | zero => exact .full [b] rfl (.last hlow hhigh) rfl
      | succ count =>
        show Takes bits low high (count + 1) (b :: bs) (continuation _ 0x80 0xbf count bs)
        have htakes := ih (bits * 64 + b.toNat % 64) 0x80 0xbf count
        generalize continuation _ 0x80 0xbf count bs = found at htakes ⊢
        cases htakes with
        | full taken hsplit hcontinues hlength =>
          exact .full (b :: taken) (congrArg (b :: ·) hsplit) (.more hlow hhigh hcontinues)
            (congrArg (· + 1) hlength)
        | short taken hsplit hcontinues hlength hlongest =>
          refine .short (b :: taken) (congrArg (b :: ·) hsplit) (.more hlow hhigh hcontinues)
            (Nat.succ_le_succ hlength) fun longer hbegin hlonger => ?_
          cases hlonger with
          | nil => exact Nat.zero_le _
          | more _ _ hmore =>
            exact Nat.succ_le_succ (hlongest _ (List.cons_prefix_cons.mp hbegin).2 hmore)
    · rw [if_neg hrange]
      refine .short [] rfl .nil (Nat.zero_le _) fun longer hbegin hlonger => ?_
      -- A byte out of range does not go on with anything.
      cases hlonger with
      | nil => exact Nat.le_refl _
      | last hlow hhigh =>
        obtain ⟨rfl, -⟩ := List.cons_prefix_cons.mp hbegin
        exact absurd ⟨hlow, hhigh⟩ hrange
      | more hlow hhigh _ =>
        obtain ⟨rfl, -⟩ := List.cons_prefix_cons.mp hbegin
        exact absurd ⟨hlow, hhigh⟩ hrange

/-! ### Lead bytes -/

/-- What the byte `b` announces, in numbers. -/
def Announces (b : Nat) (l : Lead) : Prop :=
  (l.more = 0 ∧ 0xc2 ≤ b ∧ b = 0xc0 + l.bits ∧ l.bits < 32 ∧ l.low.toNat = 0x80 ∧
    l.high.toNat = 0xbf) ∨
  (l.more = 1 ∧ b = 0xe0 + l.bits ∧ l.bits < 16 ∧
    (b = 0xe0 → l.low.toNat = 0xa0) ∧ (b ≠ 0xe0 → l.low.toNat = 0x80) ∧
    (b = 0xed → l.high.toNat = 0x9f) ∧ (b ≠ 0xed → l.high.toNat = 0xbf)) ∨
  (l.more = 2 ∧ b = 0xf0 + l.bits ∧ l.bits < 5 ∧
    (b = 0xf0 → l.low.toNat = 0x90) ∧ (b ≠ 0xf0 → l.low.toNat = 0x80) ∧
    (b = 0xf4 → l.high.toNat = 0x8f) ∧ (b ≠ 0xf4 → l.high.toNat = 0xbf))

instance (b : Nat) (l : Lead) : Decidable (Announces b l) := inferInstanceAs (Decidable (_ ∨ _))

theorem announces_of_lead? (h : lead? b = some l) : Announces b.toNat l := by
  have hall : ∀ n < 256, ∀ l ∈ lead? (UInt8.ofNat n), Announces n l := by
    decide +kernel
  refine hall b.toNat b.toNat_lt l ?_
  rw [UInt8.ofNat_toNat]
  exact h

theorem exists_announces {n : Nat} (hleft : 0xc2 ≤ n) (hright : n ≤ 0xf4) :
    ∃ l, lead? (UInt8.ofNat n) = some l ∧ Announces n l := by
  have hall : ∀ n ≤ 0xf4, 0xc2 ≤ n → (lead? (UInt8.ofNat n)).isSome := by
    decide +kernel
  obtain ⟨l, hlead⟩ := Option.isSome_iff_exists.mp (hall n hright hleft)
  have hannounces := announces_of_lead? hlead
  rw [UInt8.toNat_ofNat', Nat.mod_eq_of_lt (Nat.lt_of_le_of_lt hright (by decide))] at hannounces
  exact ⟨l, hlead, hannounces⟩

/-! ### Characters -/

/-- The continuation byte with six bits. -/
def following (bits : Nat) : UInt8 := UInt8.ofNat (0x80 + bits)

variable {n v x y z : Nat}

theorem toNat_following (hx : x < 64) : (following x).toNat = 0x80 + x := by
  rw [following, UInt8.toNat_ofNat']
  omega

theorem following_eq (hleft : 0x80 ≤ b.toNat) (hright : b.toNat ≤ 0xbf) :
    following (b.toNat % 64) = b := by
  rw [← UInt8.toNat_inj, toNat_following (Nat.mod_lt _ (by decide))]
  omega

theorem toNat_ofNat (hv : v.isValidChar) : (Char.ofNat v).val.toNat = v := by
  rw [Char.ofNat, dif_pos hv]
  rfl

theorem encode_one (hv : v < 0x80) : String.utf8EncodeChar (Char.ofNat v) = [UInt8.ofNat v] := by
  rw [String.utf8EncodeChar, toNat_ofNat (.inl (by omega)), if_pos (by omega)]

theorem encode_ascii (h : b < 0x80) : String.utf8EncodeChar (Char.ofNat b.toNat) = [b] := by
  rw [encode_one (UInt8.lt_iff_toNat_lt.mp h), UInt8.ofNat_toNat]

theorem encode_two (hx : x < 64) (hn : n < 32) (hlong : 2 ≤ n) :
    String.utf8EncodeChar (Char.ofNat (n * 64 + x)) = [UInt8.ofNat (0xc0 + n), following x] := by
  have hfirst : (n * 64 + x) / 64 % 32 + 192 = 0xc0 + n := by omega
  have hsecond : (n * 64 + x) % 64 + 128 = 0x80 + x := by omega
  rw [String.utf8EncodeChar, toNat_ofNat (.inl (by omega)), if_neg (by omega), if_pos (by omega),
    hfirst, hsecond]
  rfl

theorem encode_three (hv : v = (n * 64 + x) * 64 + y) (hx : x < 64) (hy : y < 64) (hn : n < 16)
    (hlong : 0x800 ≤ v) (hvalid : v.isValidChar) :
    String.utf8EncodeChar (Char.ofNat v) =
      [UInt8.ofNat (0xe0 + n), following x, following y] := by
  have hfirst : v / 4096 % 16 + 224 = 0xe0 + n := by omega
  have hsecond : v / 64 % 64 + 128 = 0x80 + x := by omega
  have hthird : v % 64 + 128 = 0x80 + y := by omega
  rw [String.utf8EncodeChar, toNat_ofNat hvalid, if_neg (by omega), if_neg (by omega),
    if_pos (by omega), hfirst, hsecond, hthird]
  rfl

theorem encode_four (hv : v = ((n * 64 + x) * 64 + y) * 64 + z) (hx : x < 64) (hy : y < 64)
    (hz : z < 64) (hn : n < 5) (hlong : 0x10000 ≤ v) (hvalid : v.isValidChar) :
    String.utf8EncodeChar (Char.ofNat v) =
      [UInt8.ofNat (0xf0 + n), following x, following y, following z] := by
  have hfirst : v / 262144 % 8 + 240 = 0xf0 + n := by omega
  have hsecond : v / 4096 % 64 + 128 = 0x80 + x := by omega
  have hthird : v / 64 % 64 + 128 = 0x80 + y := by omega
  have hfourth : v % 64 + 128 = 0x80 + z := by omega
  rw [String.utf8EncodeChar, toNat_ofNat hvalid, if_neg (by omega), if_neg (by omega),
    if_neg (by omega), hfirst, hsecond, hthird, hfourth]
  rfl

/-- A lead byte with all continuation bytes it announces is what a character is written with. -/
theorem encode_joined (hlead : lead? b = some l) (hcontinues : Continues l.low l.high l.more tail)
    (hlength : tail.length = l.more + 1) :
    String.utf8EncodeChar (Char.ofNat (joined l.bits tail)) = b :: tail := by
  have hmod : ∀ x : UInt8, x.toNat % 64 < 64 := fun x => Nat.mod_lt _ (by decide)
  rcases announces_of_lead? hlead with ⟨hmore, hlong, hb, hbits, hlow, hhigh⟩ |
    ⟨hmore, hb, hbits, hlow, hlow', hhigh, hhigh'⟩ | ⟨hmore, hb, hbits, hlow, hlow', hhigh, hhigh'⟩
  all_goals rw [hmore] at hcontinues hlength
  -- The range of the first byte keeps out what could be shorter, and what is no character.
  · obtain ⟨x, rfl, hx, hx'⟩ := hcontinues.eq_last hlength
    rw [UInt8.le_iff_toNat_le] at hx hx'
    show String.utf8EncodeChar (Char.ofNat (l.bits * 64 + x.toNat % 64)) = _
    rw [encode_two (hmod x) hbits (by omega), ← hb, UInt8.ofNat_toNat,
      following_eq (by omega) (by omega)]
  · obtain ⟨x, _, rfl, hx, hx', hrest, hlength⟩ := hcontinues.eq_more hlength
    obtain ⟨y, rfl, hy, hy'⟩ := hrest.eq_last hlength
    rw [UInt8.le_iff_toNat_le] at hx hx'
    show String.utf8EncodeChar (Char.ofNat ((l.bits * 64 + x.toNat % 64) * 64 + y.toNat % 64)) = _
    rw [encode_three rfl (hmod x) (hmod y) hbits (by omega) (by omega), ← hb, UInt8.ofNat_toNat,
      following_eq (by omega) (by omega), following_eq hy hy']
  · obtain ⟨x, _, rfl, hx, hx', hrest, hlength⟩ := hcontinues.eq_more hlength
    obtain ⟨y, _, rfl, hy, hy', hrest, hlength⟩ := hrest.eq_more hlength
    obtain ⟨z, rfl, hz, hz'⟩ := hrest.eq_last hlength
    rw [UInt8.le_iff_toNat_le] at hx hx'
    show String.utf8EncodeChar (Char.ofNat
      (((l.bits * 64 + x.toNat % 64) * 64 + y.toNat % 64) * 64 + z.toNat % 64)) = _
    rw [encode_four rfl (hmod x) (hmod y) (hmod z) hbits (by omega) (.inr (by omega)), ← hb,
      UInt8.ofNat_toNat, following_eq (by omega) (by omega), following_eq hy hy',
      following_eq hz hz']

theorem continues_following (ys : List Nat) (hx : x < 64) (hlow : low.toNat ≤ 0x80 + x)
    (hhigh : 0x80 + x ≤ high.toNat) (hys : ∀ y ∈ ys, y < 64) :
    Continues low high ys.length (following x :: ys.map following) := by
  rw [← toNat_following hx, ← UInt8.le_iff_toNat_le] at hlow hhigh
  induction ys generalizing low high x with
  | nil => exact .last hlow hhigh
  | cons y ys ih =>
    have hy := hys y List.mem_cons_self
    have hrange : (0x80 : UInt8) ≤ following y ∧ following y ≤ 0xbf := by
      rw [UInt8.le_iff_toNat_le, UInt8.le_iff_toNat_le, toNat_following hy]
      exact ⟨Nat.le_add_right _ _, Nat.add_le_add_left (Nat.le_of_lt_succ hy) 0x80⟩
    exact .more hlow hhigh (ih hy hrange.1 hrange.2 fun z hz => hys z (List.mem_cons_of_mem y hz))

/-- Conversely, a character is written with one byte, or with a lead byte and all that it
announces. -/
theorem encode_eq_cons (h : String.utf8EncodeChar c = b :: tail) :
    (b < 0x80 ∧ tail = []) ∨
      ∃ l, lead? b = some l ∧ Continues l.low l.high l.more tail ∧ tail.length = l.more + 1 := by
  have hvalid : c.val.toNat.isValidChar := c.valid
  rw [← Char.ofNat_toNat c] at h
  change String.utf8EncodeChar (Char.ofNat c.val.toNat) = _ at h
  generalize c.val.toNat = v at h hvalid
  change _ < _ ∨ _ < _ ∧ _ < _ at hvalid
  have hmod : ∀ m, m % 64 < 64 := fun m => Nat.mod_lt m (by decide)
  -- The number decides how many bytes there are, and with its highest bits what the first one is.
  by_cases hone : v < 0x80
  · rw [encode_one hone] at h
    cases h
    rw [UInt8.lt_iff_toNat_lt, UInt8.toNat_ofNat', Nat.mod_eq_of_lt (by omega)]
    exact .inl ⟨hone, rfl⟩
  right
  by_cases htwo : v < 0x800
  · have hv : v / 64 * 64 + v % 64 = v := by omega
    rw [← hv, encode_two (hmod v) (by omega) (by omega)] at h
    cases h
    obtain ⟨l, hlead, ⟨hmore, hfacts⟩ | ⟨-, hother, -⟩ | ⟨-, hother, -⟩⟩ :=
      exists_announces (n := 0xc0 + v / 64) (by omega) (by omega)
    · refine ⟨l, hlead, ?_⟩
      rw [hmore]
      exact ⟨continues_following [] (hmod v) (by omega) (by omega) (by simp), rfl⟩
    all_goals omega
  by_cases hthree : v < 0x10000
  · have hv : v = (v / 4096 * 64 + v / 64 % 64) * 64 + v % 64 := by omega
    rw [encode_three hv (hmod _) (hmod v) (by omega) (by omega) hvalid] at h
    cases h
    obtain ⟨l, hlead, ⟨-, hother⟩ | ⟨hmore, hfacts⟩ | ⟨-, hother, -⟩⟩ :=
      exists_announces (n := 0xe0 + v / 4096) (by omega) (by omega)
    · omega
    · refine ⟨l, hlead, ?_⟩
      rw [hmore]
      exact ⟨continues_following [v % 64] (hmod _) (by omega) (by omega) (by simp [hmod]), rfl⟩
    · omega
  · have hv : v = ((v / 262144 * 64 + v / 4096 % 64) * 64 + v / 64 % 64) * 64 + v % 64 := by omega
    rw [encode_four hv (hmod _) (hmod _) (hmod v) (by omega) (by omega) hvalid] at h
    cases h
    obtain ⟨l, hlead, ⟨-, hother⟩ | ⟨-, hother⟩ | ⟨hmore, hfacts⟩⟩ :=
      exists_announces (n := 0xf0 + v / 262144) (by omega) (by omega)
    · omega
    · omega
    · refine ⟨l, hlead, ?_⟩
      rw [hmore]
      exact ⟨continues_following [v / 64 % 64, v % 64] (hmod _) (by omega) (by omega)
        (by simp [hmod]), rfl⟩

theorem encode_ne_nil (c : Char) : String.utf8EncodeChar c ≠ [] := by
  have hsize := String.length_utf8EncodeChar c
  intro hnil
  rw [hnil] at hsize
  exact absurd c.utf8Size_pos (hsize ▸ Nat.lt_irrefl 0)

/-- The range of the first continuation byte is never empty, and above ASCII. -/
theorem range_of_lead? (hlead : lead? b = some l) : 0x80 ≤ l.low ∧ l.low ≤ l.high := by
  rw [UInt8.le_iff_toNat_le, UInt8.le_iff_toNat_le]
  show 0x80 ≤ _ ∧ _
  rcases announces_of_lead? hlead with hfacts | hfacts | hfacts <;> omega

/-- Bytes can begin a character just if the first of them is one, and alone, or a lead byte with
some of what it announces. -/
theorem opens_cons_iff : Opens (b :: tail) ↔
    (b < 0x80 ∧ tail = []) ∨ ∃ l, lead? b = some l ∧ Continues l.low l.high l.more tail := by
  constructor
  · rintro ⟨c, rest, hencode⟩
    rcases encode_eq_cons hencode.symm with ⟨hascii, hnil⟩ | ⟨l, hlead, hcontinues, -⟩
    · exact .inl ⟨hascii, (List.append_eq_nil_iff.mp hnil).1⟩
    · exact .inr ⟨l, hlead, hcontinues.of_prefix ⟨rest, rfl⟩⟩
  · rintro (⟨hascii, rfl⟩ | ⟨l, hlead, hcontinues⟩)
    · exact ⟨Char.ofNat b.toNat, [], encode_ascii hascii |>.symm⟩
    · obtain ⟨rest, hfull, hlength⟩ := hcontinues.exists_full (range_of_lead? hlead).2
      refine ⟨Char.ofNat (joined l.bits (tail ++ rest)), rest, ?_⟩
      rw [encode_joined hlead hfull hlength]
      rfl

/-! ### The text of bytes -/

/-- A byte with which no character begins is lost by itself. -/
theorem lost_singleton (hascii : ¬ b < 0x80) (hlead : lead? b = none) (rest : Bytes) :
    Lost [b] rest := by
  have hopens : ∀ tail, ¬ Opens (b :: tail) := by
    intro tail hopens
    rcases opens_cons_iff.mp hopens with ⟨h, -⟩ | ⟨l, h, -⟩
    · exact hascii h
    · rw [hlead] at h
      cases h
  refine ⟨List.cons_ne_nil b [], ?_, .inl rfl, ?_⟩
  · intro c hbegin
    rcases List.prefix_cons_iff.mp hbegin with hnil | ⟨tail, hencode, -⟩
    · exact encode_ne_nil c hnil
    · exact hopens tail ⟨c, [], by rw [List.append_nil, hencode]⟩
  · intro longer hbegin hlonger
    rcases List.prefix_cons_iff.mp hbegin with rfl | ⟨tail, rfl, -⟩
    · exact Nat.zero_le _
    · exact absurd hlonger (hopens tail)

/-- A lead byte is lost together with what it announces, if this is not all there. -/
theorem lost_of_short {taken rest : Bytes} (hascii : ¬ b < 0x80) (hlead : lead? b = some l)
    (hcontinues : Continues l.low l.high l.more taken) (hlength : taken.length ≤ l.more)
    (hlongest : ∀ longer, longer <+: taken ++ rest → Continues l.low l.high l.more longer →
      longer.length ≤ taken.length) : Lost (b :: taken) rest := by
  refine ⟨List.cons_ne_nil b taken, ?_, .inr (opens_cons_iff.mpr (.inr ⟨l, hlead, hcontinues⟩)), ?_⟩
  · intro c hbegin
    rcases List.prefix_cons_iff.mp hbegin with hnil | ⟨tail, hencode, htail⟩
    · exact encode_ne_nil c hnil
    -- All that is announced would be among the bytes.
    rcases encode_eq_cons hencode with ⟨h, -⟩ | ⟨l', h, hfull, hall⟩
    · exact hascii h
    · rw [hlead] at h
      cases h
      have hle := hlongest tail htail hfull
      omega
  · intro longer hbegin hlonger
    rcases List.prefix_cons_iff.mp hbegin with rfl | ⟨tail, rfl, htail⟩
    · exact Nat.zero_le _
    rcases opens_cons_iff.mp hlonger with ⟨h, -⟩ | ⟨l', h, hsome⟩
    · exact absurd h hascii
    · rw [hlead] at h
      cases h
      exact Nat.succ_le_succ (hlongest tail htail hsome)

/-- What is taken off the front is the bytes of a character, or a run that is lost. -/
inductive Front (bs : Bytes) : (found : Option Char × Bytes) → Prop where
  | char (c : Char) {rest : Bytes} (hsplit : bs = String.utf8EncodeChar c ++ rest) :
    Front bs (some c, rest)
  | lost (run : Bytes) {rest : Bytes} (hsplit : bs = run ++ rest) (hrun : Lost run rest) :
    Front bs (none, rest)

theorem front_next (b : UInt8) (bs : Bytes) : Front (b :: bs) (next b bs) := by
  unfold next
  by_cases hascii : b < 0x80
  · rw [if_pos hascii]
    refine .char _ ?_
    rw [encode_ascii hascii]
    rfl
  rw [if_neg hascii]
  cases hlead : lead? b with
  | none => exact .lost [b] rfl (lost_singleton hascii hlead bs)
  | some l =>
    show Front (b :: bs) (continuation l.bits l.low l.high l.more bs)
    have htakes := takes_continuation bs l.bits l.low l.high l.more
    generalize continuation l.bits l.low l.high l.more bs = found at htakes ⊢
    cases htakes with
    | full taken hsplit hcontinues hlength =>
      refine .char _ ?_
      rw [encode_joined hlead hcontinues hlength, hsplit]
      rfl
    | short taken hsplit hcontinues hlength hlongest =>
      rw [hsplit] at hlongest
      exact .lost (b :: taken) (congrArg (b :: ·) hsplit)
        (lost_of_short hascii hlead hcontinues hlength hlongest)

theorem lossy_scan (bs : Bytes) : Lossy bs ((scan bs).map fun c => c.getD '\uFFFD') := by
  fun_induction scan bs with
  | case1 => exact .nil
  | case2 b bs ih =>
    have hfront := front_next b bs
    rw [List.map_cons]
    generalize next b bs = found at hfront ih ⊢
    cases hfront with
    | char c hsplit =>
      rw [hsplit]
      exact .char c ih
    | lost run hsplit hrun =>
      rw [hsplit]
      exact .lost hrun ih

/-! ### No other text -/

section Unique

variable {c' : Char} {run run' rest rest' bytes : Bytes} {chars chars' : List Char}

theorem encode_append_inj
    (h : String.utf8EncodeChar c ++ rest = String.utf8EncodeChar c' ++ rest') :
    c = c' ∧ rest = rest' := by
  have hread := congrArg (fun bs => (List.toByteArray bs).utf8DecodeChar? 0) h
  simp only [List.toByteArray_append, ByteArray.utf8DecodeChar?_utf8EncodeChar_append] at hread
  cases hread
  exact ⟨rfl, List.append_cancel_left h⟩

theorem Lost.length_le (h : Lost run rest) (h' : Lost run' rest')
    (hall : run ++ rest = run' ++ rest') : run'.length ≤ run.length := by
  rcases h'.opens with hone | hopens
  · rw [hone]
    exact List.length_pos_iff.mpr h.ne_nil
  · exact h.longest run' ⟨rest', hall.symm⟩ hopens

theorem Lossy.unique (h : Lossy bytes chars) (h' : Lossy bytes chars') : chars = chars' := by
  induction h generalizing chars' with
  | nil =>
    generalize hall : ([] : Bytes) = bytes at h'
    cases h' with
    | nil => rfl
    | char c => exact absurd (List.append_eq_nil_iff.mp hall.symm).1 (encode_ne_nil c)
    | lost hrun => exact absurd (List.append_eq_nil_iff.mp hall.symm).1 hrun.ne_nil
  | @char c rest chars hrest ih =>
    generalize hall : String.utf8EncodeChar c ++ rest = bytes at h'
    cases h' with
    | nil => exact absurd (List.append_eq_nil_iff.mp hall).1 (encode_ne_nil c)
    | char c' hrest' =>
      obtain ⟨rfl, rfl⟩ := encode_append_inj hall
      rw [ih hrest']
    | lost hrun => exact absurd ⟨rest, hall⟩ (hrun.no_char c)
  | @lost run rest chars hrun hrest ih =>
    generalize hall : run ++ rest = bytes at h'
    cases h' with
    | nil => exact absurd (List.append_eq_nil_iff.mp hall).1 hrun.ne_nil
    | @char c' rest' => exact absurd ⟨rest', hall.symm⟩ (hrun.no_char c')
    | lost hrun' hrest' =>
      -- Neither run is longer than the other.
      have hlength := Nat.le_antisymm (hrun'.length_le hrun hall.symm) (hrun.length_le hrun' hall)
      obtain ⟨rfl, rfl⟩ := List.append_inj hall hlength
      rw [ih hrest']

end Unique

end Utf8

/-- `text` is what a dump shows for a string of these bytes. -/
def IsTextOf (bytes : Bytes) (text : String) : Prop := Utf8.Lossy bytes text.toList

theorem isTextOf_iff {bytes : Bytes} {text : String} :
    IsTextOf bytes text ↔ text = lossyText bytes := by
  have hscan : IsTextOf bytes (lossyText bytes) := by
    rw [IsTextOf, lossyText, String.toList_ofList]
    exact Utf8.lossy_scan bytes
  constructor
  · intro h
    rw [← String.toList_inj]
    exact h.unique hscan
  · rintro rfl
    exact hscan

end Dwarf
