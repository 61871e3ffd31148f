/-
The **wire layer**: prefix codecs over byte strings, with the law that decides
exactly which inputs a decoder accepts.

A `Codec α` is a writer, a reader and `dec_iff`: the reader succeeds on `bs` with
value `a` and rest `r` exactly when `a` is representable and `bs` is the writing
of `a` followed by `r`. That one equivalence is stronger than a round trip: it
also says that nothing else is accepted, so "the reader runs past the end" is
the same as "the input does not start with a writing" (`dec_isSome_iff`).

The combinators are the ones a length-prefixed binary format is made of:
little-endian words of `k` bytes, length-prefixed strings, pairs, and
count-prefixed sequences. The reader is the code a decoder runs; the law is
carried by the structure, so no reader below is proved twice.
-/
import Mathlib.Data.List.Basic
import Mathlib.Data.UInt
import Mathlib.Tactic.Linarith

set_option autoImplicit false

namespace GcAdaptor.Wire

/-- A byte string. -/
abbrev Bytes := List UInt8

/-- A buffer list: its length is an `unsigned`. -/
structure BufferList where
  data : Bytes
  fits : data.length < 2 ^ 32

instance : Inhabited BufferList := ⟨⟨[], by norm_num⟩⟩

/-- A prefix codec and the law that ties its two halves. -/
structure Codec (α : Type) where
  /-- The bytes written for a value. -/
  enc : α → Bytes
  /-- Reads one value and returns the unread rest; `none` past the end. -/
  dec : Bytes → Option (α × Bytes)
  /-- The values the format can hold. -/
  Ok : α → Prop
  dec_iff : ∀ bs a r, dec bs = some (a, r) ↔ Ok a ∧ bs = enc a ++ r

namespace Codec

variable {α β : Type}

/-- `bs` starts with the writing of a representable value. -/
def Starts (c : Codec α) (bs : Bytes) : Prop := ∃ a r, c.Ok a ∧ bs = c.enc a ++ r

/-- **Acceptance.** The reader succeeds exactly on the inputs that start with the
writing of a representable value. -/
theorem dec_isSome_iff (c : Codec α) (bs : Bytes) : (c.dec bs).isSome ↔ c.Starts bs := by
  constructor
  · intro h
    obtain ⟨⟨a, r⟩, hd⟩ := Option.isSome_iff_exists.mp h
    exact ⟨a, r, (c.dec_iff bs a r).mp hd⟩
  · rintro ⟨a, r, hok⟩
    rw [(c.dec_iff bs a r).mpr hok]
    rfl

theorem dec_enc (c : Codec α) {a : α} (h : c.Ok a) (r : Bytes) :
    c.dec (c.enc a ++ r) = some (a, r) :=
  (c.dec_iff _ _ _).mpr ⟨h, rfl⟩

/-- A writing that is cut short is not accepted: no writing starts another. -/
theorem dec_eq_none_of_cut (c : Codec α) {a : α} (h : c.Ok a) {bs s : Bytes}
    (hcut : c.enc a = bs ++ s) (hs : s ≠ []) : c.dec bs = none := by
  rw [Option.eq_none_iff_forall_ne_some]
  rintro ⟨b, r⟩ hdec
  obtain ⟨hb, rfl⟩ := (c.dec_iff bs b r).mp hdec
  have hwhole : c.dec (c.enc a) = some (b, r ++ s) := by
    rw [hcut, List.append_assoc]
    exact c.dec_enc hb _
  have hself := c.dec_enc h []
  rw [List.append_nil, hwhole] at hself
  have hrest : r ++ s = [] := congrArg Prod.snd (Option.some.inj hself)
  exact hs (List.append_eq_nil_iff.mp hrest).2

/-! ## Little-endian words -/

/-- `k` bytes of `n`, low byte first. -/
def leEnc : ℕ → ℕ → Bytes
  | 0, _ => []
  | k + 1, n => UInt8.ofNat n :: leEnc k (n / 256)

/-- Reads `k` bytes as a little-endian natural number. -/
def leDec : ℕ → Bytes → Option (ℕ × Bytes)
  | 0, bs => some (0, bs)
  | _ + 1, [] => none
  | k + 1, b :: bs => (leDec k bs).map fun p => (b.toNat + 256 * p.1, p.2)

@[simp] theorem leEnc_length (k n : ℕ) : (leEnc k n).length = k := by
  induction k generalizing n with
  | zero => rfl
  | succ k ih => simp [leEnc, ih]

private theorem byte_split (b : UInt8) (m : ℕ) :
    UInt8.ofNat (b.toNat + 256 * m) = b ∧ (b.toNat + 256 * m) / 256 = m := by
  have hb : b.toNat < 256 := b.toNat_lt
  refine ⟨?_, by omega⟩
  apply UInt8.toNat_inj.mp
  rw [UInt8.toNat_ofNat']
  omega

private theorem byte_join (n : ℕ) : (UInt8.ofNat n).toNat + 256 * (n / 256) = n := by
  rw [UInt8.toNat_ofNat']
  omega

theorem leDec_iff (k : ℕ) (bs : Bytes) (n : ℕ) (r : Bytes) :
    leDec k bs = some (n, r) ↔ n < 256 ^ k ∧ bs = leEnc k n ++ r := by
  induction k generalizing bs n with
  | zero =>
    simp only [leDec, leEnc, Option.some.injEq, Prod.mk.injEq, pow_zero, List.nil_append,
      Nat.lt_one_iff]
    tauto
  | succ k ih =>
    cases bs with
    | nil => simp [leDec, leEnc]
    | cons b bs =>
      simp only [leDec, Option.map_eq_some_iff, Prod.exists, Prod.mk.injEq, leEnc,
        List.cons_append, List.cons.injEq]
      constructor
      · -- the first byte is the remainder modulo 256, the others are the quotient
        rintro ⟨m, r', hm, rfl, rfl⟩
        obtain ⟨hlt, rfl⟩ := (ih bs m).mp hm
        obtain ⟨h₁, h₂⟩ := byte_split b m
        have hb : b.toNat < 256 := b.toNat_lt
        rw [h₁, h₂]
        refine ⟨?_, rfl, rfl⟩
        have : (m + 1) * 256 ≤ 256 ^ k * 256 := Nat.mul_le_mul_right _ hlt
        rw [pow_succ]
        omega
      · rintro ⟨hlt, rfl, rfl⟩
        refine ⟨n / 256, r, (ih _ _).mpr ⟨?_, rfl⟩, byte_join n, rfl⟩
        rw [Nat.div_lt_iff_lt_mul (by norm_num)]
        rwa [pow_succ] at hlt

/-- A `k`-byte little-endian word. -/
def le (k : ℕ) : Codec ℕ where
  enc := leEnc k
  dec := leDec k
  Ok n := n < 256 ^ k
  dec_iff bs n r := leDec_iff k bs n r

/-! ## Raw bytes and length-prefixed strings -/

/-- `copy` of a buffer iterator: the next `n` bytes, `none` past the end. -/
def copy (n : ℕ) (bs : Bytes) : Option (Bytes × Bytes) :=
  if n ≤ bs.length then some (bs.take n, bs.drop n) else none

theorem copy_iff (n : ℕ) (bs s r : Bytes) :
    copy n bs = some (s, r) ↔ s.length = n ∧ bs = s ++ r := by
  unfold copy
  split
  next h =>
    simp only [Option.some.injEq, Prod.mk.injEq]
    constructor
    · rintro ⟨rfl, rfl⟩
      exact ⟨by simp [h], by simp⟩
    · rintro ⟨rfl, rfl⟩
      simp
  next h =>
    -- too short to hold `n` bytes, whatever follows them
    simp only [reduceCtorEq, false_iff]
    rintro ⟨rfl, rfl⟩
    exact h (by simp)

theorem copy_isSome (n : ℕ) (bs : Bytes) : (copy n bs).isSome ↔ n ≤ bs.length := by
  unfold copy
  split <;> simp_all

/-- A string behind its 4-byte length. -/
def str : Codec Bytes where
  enc s := leEnc 4 s.length ++ s
  dec bs := (leDec 4 bs).bind fun p => copy p.1 p.2
  Ok s := s.length < 256 ^ 4
  dec_iff bs s r := by
    simp only [Option.bind_eq_some_iff, Prod.exists, leDec_iff, copy_iff]
    constructor
    · rintro ⟨n, r', ⟨hn, rfl⟩, rfl, rfl⟩
      exact ⟨hn, by rw [List.append_assoc]⟩
    · rintro ⟨hn, rfl⟩
      exact ⟨s.length, s ++ r, ⟨hn, by rw [List.append_assoc]⟩, rfl, rfl⟩

/-! ## Pairs and count-prefixed sequences -/

/-- One value after the other. -/
def pair (c : Codec α) (d : Codec β) : Codec (α × β) where
  enc p := c.enc p.1 ++ d.enc p.2
  dec bs := (c.dec bs).bind fun p => (d.dec p.2).map fun q => ((p.1, q.1), q.2)
  Ok p := c.Ok p.1 ∧ d.Ok p.2
  dec_iff bs p r := by
    obtain ⟨a, b⟩ := p
    simp only [Option.bind_eq_some_iff, Option.map_eq_some_iff, Prod.exists, Prod.mk.injEq,
      c.dec_iff, d.dec_iff]
    constructor
    · rintro ⟨a', r', ⟨ha, rfl⟩, b', r'', ⟨hb, rfl⟩, ⟨rfl, rfl⟩, rfl⟩
      exact ⟨⟨ha, hb⟩, by rw [List.append_assoc]⟩
    · rintro ⟨⟨ha, hb⟩, rfl⟩
      exact ⟨a, d.enc b ++ r, ⟨ha, by rw [List.append_assoc]⟩, b, r, ⟨hb, rfl⟩, ⟨rfl, rfl⟩, rfl⟩

/-- Reads `n` values, one after the other: the body of `while (n--)`. -/
def decMany (c : Codec α) : ℕ → Bytes → Option (List α × Bytes)
  | 0, bs => some ([], bs)
  | n + 1, bs => (c.dec bs).bind fun p => (decMany c n p.2).map fun q => (p.1 :: q.1, q.2)

theorem decMany_iff (c : Codec α) (n : ℕ) (bs : Bytes) (as : List α) (r : Bytes) :
    c.decMany n bs = some (as, r) ↔
      as.length = n ∧ (∀ a ∈ as, c.Ok a) ∧ bs = as.flatMap c.enc ++ r := by
  induction n generalizing bs as r with
  | zero =>
    simp only [decMany, Option.some.injEq, Prod.mk.injEq, List.length_eq_zero_iff]
    constructor
    · rintro ⟨rfl, rfl⟩
      simp
    · rintro ⟨rfl, -, rfl⟩
      simp
  | succ n ih =>
    simp only [decMany, Option.bind_eq_some_iff, Option.map_eq_some_iff, Prod.exists,
      Prod.mk.injEq, c.dec_iff]
    constructor
    · rintro ⟨a, r', ⟨ha, rfl⟩, as', r'', hrest, rfl, rfl⟩
      obtain ⟨hlen, hok, rfl⟩ := (ih _ _ _).mp hrest
      refine ⟨by simp [hlen], ?_, by simp⟩
      simpa [ha] using hok
    · rintro ⟨hlen, hok, rfl⟩
      cases as with
      | nil => simp at hlen
      | cons a as =>
        refine ⟨a, as.flatMap c.enc ++ r, ⟨hok a (by simp), by simp⟩, as, r, ?_, rfl, rfl⟩
        exact (ih _ _ _).mpr ⟨by simpa using hlen, fun x hx => hok x (by simp [hx]), rfl⟩

/-- A sequence behind its 4-byte count. -/
def many (c : Codec α) : Codec (List α) where
  enc as := leEnc 4 as.length ++ as.flatMap c.enc
  dec bs := (leDec 4 bs).bind fun p => c.decMany p.1 p.2
  Ok as := as.length < 256 ^ 4 ∧ ∀ a ∈ as, c.Ok a
  dec_iff bs as r := by
    simp only [Option.bind_eq_some_iff, Prod.exists, leDec_iff, decMany_iff]
    constructor
    · rintro ⟨n, r', ⟨hn, rfl⟩, rfl, hok, rfl⟩
      exact ⟨⟨hn, hok⟩, by rw [List.append_assoc]⟩
    · rintro ⟨⟨hn, hok⟩, rfl⟩
      exact ⟨as.length, as.flatMap c.enc ++ r, ⟨hn, by rw [List.append_assoc]⟩, rfl, hok, rfl⟩

/-- In a sequence of non-empty writings neither the count nor a writing is longer than the
whole. -/
theorem length_le_of_many (c : Codec α) (as : List α) (hpos : ∀ a ∈ as, 0 < (c.enc a).length) :
    as.length ≤ ((many c).enc as).length ∧
      ∀ a ∈ as, (c.enc a).length ≤ ((many c).enc as).length := by
  have hflat : as.length ≤ (as.flatMap c.enc).length ∧
      ∀ a ∈ as, (c.enc a).length ≤ (as.flatMap c.enc).length := by
    induction as with
    | nil => simp
    | cons b as ih =>
      obtain ⟨hlen, hmem⟩ := ih fun a ha => hpos a (by simp [ha])
      have hb := hpos b (by simp)
      simp only [List.flatMap_cons, List.length_append, List.length_cons, List.forall_mem_cons]
      refine ⟨by omega, by omega, ?_⟩
      intro a ha
      have := hmem a ha
      omega
  simp only [many, List.length_append, leEnc_length]
  refine ⟨by omega, ?_⟩
  intro a ha
  have := hflat.2 a ha
  omega

end Codec

end GcAdaptor.Wire
