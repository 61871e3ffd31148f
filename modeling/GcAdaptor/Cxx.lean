/-
The part of the C and C++ **standard library** the modelled code calls, by its
documented behaviour: fixed-width arithmetic on natural numbers, C strings,
`strtok_r`, `strtoul`/`strtoull`, and the ordered containers.

Nothing here knows this repository. A machine word is a natural number below
its modulus and every operation on it wraps explicitly; `add64_of_lt` and
`sub64_of_le` are the two ways an invariant proof gets rid of the wrap.
-/
import Mathlib.Data.List.Basic
import Mathlib.Data.List.Perm.Subperm
import Mathlib.Data.List.TakeWhile
import Mathlib.Data.Nat.Digits.Lemmas
import Mathlib.Tactic.Linarith
import GcAdaptor.Wire

set_option autoImplicit false

namespace GcAdaptor.Cxx

open GcAdaptor.Wire

/-! ## Unsigned and signed words -/

/-- `a + b` on `uint64_t`. -/
def add64 (a b : ℕ) : ℕ := (a + b) % 2 ^ 64

/-- `a - b` on `uint64_t`; wraps below zero. -/
def sub64 (a b : ℕ) : ℕ := (a + (2 ^ 64 - b % 2 ^ 64)) % 2 ^ 64

theorem add64_of_lt {a b : ℕ} (h : a + b < 2 ^ 64) : add64 a b = a + b := by
  rw [add64, Nat.mod_eq_of_lt h]

theorem sub64_of_le {a b : ℕ} (ha : a < 2 ^ 64) (h : b ≤ a) : sub64 a b = a - b := by
  rw [sub64]
  omega

/-- `a + b` on `uint32_t`. -/
def add32 (a b : ℕ) : ℕ := (a + b) % 2 ^ 32

/-- `a - b` on `uint32_t`. -/
def sub32 (a b : ℕ) : ℕ := (a + (2 ^ 32 - b % 2 ^ 32)) % 2 ^ 32

theorem add32_of_lt {a b : ℕ} (h : a + b < 2 ^ 32) : add32 a b = a + b := by
  rw [add32, Nat.mod_eq_of_lt h]

theorem sub32_of_le {a b : ℕ} (ha : a < 2 ^ 32) (h : b ≤ a) : sub32 a b = a - b := by
  rw [sub32]
  omega

/-- The value a 32-bit `int` holds after storing `z`. -/
def int32 (z : ℤ) : ℤ := (z + 2 ^ 31) % 2 ^ 32 - 2 ^ 31

theorem int32_of_mem {z : ℤ} (hlo : -2 ^ 31 ≤ z) (hhi : z < 2 ^ 31) : int32 z = z := by
  rw [int32]
  omega

/-! ## Strings -/

/-- The bytes of an ASCII text. -/
def ascii (cs : List Char) : Bytes := cs.map fun c => UInt8.ofNat c.toNat

/-- What `c_str()` shows of a `std::string`: everything before the first NUL. -/
def cStr (s : Bytes) : Bytes := s.takeWhile (· ≠ 0)

/-- The tokens a `strtok_r` loop with one delimiter visits: the non-empty pieces
between delimiters. -/
def strtok (delim : UInt8) (s : Bytes) : List Bytes :=
  (s.splitOn delim).filter fun t => !t.isEmpty

def isSpace (c : UInt8) : Bool := c == 32 || (9 ≤ c && c ≤ 13)

/-- The value of a digit in bases up to 36; `36` for any other byte. -/
def digitVal (c : UInt8) : ℕ :=
  if 48 ≤ c ∧ c ≤ 57 then c.toNat - 48
  else if 97 ≤ c ∧ c ≤ 122 then c.toNat - 87
  else if 65 ≤ c ∧ c ≤ 90 then c.toNat - 55
  else 36

/-- The longest run of base-`base` digits `s` starts with. -/
def digits (base : ℕ) (s : Bytes) : List ℕ := (s.map digitVal).takeWhile (· < base)

def ofDigits (base : ℕ) (ds : List ℕ) : ℕ := ds.foldl (fun a d => a * base + d) 0

/-- Drops a `0x` that is followed by a hexadecimal digit. -/
def stripHexMark : Bytes → Bytes
  | 48 :: x :: d :: t => if (x = 120 ∨ x = 88) ∧ digitVal d < 16 then d :: t else 48 :: x :: d :: t
  | s => s

def stripSign : Bytes → Bool × Bytes
  | 45 :: t => (true, t)
  | 43 :: t => (false, t)
  | s => (false, s)

/-- `strtoul`/`strtoull` in base 10 or 16: white space, one sign, digits; `ULLONG_MAX` when
the digits do not fit, the negated word after a minus sign. -/
def strtoul (base : ℕ) (s : Bytes) : ℕ :=
  let (neg, body) := stripSign (s.dropWhile isSpace)
  let v := ofDigits base (digits base (if base = 16 then stripHexMark body else body))
  -- out of range comes before the sign
  if v < 2 ^ 64 then (if neg then (2 ^ 64 - v) % 2 ^ 64 else v) else 2 ^ 64 - 1

/-- The number `strtol` finds in base 10: white space, one sign, digits. `none` without a
digit. -/
def leadingNumber (s : Bytes) : Option ℤ :=
  let (neg, body) := stripSign (s.dropWhile isSpace)
  let ds := digits 10 body
  if ds = [] then none
  else some (if neg then -(ofDigits 10 ds : ℤ) else (ofDigits 10 ds : ℤ))

/-- What `strtol` returns, whether it sets `errno` to `ERANGE`, and whether `end` has moved. -/
structure Strtol where
  val : ℤ
  erange : Bool
  moved : Bool

/-- `strtol` in base 10 on a 64-bit `long`. -/
def strtol (s : Bytes) : Strtol :=
  match leadingNumber s with
  | none => { val := 0, erange := false, moved := false }
  | some n =>
    { val := max (-2 ^ 63) (min n (2 ^ 63 - 1))
      erange := n < -2 ^ 63 || 2 ^ 63 ≤ n
      moved := true }

/-- `atoi`, which is `strtol` cut to an `int`. -/
def atoi (s : Bytes) : ℤ := int32 (strtol s).val

/-- `std::stoull` in base 10: without a digit, or with a number of more than 64 bits, it throws.
A minus sign negates the word. -/
def stoull (s : Bytes) : Option ℕ :=
  match leadingNumber s with
  | none => none
  | some n => if n.natAbs < 2 ^ 64 then some (n % 2 ^ 64).toNat else none

/-- `std::stoi`, which throws where `int` does not hold the number. -/
def stoi (s : Bytes) : Option ℤ :=
  match leadingNumber s with
  | none => none
  | some n => if -2 ^ 31 ≤ n ∧ n < 2 ^ 31 then some n else none

/-- `std::to_string` of an unsigned number. -/
def toDecimal (n : ℕ) : Bytes := ascii (Nat.toDigits 10 n)

/-! ## Numbers in text -/

theorem strtok_intercalate {delim : UInt8} {ls : List Bytes} (hls : ls ≠ [])
    (h : ∀ l ∈ ls, l ≠ [] ∧ delim ∉ l) : strtok delim ([delim].intercalate ls) = ls := by
  rw [strtok, List.splitOn_intercalate delim (fun l hl => (h l hl).2) hls, List.filter_eq_self]
  intro l hl
  simp [(h l hl).1]

theorem mem_intercalate {c delim : UInt8} {ls : List Bytes} (h : c ∈ [delim].intercalate ls) :
    c = delim ∨ ∃ l ∈ ls, c ∈ l := by
  induction ls with
  | nil => cases h
  | cons l ls ih =>
    cases ls with
    | nil => exact .inr ⟨l, by simp, by simpa using h⟩
    | cons l' ls =>
      rw [List.intercalate_cons_cons, List.mem_append, List.mem_append] at h
      rcases h with (h | h) | h
      · exact .inr ⟨l, by simp, h⟩
      · exact .inl (List.mem_singleton.mp h)
      · rcases ih h with rfl | ⟨l'', hl, hc⟩
        · exact .inl rfl
        · exact .inr ⟨l'', List.mem_cons_of_mem _ hl, hc⟩

/-- A byte that is no delimiter is in some token. -/
theorem exists_mem_strtok (delim : UInt8) {c : UInt8} {s : Bytes} (h : c ∈ s) (hc : c ≠ delim) :
    ∃ t ∈ strtok delim s, c ∈ t := by
  have hs : [delim].intercalate (s.splitOn delim) = s := List.intercalate_splitOn delim
  rw [← hs] at h
  rcases mem_intercalate h with hdelim | ⟨t, ht, hmem⟩
  · exact absurd hdelim hc
  · refine ⟨t, List.mem_filter.mpr ⟨ht, ?_⟩, hmem⟩
    simp [List.ne_nil_of_mem hmem]

theorem ne_nil_of_mem_strtok {delim : UInt8} {s t : Bytes} (h : t ∈ strtok delim s) : t ≠ [] := by
  simpa using (List.mem_filter.mp h).2

/-- Without a NUL nothing is cut off. -/
theorem cStr_of_not_mem {s : Bytes} (h : 0 ∉ s) : cStr s = s := by
  rw [cStr, List.takeWhile_eq_self_iff]
  intro c hc
  rw [decide_eq_true_eq]
  rintro rfl
  exact h hc

/-- The digits, most significant first, as Mathlib's least significant first. -/
theorem ofDigits_eq (base : ℕ) (ds : List ℕ) : ofDigits base ds = Nat.ofDigits base ds.reverse := by
  rw [ofDigits, Nat.ofDigits_eq_foldr, List.foldr_reverse]
  congr 1
  funext a d
  rw [Nat.cast_id]
  ring

theorem ofDigits_lt {base : ℕ} {ds : List ℕ} (hb : 1 < base) (h : ∀ d ∈ ds, d < base) :
    ofDigits base ds < base ^ ds.length := by
  rw [ofDigits_eq, ← List.length_reverse]
  exact Nat.ofDigits_lt_base_pow_length hb (by simpa using h)

/-- Numbers of the same width. -/
theorem ofDigits_inj_of_length {base : ℕ} {ds ds' : List ℕ} (hb : 1 < base)
    (hlen : ds.length = ds'.length) (h : ∀ d ∈ ds, d < base) (h' : ∀ d ∈ ds', d < base)
    (heq : ofDigits base ds = ofDigits base ds') : ds = ds' := by
  rw [ofDigits_eq, ofDigits_eq] at heq
  exact List.reverse_injective (Nat.ofDigits_inj_of_len_eq hb (by simpa using hlen)
    (by simpa using h) (by simpa using h') heq)

/-- A number without a leading zero is written in its own digits. -/
theorem digits_ofDigits {base d : ℕ} {ds : List ℕ} (hb : 1 < base) (hd : d ≠ 0)
    (h : ∀ x ∈ d :: ds, x < base) :
    Nat.digits base (ofDigits base (d :: ds)) = (d :: ds).reverse := by
  rw [ofDigits_eq]
  refine Nat.digits_ofDigits base hb _ (fun x hx => h x (List.mem_reverse.mp hx)) ?_
  simpa using hd

theorem ofDigits_inj_of_head {base d d' : ℕ} {ds ds' : List ℕ} (hb : 1 < base) (hd : d ≠ 0)
    (hd' : d' ≠ 0) (h : ∀ x ∈ d :: ds, x < base) (h' : ∀ x ∈ d' :: ds', x < base)
    (heq : ofDigits base (d :: ds) = ofDigits base (d' :: ds')) : d :: ds = d' :: ds' := by
  have hdigits := digits_ofDigits hb hd h
  rw [heq, digits_ofDigits hb hd' h'] at hdigits
  exact List.reverse_injective hdigits.symm

/-- No white space and no sign is a digit. -/
theorem not_isSpace_of_digit {c : UInt8} (h : digitVal c < 16) :
    isSpace c = false ∧ c ≠ 45 ∧ c ≠ 43 ∧ c ≠ 120 ∧ c ≠ 88 := by
  refine ⟨?_, ?_, ?_, ?_, ?_⟩
  · by_contra hc
    rw [Bool.not_eq_false, isSpace, Bool.or_eq_true, Bool.and_eq_true, beq_iff_eq, decide_eq_true_eq,
      decide_eq_true_eq] at hc
    rcases hc with rfl | ⟨hlo, hhi⟩
    · exact absurd h (by decide)
    · rw [UInt8.le_iff_toNat_le] at hlo hhi
      simp [digitVal, UInt8.le_iff_toNat_le] at h hlo hhi
      split_ifs at h <;> omega
  all_goals
    rintro rfl
    exact absurd h (by decide)

/-- Neither white space nor a sign is taken off a text of digits. -/
theorem stripSign_of_digits {base : ℕ} {s : Bytes} (hb : base ≤ 16)
    (h : ∀ c ∈ s, digitVal c < base) : stripSign (s.dropWhile isSpace) = (false, s) := by
  cases s with
  | nil => rfl
  | cons c s =>
    have hc := not_isSpace_of_digit (lt_of_lt_of_le (h c (by simp)) hb)
    rw [List.dropWhile_cons_of_neg (by simp [hc.1])]
    unfold stripSign
    split
    · rename_i heq
      exact absurd (List.cons.inj heq).1 hc.2.1
    · rename_i heq
      exact absurd (List.cons.inj heq).1 hc.2.2.1
    · rfl

theorem digits_of_digits {base : ℕ} {s : Bytes} (h : ∀ c ∈ s, digitVal c < base) :
    digits base s = s.map digitVal := by
  rw [digits, List.takeWhile_eq_self_iff]
  simpa using h

/-- A text of digits has no `0x`. -/
theorem stripHexMark_of_digits {base : ℕ} {s : Bytes} (hb : base ≤ 16)
    (h : ∀ c ∈ s, digitVal c < base) : stripHexMark s = s := by
  unfold stripHexMark
  split
  · rename_i x d t
    have hx := not_isSpace_of_digit (lt_of_lt_of_le (h x (by simp)) hb)
    rw [if_neg (by simp [hx.2.2.2])]
  · rfl

/-- **A text of digits.** Nothing is skipped and nothing left over. -/
theorem strtoul_of_digits {base : ℕ} {s : Bytes} (hb : base ≤ 16)
    (h : ∀ c ∈ s, digitVal c < base) (hfit : ofDigits base (s.map digitVal) < 2 ^ 64) :
    strtoul base s = ofDigits base (s.map digitVal) := by
  have hmark := stripHexMark_of_digits hb h
  simp only [strtoul, stripSign_of_digits hb h, hmark, ite_self, digits_of_digits h, if_pos hfit,
    Bool.false_eq_true, if_false]

theorem leadingNumber_of_digits {s : Bytes} (hs : s ≠ []) (h : ∀ c ∈ s, digitVal c < 10) :
    leadingNumber s = some (ofDigits 10 (s.map digitVal) : ℤ) := by
  simp only [leadingNumber, stripSign_of_digits (by norm_num : 10 ≤ 16) h, digits_of_digits h,
    List.map_eq_nil_iff, if_neg hs, Bool.false_eq_true, if_false]

/-- `atoi` on a number of a `long`. -/
theorem atoi_of_long {s : Bytes} {n : ℤ} (h : leadingNumber s = some n) (hlo : -2 ^ 63 ≤ n)
    (hhi : n < 2 ^ 63) : atoi s = int32 n := by
  simp only [atoi, strtol, h]
  rw [min_eq_left (by omega), max_eq_right hlo]

/-- Above a `long` it is the largest one, cut to -1. -/
theorem atoi_of_large {s : Bytes} {n : ℤ} (h : leadingNumber s = some n) (hhi : 2 ^ 63 ≤ n) :
    atoi s = -1 := by
  simp only [atoi, strtol, h]
  rw [min_eq_right (by omega), max_eq_right (by norm_num)]
  decide

theorem digitVal_lt_ten_iff (c : UInt8) : digitVal c < 10 ↔ 48 ≤ c ∧ c ≤ 57 := by
  simp only [digitVal, UInt8.le_iff_toNat_le, UInt8.reduceToNat]
  split_ifs <;> omega

/-! ## Ordered containers

A `std::map` is its list of entries in ascending key order and a `std::set` its
list of elements. Inserting is what keeps them so. -/

section Containers

variable {κ β : Type} [LT κ] [DecidableLT κ] [DecidableEq κ]

/-- `m[k] = v`. -/
def mapSet (k : κ) (v : β) : List (κ × β) → List (κ × β)
  | [] => [(k, v)]
  | (k', v') :: m =>
    if k < k' then (k, v) :: (k', v') :: m
    else if k = k' then (k, v) :: m
    else (k', v') :: mapSet k v m

/-- The map a sequence of assignments leaves behind. -/
def mapOf (kvs : List (κ × β)) : List (κ × β) := kvs.foldl (fun m p => mapSet p.1 p.2 m) []

/-- `s.insert(k)`. -/
def setInsert (k : κ) : List κ → List κ
  | [] => [k]
  | k' :: s => if k < k' then k :: k' :: s else if k = k' then k' :: s else k' :: setInsert k s

/-- The set a sequence of insertions leaves behind. -/
def setOf (ks : List κ) : List κ := ks.foldl (fun s k => setInsert k s) []

/-- An iterator of a map: it names the node it is at, so it stays there when others come in. -/
inductive MapIter (κ : Type)
  | node (k : κ)
  | atEnd

/-- `m.begin()`. -/
def mapBegin (m : List (κ × β)) : MapIter κ :=
  match m.head? with
  | some p => .node p.1
  | none => .atEnd

/-- `++i` from the node of `k`. -/
def mapNext (k : κ) (m : List (κ × β)) : MapIter κ :=
  match m.find? fun p => k < p.1 with
  | some p => .node p.1
  | none => .atEnd

theorem mem_setInsert {k x : κ} {s : List κ} : x ∈ setInsert k s ↔ x = k ∨ x ∈ s := by
  induction s with
  | nil => simp [setInsert]
  | cons k' s ih =>
    rw [setInsert]
    split_ifs with h₁ h₂
    · simp
    · subst h₂
      simp
    · simp only [List.mem_cons, ih]
      tauto

theorem mem_setOf {x : κ} {ks : List κ} : x ∈ setOf ks ↔ x ∈ ks := by
  -- generalised over the set the insertions start from
  suffices h : ∀ s : List κ, x ∈ ks.foldl (fun s k => setInsert k s) s ↔ x ∈ s ∨ x ∈ ks by
    simpa [setOf] using h []
  induction ks with
  | nil => simp
  | cons k ks ih =>
    intro s
    rw [List.foldl_cons, ih, mem_setInsert, List.mem_cons]
    tauto

/-! What a container holds, up to order. -/

section Contents

open List (Perm Subperm)

variable {k : κ} {v : β} {m kvs : List (κ × β)} {s ks : List κ}

theorem mapSet_perm (h : k ∉ m.map (·.1)) : Perm (mapSet k v m) ((k, v) :: m) := by
  induction m with
  | nil => exact .refl _
  | cons p m ih =>
    obtain ⟨k', v'⟩ := p
    rw [List.map_cons, List.mem_cons, not_or] at h
    rw [mapSet]
    split_ifs with h₁ h₂
    · exact .refl _
    · exact absurd h₂ h.1
    · exact ((ih h.2).cons _).trans (.swap ..)

theorem nodup_keys_mapSet (v : β) (hnd : (m.map (·.1)).Nodup) (hk : k ∉ m.map (·.1)) :
    ((mapSet k v m).map (·.1)).Nodup := by
  rw [((mapSet_perm (v := v) hk).map (·.1)).nodup_iff, List.map_cons, List.nodup_cons]
  exact ⟨hk, hnd⟩

/-- An assignment drops at most the entry it replaces. -/
theorem mapSet_subperm (k : κ) (v : β) (m : List (κ × β)) :
    Subperm (mapSet k v m) ((k, v) :: m) := by
  induction m with
  | nil => exact .refl _
  | cons p m ih =>
    obtain ⟨k', v'⟩ := p
    rw [mapSet]
    split_ifs with h₁ h₂
    · exact .refl _
    · exact ((List.sublist_cons_self (k', v') m).cons_cons (k, v)).subperm
    · exact ((List.subperm_cons _).mpr ih).trans (Perm.swap ..).subperm

theorem mapOf_append (p : κ × β) : mapOf (kvs ++ [p]) = mapSet p.1 p.2 (mapOf kvs) := by
  simp [mapOf]

theorem mapOf_subperm (kvs : List (κ × β)) : Subperm (mapOf kvs) kvs := by
  induction kvs using List.reverseRecOn with
  | nil => exact .refl _
  | append_singleton kvs p ih =>
    rw [mapOf_append]
    refine (mapSet_subperm p.1 p.2 (mapOf kvs)).trans ?_
    exact ((List.subperm_cons p).mpr ih).trans (List.perm_append_singleton p kvs).symm.subperm

/-- With distinct keys the last one is new. -/
theorem nodup_keys_append {p : κ × β} (h : ((kvs ++ [p]).map (·.1)).Nodup) :
    (kvs.map (·.1)).Nodup ∧ p.1 ∉ (mapOf kvs).map (·.1) := by
  rw [List.map_append, List.nodup_append] at h
  obtain ⟨hnd, -, hne⟩ := h
  refine ⟨hnd, ?_⟩
  intro hmem
  have hkey : p.1 ∈ kvs.map (·.1) := List.map_subset _ (mapOf_subperm kvs).subset hmem
  exact hne p.1 hkey p.1 (by simp) rfl

/-- With distinct keys nothing is replaced. -/
theorem mapOf_perm (h : (kvs.map (·.1)).Nodup) : Perm (mapOf kvs) kvs := by
  induction kvs using List.reverseRecOn with
  | nil => exact .refl _
  | append_singleton kvs p ih =>
    obtain ⟨hnd, hfresh⟩ := nodup_keys_append h
    rw [mapOf_append]
    refine (mapSet_perm hfresh).trans ?_
    exact ((ih hnd).cons p).trans (List.perm_append_singleton p kvs).symm

theorem setInsert_perm (h : k ∉ s) : Perm (setInsert k s) (k :: s) := by
  induction s with
  | nil => exact .refl _
  | cons k' s ih =>
    rw [List.mem_cons, not_or] at h
    rw [setInsert]
    split_ifs with h₁ h₂
    · exact .refl _
    · exact absurd h₂ h.1
    · exact ((ih h.2).cons _).trans (.swap ..)

theorem setOf_perm (h : ks.Nodup) : Perm (setOf ks) ks := by
  induction ks using List.reverseRecOn with
  | nil => exact .refl _
  | append_singleton ks k ih =>
    rw [List.nodup_append] at h
    obtain ⟨hnd, -, hne⟩ := h
    have hfresh : k ∉ setOf ks := by
      intro hmem
      exact hne k (mem_setOf.mp hmem) k (by simp) rfl
    rw [show setOf (ks ++ [k]) = setInsert k (setOf ks) by simp [setOf]]
    refine (setInsert_perm hfresh).trans ?_
    exact ((ih hnd).cons k).trans (List.perm_append_singleton k ks).symm

/-- `m.insert(make_pair(k, v))`: an entry that is there stays. -/
def mapInsert (k : κ) (v : β) (m : List (κ × β)) : List (κ × β) :=
  if k ∈ m.map (·.1) then m else mapSet k v m

/-- The map a sequence of `insert`s leaves behind. -/
def mapOfInserts (kvs : List (κ × β)) : List (κ × β) :=
  kvs.foldl (fun m p => mapInsert p.1 p.2 m) []

/-- With distinct keys `insert` and assignment leave the same map. -/
theorem mapOfInserts_eq (h : (kvs.map (·.1)).Nodup) : mapOfInserts kvs = mapOf kvs := by
  induction kvs using List.reverseRecOn with
  | nil => rfl
  | append_singleton kvs p ih =>
    obtain ⟨hnd, hfresh⟩ := nodup_keys_append h
    rw [show mapOfInserts (kvs ++ [p]) = mapInsert p.1 p.2 (mapOfInserts kvs) by
      simp [mapOfInserts], ih hnd, mapOf_append, mapInsert, if_neg hfresh]

end Contents

section Ascending

variable [Std.Asymm (α := κ) (· < ·)] {k : κ} {v : β} {m kvs : List (κ × β)} {s ks : List κ}

/-- A key above all others goes to the end. -/
theorem mapSet_of_lt (h : ∀ p ∈ m, p.1 < k) : mapSet k v m = m ++ [(k, v)] := by
  induction m with
  | nil => rfl
  | cons p m ih =>
    have hp : p.1 < k := h p (by simp)
    have hnot : ¬ k < p.1 := Std.Asymm.asymm _ _ hp
    have hne : k ≠ p.1 := by
      rintro rfl
      exact hnot hp
    rw [mapSet, if_neg hnot, if_neg hne, ih fun q hq => h q (by simp [hq])]
    rfl

/-- Assignments in ascending order leave the map as it was written. -/
theorem mapOf_of_ascending (h : kvs.Pairwise fun p q => p.1 < q.1) : mapOf kvs = kvs := by
  induction kvs using List.reverseRecOn with
  | nil => rfl
  | append_singleton kvs p ih =>
    rw [List.pairwise_append] at h
    obtain ⟨hkvs, -, hlast⟩ := h
    rw [mapOf_append, ih hkvs]
    exact mapSet_of_lt fun q hq => hlast q hq p (by simp)

omit [DecidableEq κ] in
/-- An iterator at an entry goes on to what is behind it. -/
theorem mapNext_of_ascending {post : List (κ × β)}
    (h : (m ++ (k, v) :: post).Pairwise fun p q => p.1 < q.1) :
    mapNext k (m ++ (k, v) :: post) = mapBegin post := by
  rw [List.pairwise_append, List.pairwise_cons] at h
  obtain ⟨-, ⟨hpost, -⟩, hm⟩ := h
  have hnone : (m ++ [(k, v)]).find? (fun p => decide (k < p.1)) = none := by
    rw [List.find?_eq_none]
    intro p hp
    rw [decide_eq_true_eq]
    rcases List.mem_append.mp hp with hp | hp
    · exact Std.Asymm.asymm _ _ (hm p hp (k, v) (by simp))
    · obtain rfl := List.mem_singleton.mp hp
      exact Std.Irrefl.irrefl k
  rw [mapNext, List.append_cons, List.find?_append, hnone, Option.none_or, mapBegin]
  cases post with
  | nil => rfl
  | cons q post =>
    have hq : k < q.1 := hpost q (by simp)
    rw [List.find?_cons_of_pos (by simpa using hq), List.head?_cons]

theorem setInsert_of_lt (h : ∀ x ∈ s, x < k) : setInsert k s = s ++ [k] := by
  induction s with
  | nil => rfl
  | cons x s ih =>
    have hx : x < k := h x (by simp)
    have hnot : ¬ k < x := Std.Asymm.asymm _ _ hx
    have hne : k ≠ x := by
      rintro rfl
      exact hnot hx
    rw [setInsert, if_neg hnot, if_neg hne, ih fun y hy => h y (by simp [hy])]
    rfl

theorem setOf_of_ascending (h : ks.Pairwise (· < ·)) : setOf ks = ks := by
  induction ks using List.reverseRecOn with
  | nil => rfl
  | append_singleton ks k ih =>
    rw [List.pairwise_append] at h
    obtain ⟨hks, -, hlast⟩ := h
    rw [show setOf (ks ++ [k]) = setInsert k (setOf ks) by simp [setOf], ih hks]
    exact setInsert_of_lt fun x hx => hlast x hx k (by simp)

end Ascending

section Lookup

variable [BEq κ] [LawfulBEq κ]

omit [LT κ] [DecidableLT κ] in
private theorem lookup_cons_ite (x k : κ) (v : β) (m : List (κ × β)) :
    ((k, v) :: m).lookup x = if x = k then some v else m.lookup x := by
  by_cases h : x = k
  · simp [h]
  · have hb : (x == k) = false := by simpa using h
    simp [List.lookup_cons, hb, h]

theorem lookup_mapSet (k x : κ) (v : β) (m : List (κ × β)) :
    (mapSet k v m).lookup x = if x = k then some v else m.lookup x := by
  induction m with
  | nil => rw [mapSet, lookup_cons_ite]
  | cons p m ih =>
    obtain ⟨k', v'⟩ := p
    rw [mapSet]
    -- the entry goes in front of the first one, in its place, or further down
    split_ifs with h₁ h₂ h₃ h₄ h₅
    · rw [lookup_cons_ite, if_pos h₂]
    · rw [lookup_cons_ite, if_neg h₂]
    · rw [lookup_cons_ite, if_pos h₄]
    · rw [lookup_cons_ite, if_neg h₄, lookup_cons_ite, if_neg (h₃ ▸ h₄)]
    · rw [lookup_cons_ite, ih, if_pos h₅, if_neg (by rw [h₅]; exact h₃)]
    · rw [lookup_cons_ite, ih, if_neg h₅, lookup_cons_ite]

omit [DecidableLT κ] in
theorem lookup_of_ascending [Std.Irrefl (α := κ) (· < ·)] {k : κ} {v : β}
    {m post : List (κ × β)} (h : (m ++ (k, v) :: post).Pairwise fun p q => p.1 < q.1) :
    (m ++ (k, v) :: post).lookup k = some v := by
  rw [List.pairwise_append] at h
  have hnone : m.lookup k = none := by
    rw [List.lookup_eq_none_iff]
    intro p hp
    rw [bne_iff_ne]
    rintro rfl
    exact Std.Irrefl.irrefl _ (h.2.2 p hp (p.1, v) (by simp))
  rw [List.lookup_append, hnone, Option.none_or, lookup_cons_ite, if_pos rfl]

omit [LT κ] [DecidableLT κ] [DecidableEq κ] in
theorem not_mem_keys_of_lookup {k : κ} {m : List (κ × β)} (h : m.lookup k = none) :
    k ∉ m.map (·.1) := by
  rw [List.lookup_eq_none_iff] at h
  intro hk
  obtain ⟨p, hp, rfl⟩ := List.mem_map.mp hk
  simpa using h p hp

omit [LT κ] [DecidableLT κ] [DecidableEq κ] in
theorem mem_of_lookup {k : κ} {v : β} {m : List (κ × β)} (h : m.lookup k = some v) :
    (k, v) ∈ m := by
  obtain ⟨before, after, rfl, -⟩ := List.lookup_eq_some_iff.mp h
  simp

omit [LT κ] [DecidableLT κ] [DecidableEq κ] in
theorem exists_lookup_of_mem_keys {k : κ} {m : List (κ × β)} (h : k ∈ m.map (·.1)) :
    ∃ v, m.lookup k = some v := by
  by_contra hnone
  exact not_mem_keys_of_lookup (Option.eq_none_iff_forall_ne_some.mpr fun v hv => hnone ⟨v, hv⟩) h

omit [LT κ] [DecidableLT κ] [DecidableEq κ] in
theorem mem_keys_iff_isSome {k : κ} {m : List (κ × β)} :
    k ∈ m.map (·.1) ↔ (m.lookup k).isSome := by
  rw [Option.isSome_iff_exists]
  exact ⟨exists_lookup_of_mem_keys, fun ⟨v, hv⟩ => List.mem_map.mpr ⟨(k, v), mem_of_lookup hv, rfl⟩⟩

/-- Assignments of one function to some keys. -/
theorem lookup_foldl_mapSet {f : κ → β} (ks : List κ) (m : List (κ × β)) (x : κ) :
    (ks.foldl (fun m k => mapSet k (f k) m) m).lookup x =
      if x ∈ ks then some (f x) else m.lookup x := by
  induction ks generalizing m with
  | nil => simp
  | cons k ks ih =>
    rw [List.foldl_cons, ih, lookup_mapSet]
    by_cases hx : x = k <;> simp [hx]

/-- Assignments to different keys are all found, whatever was there before. -/
theorem lookup_foldl_of_mem {kvs : List (κ × β)} (hnd : (kvs.map (·.1)).Nodup)
    (m : List (κ × β)) {p : κ × β} (hp : p ∈ kvs) :
    (kvs.foldl (fun m p => mapSet p.1 p.2 m) m).lookup p.1 = some p.2 := by
  induction kvs using List.reverseRecOn with
  | nil => cases hp
  | append_singleton kvs q ih =>
    rw [List.map_append, List.nodup_append'] at hnd
    rw [List.foldl_append, List.foldl_cons, List.foldl_nil, lookup_mapSet]
    rcases List.mem_append.mp hp with hp | hp
    · rw [if_neg, ih hnd.1 hp]
      intro heq
      exact hnd.2.2 (List.mem_map_of_mem hp) (by simp [heq])
    · rw [List.mem_singleton.mp hp, if_pos rfl]

omit [LT κ] [DecidableLT κ] in
/-- `m.erase(k)`. -/
theorem lookup_filter_ne (k x : κ) (m : List (κ × β)) :
    (m.filter fun p => p.1 ≠ k).lookup x = if x = k then none else m.lookup x := by
  induction m with
  | nil => simp
  | cons p m ih =>
    obtain ⟨k', v⟩ := p
    rw [List.filter_cons, lookup_cons_ite]
    by_cases hk : k' = k
    · rw [if_neg (by simpa using hk), ih, hk]
      split_ifs <;> rfl
    · rw [if_pos (by simpa using hk), lookup_cons_ite, ih]
      by_cases hx : x = k'
      · simp [hx, hk]
      · simp [hx]

omit [LT κ] [DecidableLT κ] in
theorem lookup_foldl_erase (ks : List κ) (m : List (κ × β)) (x : κ) :
    (ks.foldl (fun m k => m.filter fun p => p.1 ≠ k) m).lookup x =
      if x ∈ ks then none else m.lookup x := by
  induction ks generalizing m with
  | nil => simp
  | cons k ks ih =>
    rw [List.foldl_cons, ih, lookup_filter_ne]
    by_cases hx : x = k <;> simp [hx]

theorem lookup_mapInsert (k x : κ) (v : β) (m : List (κ × β)) :
    (mapInsert k v m).lookup x = if x = k then some ((m.lookup k).getD v) else m.lookup x := by
  rw [mapInsert]
  split_ifs with hk hx hx
  · obtain ⟨v', hv'⟩ := exists_lookup_of_mem_keys hk
    rw [hx, hv', Option.getD_some]
  · rfl
  · have hnone : m.lookup k = none := by
      rw [List.lookup_eq_none_iff]
      intro p hp
      rw [bne_iff_ne]
      rintro rfl
      exact hk (List.mem_map_of_mem hp)
    rw [lookup_mapSet, if_pos hx, hnone, Option.getD_none]
  · rw [lookup_mapSet, if_neg hx]

omit [LT κ] [DecidableLT κ] in
theorem lookup_of_mem {k : κ} {v : β} {m : List (κ × β)} (hnd : (m.map (·.1)).Nodup)
    (h : (k, v) ∈ m) : m.lookup k = some v := by
  induction m with
  | nil => cases h
  | cons p m ih =>
    obtain ⟨k', v'⟩ := p
    rw [List.map_cons, List.nodup_cons] at hnd
    rw [lookup_cons_ite]
    rcases List.mem_cons.mp h with hfirst | hrest
    · obtain ⟨rfl, rfl⟩ := Prod.mk.inj hfirst
      exact if_pos rfl
    · have hne : k ≠ k' := by
        rintro rfl
        exact hnd.1 (List.mem_map.mpr ⟨_, hrest, rfl⟩)
      rw [if_neg hne, ih hnd.2 hrest]

/-- A key of the map an assignment sequence leaves behind reads the value of the
last assignment to it. -/
theorem lookup_mapOf (kvs : List (κ × β)) (x : κ) :
    (mapOf kvs).lookup x = kvs.reverse.lookup x := by
  induction kvs using List.reverseRecOn with
  | nil => rfl
  | append_singleton kvs p ih =>
    rw [mapOf, List.foldl_append, List.foldl_cons, List.foldl_nil, ← mapOf, lookup_mapSet, ih,
      List.reverse_append, List.reverse_singleton, List.singleton_append, lookup_cons_ite]

end Lookup

end Containers

/-! ## Arrays

`new T[n]` is `n` elements that have no value yet. Writing outside of them is undefined, and so is
an `int` that overflows. -/

section Arrays

variable {α β : Type}

/-- `i++` on an `int`. -/
def incInt (i : ℤ) : Option ℤ := if i + 1 < 2 ^ 31 then some (i + 1) else none

/-- `a[i] = v`. -/
def write (a : List (Option α)) (i : ℤ) (v : α) : Option (List (Option α)) :=
  if 0 ≤ i ∧ i < a.length then some (a.set i.toNat (some v)) else none

/-- An array of `n` elements the first of which have been written. -/
def filled (n : ℕ) (vs : List α) : List (Option α) :=
  vs.map some ++ List.replicate (n - vs.length) none

@[simp] theorem filled_nil (n : ℕ) : filled n ([] : List α) = List.replicate n none := by
  simp [filled]

theorem filled_length (vs : List α) : filled vs.length vs = vs.map some := by
  simp [filled]

theorem incInt_of_lt {i : ℤ} (h : i + 1 < 2 ^ 31) : incInt i = some (i + 1) := if_pos h

theorem incInt_eq_some {i j : ℤ} (h : incInt i = some j) : j = i + 1 ∧ i + 1 < 2 ^ 31 := by
  rw [incInt] at h
  split_ifs at h with hlt
  exact ⟨(Option.some.inj h).symm, hlt⟩

theorem write_of_lt {a : List (Option α)} {i : ℕ} (v : α) (h : i < a.length) :
    write a i v = some (a.set i (some v)) := by
  rw [write, if_pos ⟨by omega, by exact_mod_cast h⟩, Int.toNat_natCast]

theorem write_filled {n : ℕ} (vs : List α) (v : α) (h : vs.length < n) :
    write (filled n vs) vs.length v = some (filled n (vs ++ [v])) := by
  have hrest : n - vs.length = n - (vs.length + 1) + 1 := by omega
  have hbound : vs.length < (filled n vs).length := by
    simp only [filled, List.length_append, List.length_map, List.length_replicate]
    omega
  rw [write_of_lt v hbound, filled, hrest, List.replicate_succ, filled, List.map_append,
    List.length_append, List.length_singleton]
  simp

/-- Writes to different places inside the array are all found there. -/
theorem foldlM_write (f : β → α) {l : List (β × ℕ)} {a : List (Option α)}
    (hin : ∀ p ∈ l, p.2 < a.length) (hnd : (l.map (·.2)).Nodup) :
    ∃ a', l.foldlM (fun a p => write a p.2 (f p.1)) a = some a' ∧ a'.length = a.length ∧
      (∀ p ∈ l, a'[p.2]? = some (some (f p.1))) ∧ ∀ i ∉ l.map (·.2), a'[i]? = a[i]? := by
  induction l generalizing a with
  | nil => exact ⟨a, rfl, rfl, by simp, by simp⟩
  | cons p l ih =>
    rw [List.map_cons, List.nodup_cons] at hnd
    have hp := hin p (by simp)
    obtain ⟨a', hrun, hlen, hl, hother⟩ := ih (a := a.set p.2 (some (f p.1)))
      (fun q hq => by rw [List.length_set]; exact hin q (by simp [hq])) hnd.2
    refine ⟨a', ?_, by rw [hlen, List.length_set], ?_, ?_⟩
    · rw [List.foldlM_cons, write_of_lt _ hp]
      exact hrun
    · intro q hq
      rcases List.mem_cons.mp hq with rfl | hq
      · rw [hother _ hnd.1, List.getElem?_set_self hp]
      · exact hl q hq
    · intro i hi
      rw [List.map_cons, List.mem_cons, not_or] at hi
      rw [hother i hi.2, List.getElem?_set_ne (Ne.symm hi.1)]

/-- Changes of one element each: an element sees those made to it, in their order. -/
theorem getElem?_foldl_modify (f : β → α → α) (cs : List (ℕ × β)) (l : List α) (i : ℕ) :
    (cs.foldl (fun l c => l.modify c.1 (f c.2)) l)[i]? =
      l[i]?.map fun a => (cs.filter (·.1 = i)).foldl (fun a c => f c.2 a) a := by
  induction cs generalizing l with
  | nil => simp
  | cons c cs ih =>
    rw [List.foldl_cons, ih, List.getElem?_modify, Option.map_eq_map, Option.map_map]
    congr 1
    funext a
    by_cases hc : c.1 = i
    · rw [List.filter_cons_of_pos (by simpa using hc), List.foldl_cons, Function.comp, if_pos hc]
    · rw [List.filter_cons_of_neg (by simpa using hc), Function.comp, if_neg hc]

end Arrays

end GcAdaptor.Cxx
