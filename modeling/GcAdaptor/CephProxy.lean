/-
The **clients of the proxy** (`ceph_proxy/CephProxy.cc`): how many there are, and which one a
request gets.

`MemberInit` rounds the configured number up to a power of two, `RadosInit` connects that many
clients, and `GetIoCtxWithClient` masks a counter that wraps with the number minus one. The
number is rounded with a shift of an `int`: by 32 places for 0 and for everything above
`2 ^ 31`, which C++ does not define. The vector of the clients is not emptied when `RadosInit`
fails and is called again.

`clients_selected_iff` says for which numbers, and after what, every client gets its turn.
-/
import Mathlib.Data.Nat.ModEq
import GcAdaptor.Cxx

set_option autoImplicit false

namespace GcAdaptor.CephProxy

open GcAdaptor.Cxx

/-! ## `MemberInit` and `RadosInit` -/

def ALIGNBASE : ℕ := 32

/-- `__builtin_clz` of a number other than 0. -/
def builtinClz (x : UInt32) : ℕ := 31 - x.toNat.log2

/-- A shift by up to 31 places is defined, the sign bit included once the result is a
`uint32_t`. A shift by 32 is not; `shifted32` is what the machine makes of it. -/
def u32AlignUp (shifted32 x : UInt32) : UInt32 :=
  if x = 1 then 1
  else
    let bits := ALIGNBASE - builtinClz (x - 1)
    if bits < 32 then UInt32.ofNat (2 ^ bits) else shifted32

structure Members where
  clientNum : UInt32
  vecMask : UInt32

def memberInit (shifted32 radosCtxNum : UInt32) : Members :=
  let clientNum := u32AlignUp shifted32 radosCtxNum
  { clientNum := clientNum, vecMask := clientNum - 1 }

/-- The loop of `RadosInit`; `init i` is the client of call `i` of `RadosClientInit`, `none` if
it fails. -/
def clientLoop (init : ℕ → Option ℕ) : ℕ → ℕ → List ℕ → Bool × List ℕ
  | 0, _, ioClientVec => (true, ioClientVec)
  | left + 1, i, ioClientVec =>
    match init i with
    | none => (false, ioClientVec)
    | some c => clientLoop init left (i + 1) (ioClientVec ++ [c])

/-- Call 0 is for `radosClient`. -/
def radosInit (init : ℕ → Option ℕ) (clientNum : UInt32) (ioClientVec : List ℕ) :
    Bool × List ℕ :=
  match init 0 with
  | none => (false, ioClientVec)
  | some _ => clientLoop init clientNum.toNat 1 ioClientVec

/-- `cnt & vecMask`, of the call that finds the counter at `cnt`. -/
def clientIndex (vecMask cnt : UInt32) : ℕ := (cnt &&& vecMask).toNat

/-! ## Who gets a turn -/

/-- How often client `i` is taken in `n` calls from counter value `cnt` on. -/
def uses (vecMask cnt : UInt32) (n i : ℕ) : ℕ :=
  (List.range n).countP fun j => clientIndex vecMask (cnt + UInt32.ofNat j) = i

/-- Enough clients, none outside the vector, and all of them equally often. `ioClientVec` is
the vector before `RadosInit`. -/
structure Selected (m : Members) (radosCtxNum : UInt32) (ioClientVec : List ℕ) : Prop where
  powerOfTwo : ∃ k, m.clientNum.toNat = 2 ^ k
  enough : max radosCtxNum.toNat 1 ≤ m.clientNum.toNat
  inBounds : ∀ init vec, radosInit init m.clientNum ioClientVec = (true, vec) →
    ∀ cnt, clientIndex m.vecMask cnt < vec.length
  evenly : ∀ init vec, radosInit init m.clientNum ioClientVec = (true, vec) →
    ∀ cnt, ∃ u, ∀ i < vec.length, uses m.vecMask cnt m.clientNum.toNat i = u

section Clients

variable {shifted32 x mask cnt : UInt32} {k i : ℕ}

theorem builtinClz_of_large (h : 2 ^ 31 ≤ x.toNat) : builtinClz x = 0 := by
  have hlog : 31 ≤ x.toNat.log2 := (Nat.le_log2 (by omega)).mpr h
  rw [builtinClz]
  omega

theorem toNat_pred (h : 1 ≤ x.toNat) : (x - 1).toNat = x.toNat - 1 :=
  UInt32.toNat_sub_of_le _ _ (UInt32.le_iff_toNat_le.mpr h)

/-- 0 wraps to the largest number first. -/
theorem u32AlignUp_undefined (h : x = 0 ∨ 2 ^ 31 < x.toNat) :
    u32AlignUp shifted32 x = shifted32 := by
  have hne : x ≠ 1 := by
    rintro rfl
    rcases h with h | h <;> revert h <;> decide
  have hpred : 2 ^ 31 ≤ (x - 1).toNat := by
    rcases h with rfl | h
    · decide
    · rw [toNat_pred (by omega)]
      omega
  simp [u32AlignUp, hne, builtinClz_of_large hpred, ALIGNBASE]

/-- **Rounding up.** -/
theorem u32AlignUp_of_le (hpos : 1 ≤ x.toNat) (hle : x.toNat ≤ 2 ^ 31) :
    ∃ k, (u32AlignUp shifted32 x).toNat = 2 ^ k ∧ x.toNat ≤ 2 ^ k := by
  by_cases hone : x = 1
  · exact ⟨0, by rw [u32AlignUp, if_pos hone]; rfl, by rw [hone]; decide⟩
  have hone' : x.toNat ≠ 1 := fun h => hone (UInt32.toNat_inj.mp h)
  have hpred := toNat_pred hpos
  have hlog : (x.toNat - 1).log2 < 31 := (Nat.log2_lt (by omega)).mpr (by omega)
  have hbits : ALIGNBASE - builtinClz (x - 1) = (x.toNat - 1).log2 + 1 := by
    rw [builtinClz, hpred, ALIGNBASE]
    omega
  refine ⟨(x.toNat - 1).log2 + 1, ?_, ?_⟩
  · have hlt : 2 ^ ((x.toNat - 1).log2 + 1) < 2 ^ 32 :=
      Nat.pow_lt_pow_right (by norm_num) (by omega)
    simp only [u32AlignUp, if_neg hone, hbits, if_pos (show (x.toNat - 1).log2 + 1 < 32 by omega)]
    exact UInt32.toNat_ofNat_of_lt' hlt
  · have := Nat.lt_log2_self (n := x.toNat - 1)
    omega

/-- A power of two that is counted in 32 bits masks with its predecessor. -/
theorem clientIndex_eq {n : UInt32} (hn : n.toNat = 2 ^ k) (cnt : UInt32) :
    clientIndex (n - 1) cnt = cnt.toNat % n.toNat := by
  have hpos : 1 ≤ n.toNat := by
    rw [hn]
    exact Nat.one_le_two_pow
  rw [clientIndex, UInt32.toNat_and, toNat_pred hpos, hn, Nat.and_two_pow_sub_one_eq_mod]

/-- **Turns.** Of as many calls in a row as there are clients one takes client `i`, also when the
counter wraps. -/
theorem uses_eq_one {n : UInt32} (hn : n.toNat = 2 ^ k) (cnt : UInt32) (hi : i < n.toNat) :
    uses (n - 1) cnt n.toNat i = 1 := by
  -- so the counter may wrap without a client losing its turn
  have hdvd : n.toNat ∣ 2 ^ 32 := by
    have hlt := n.toNat_lt
    rw [hn] at hlt ⊢
    exact Nat.pow_dvd_pow 2 ((Nat.pow_lt_pow_iff_right (by norm_num)).mp hlt).le
  have hindex : ∀ j, clientIndex (n - 1) (cnt + UInt32.ofNat j) = (cnt.toNat + j) % n.toNat := by
    intro j
    rw [clientIndex_eq hn, UInt32.toNat_add, UInt32.toNat_ofNat', Nat.mod_mod_of_dvd _ hdvd,
      Nat.add_mod, Nat.mod_mod_of_dvd _ hdvd, ← Nat.add_mod]
  have hmap : uses (n - 1) cnt n.toNat i =
      ((List.range n.toNat).map fun j => (cnt.toNat + j) % n.toNat).count i := by
    rw [List.count, List.countP_map, uses]
    congr 1
    funext j
    simp [hindex, beq_eq_decide]
  -- the indices of `n` calls in a row are different, and `i` is among them
  rw [hmap]
  refine List.count_eq_one_of_mem ?_ ?_
  · refine List.Nodup.map_on ?_ List.nodup_range
    intro a ha b hb hab
    rw [List.mem_range] at ha hb
    have hmod : a ≡ b [MOD n.toNat] := Nat.ModEq.add_left_cancel' cnt.toNat hab
    exact Nat.ModEq.eq_of_lt_of_lt hmod ha hb
  · rw [List.mem_map]
    refine ⟨(i + (n.toNat - cnt.toNat % n.toNat)) % n.toNat,
      List.mem_range.mpr (Nat.mod_lt _ (by omega)), ?_⟩
    have hle : cnt.toNat % n.toNat ≤ n.toNat := (Nat.mod_lt _ (by omega)).le
    rw [Nat.add_mod_mod, ← Nat.mod_add_mod,
      show cnt.toNat % n.toNat + (i + (n.toNat - cnt.toNat % n.toNat)) = i + n.toNat by omega,
      Nat.add_mod_right, Nat.mod_eq_of_lt hi]

theorem uses_eq_zero {n : UInt32} (hn : n.toNat = 2 ^ k) (cnt : UInt32) (c : ℕ)
    (hi : n.toNat ≤ i) : uses (n - 1) cnt c i = 0 := by
  rw [uses, List.countP_eq_zero]
  intro j _
  rw [decide_eq_true_eq, clientIndex_eq hn]
  have hpos : 0 < n.toNat := by
    rw [hn]
    exact Nat.two_pow_pos k
  exact ((Nat.mod_lt _ hpos).trans_le hi).ne

/-! The vector after `RadosInit`. -/

theorem clientLoop_length {init : ℕ → Option ℕ} {left i : ℕ} {ioClientVec vec : List ℕ}
    (h : clientLoop init left i ioClientVec = (true, vec)) :
    vec.length = ioClientVec.length + left := by
  induction left generalizing i ioClientVec with
  | zero =>
    rw [clientLoop, Prod.mk.injEq] at h
    rw [← h.2, Nat.add_zero]
  | succ left ih =>
    rw [clientLoop] at h
    cases hinit : init i with
    | none => simp [hinit] at h
    | some c =>
      rw [hinit] at h
      rw [ih h, List.length_append, List.length_singleton]
      omega

theorem clientLoop_some (c : ℕ) (left i : ℕ) (ioClientVec : List ℕ) :
    ∃ vec, clientLoop (fun _ => some c) left i ioClientVec = (true, vec) := by
  induction left generalizing i ioClientVec with
  | zero => exact ⟨_, rfl⟩
  | succ left ih => exact ih (i + 1) (ioClientVec ++ [c])

theorem radosInit_length {init : ℕ → Option ℕ} {n : UInt32} {ioClientVec vec : List ℕ}
    (h : radosInit init n ioClientVec = (true, vec)) :
    vec.length = ioClientVec.length + n.toNat := by
  rw [radosInit] at h
  cases hinit : init 0 with
  | none => simp [hinit] at h
  | some c =>
    rw [hinit] at h
    exact clientLoop_length h

/-- The number is a power of two that is large enough. -/
theorem clientNum_iff :
    (∃ k, (u32AlignUp shifted32 x).toNat = 2 ^ k ∧ max x.toNat 1 ≤ 2 ^ k) ↔
      1 ≤ x.toNat ∧ x.toNat ≤ 2 ^ 31 ∨ x = 0 ∧ ∃ k, shifted32.toNat = 2 ^ k := by
  constructor
  · rintro ⟨k, hk, henough⟩
    by_cases hzero : x = 0
    · rw [u32AlignUp_undefined (.inl hzero)] at hk
      exact .inr ⟨hzero, k, hk⟩
    · -- a power of two of 32 bits is at most `2 ^ 31`
      have hk32 : 2 ^ k < 2 ^ 32 := hk ▸ UInt32.toNat_lt _
      have hkle : k ≤ 31 := by
        have := (Nat.pow_lt_pow_iff_right (by norm_num)).mp hk32
        omega
      have hpow : 2 ^ k ≤ 2 ^ 31 := Nat.pow_le_pow_right (by norm_num) hkle
      have hpos : x.toNat ≠ 0 := fun h => hzero (UInt32.toNat_inj.mp h)
      exact .inl ⟨by omega, by omega⟩
  · rintro (⟨hpos, hle⟩ | ⟨rfl, k, hk⟩)
    · obtain ⟨k, hk, hxk⟩ := @u32AlignUp_of_le shifted32 x hpos hle
      exact ⟨k, hk, by omega⟩
    · have hone : 1 ≤ 2 ^ k := Nat.one_le_two_pow
      rw [u32AlignUp_undefined (.inl rfl)]
      exact ⟨k, hk, by simpa using hone⟩

end Clients

/-- **The clients.** There are enough of them, no call reaches outside the vector, and any
`clientNum` calls in a row take all of them equally often, if the number configured is from 1
to `2 ^ 31`, or is 0 and the machine makes a power of two of the undefined shift, and if no
client was there before. -/
theorem clients_selected_iff (shifted32 radosCtxNum : UInt32) (ioClientVec : List ℕ) :
    Selected (memberInit shifted32 radosCtxNum) radosCtxNum ioClientVec ↔
      ioClientVec = [] ∧ (1 ≤ radosCtxNum.toNat ∧ radosCtxNum.toNat ≤ 2 ^ 31 ∨
        radosCtxNum = 0 ∧ ∃ k, shifted32.toNat = 2 ^ k) := by
  rw [← clientNum_iff]
  set n := u32AlignUp shifted32 radosCtxNum with hn
  have hmembers : memberInit shifted32 radosCtxNum = { clientNum := n, vecMask := n - 1 } := rfl
  rw [hmembers]
  constructor
  · rintro ⟨⟨k, hk⟩, henough, -, hevenly⟩
    refine ⟨?_, k, hk, hk ▸ henough⟩
    -- all calls of `RadosClientInit` succeed: a client behind the first `n` gets no turn
    obtain ⟨vec, hvec⟩ := clientLoop_some 0 n.toNat 1 ioClientVec
    have hlen := clientLoop_length hvec
    obtain ⟨u, hu⟩ := hevenly (fun _ => some 0) vec hvec 0
    have hpos : 0 < n.toNat := by
      rw [hk]
      exact Nat.two_pow_pos k
    have hfirst := hu 0 (by omega)
    rw [uses_eq_one hk 0 hpos] at hfirst
    by_contra hne
    have hbefore : 0 < ioClientVec.length := List.length_pos_of_ne_nil hne
    have hlast := hu n.toNat (by omega)
    rw [uses_eq_zero hk 0 n.toNat le_rfl] at hlast
    omega
  · rintro ⟨rfl, k, hk, henough⟩
    refine ⟨⟨k, hk⟩, hk ▸ henough, ?_, ?_⟩
    · intro init vec hvec cnt
      rw [radosInit_length hvec, clientIndex_eq hk]
      have hpos : 0 < n.toNat := by
        rw [hk]
        exact Nat.two_pow_pos k
      exact (Nat.mod_lt _ hpos).trans_le (Nat.le_add_left _ _)
    · intro init vec hvec cnt
      refine ⟨1, fun i hi => ?_⟩
      rw [radosInit_length hvec, List.length_nil, Nat.zero_add] at hi
      exact uses_eq_one hk cnt hi

/-- For `2 ^ 31 + 1` the shift is by 32 places. Where that leaves 1, there is one client instead
of more than `2 ^ 31`. After an attempt that has left a client behind, 1 gives a vector of two
of which the second is never taken. -/
theorem clients_not_selected :
    ¬ Selected (memberInit 1 2147483649) 2147483649 [] ∧ (memberInit 1 2147483649).clientNum = 1 ∧
      ¬ Selected (memberInit 1 1) 1 [7] := by
  refine ⟨?_, by decide, ?_⟩
  · intro h
    exact absurd h.enough (by decide)
  · intro h
    obtain ⟨u, hu⟩ := h.evenly (fun _ => some 9) [7, 9] rfl 0
    have h0 : u = 1 := (hu 0 (by decide)).symm.trans (by decide)
    have h1 : u = 0 := (hu 1 (by decide)).symm.trans (by decide)
    omega

end GcAdaptor.CephProxy
