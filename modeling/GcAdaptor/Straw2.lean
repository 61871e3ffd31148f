/-
The **ARM straw2 choice**: the patch's `bucket_straw2_choose` and what it calls,
`crush_hash32_3x3`, `crush_hash32_3_simdx2`, `crush_init_lntable` and the two
`generate_exponential_distribution` variants, against the plain straw2 loop.

A straw2 bucket draws one number for each item and takes the item with the
highest. Every client must draw the same numbers, or two clients place one object
on two OSDs. The ARM version draws eight numbers at a time on two vector
registers; of a bucket below four items it draws three at a time on scalars; and
it looks the logarithm up in a table.

Three things stand between the two versions. The hash is interleaved by hand, and
`LaneProgram` shows that each lane computes the plain hash. The lanes beyond the
end of the bucket hold whatever the stack held, so their draws are arbitrary, and
so is a division by a zero weight; the model takes both as the parameter
`Garbage`, and the update never reads them. And the scan runs in blocks, so the
running maximum is carried across them (`scan_block`).

`crush_ln` is not part of the patch. It is the parameter `CrushLn`, with its
documented range.
-/
import GcAdaptor.LaneProgram
import Mathlib.Tactic.Linarith

set_option autoImplicit false

namespace GcAdaptor.Straw2

open LaneProgram

/-! ## `crush_hash32_3`, plain and interleaved -/

abbrev U32 := BitVec 32

/-- The hash types of `hash.h`: the one there is, and any other value of `type`. -/
inductive CrushHash
  | rjenkins1
  | other
deriving DecidableEq

/-- The variables of the hash functions. -/
inductive Reg
  | a | b | c | x | y | hash
deriving DecidableEq

def crushHashSeed : U32 := 1315423911

/-- `CRUSH_SIMD_NUM`: lanes of one vector register. -/
def crushSimdNum : ℕ := 4

/-- `crush_hashmix(p, q, r)`, whose parameters the source calls `a`, `b` and `c`. -/
def crushHashmix (p q r : Reg) : List (Stmt Reg) :=
  [.sub p q, .sub p r, .eorShr p r 13,
   .sub q r, .sub q p, .eorShl q p 8,
   .sub r p, .sub r q, .eorShr r q 13,
   .sub p q, .sub p r, .eorShr p r 12,
   .sub q r, .sub q p, .eorShl q p 16,
   .sub r p, .sub r q, .eorShr r q 5,
   .sub p q, .sub p r, .eorShr p r 3,
   .sub q r, .sub q p, .eorShl q p 10,
   .sub r p, .sub r q, .eorShr r q 15]

/-- `crush_hashmix_x3`: every assignment for the three scalar states in turn. -/
def crushHashmixX3 (p q r : Reg) : List (Fin 3 × Stmt Reg) :=
  interleave [0, 1, 2] (crushHashmix p q r)

/-- `crush_hashmix_simdx2`: every assignment for the two vector states in turn. -/
def crushHashmixSimdx2 (p q r : Reg) : List (Fin 2 × Stmt Reg) :=
  interleave [0, 1] (crushHashmix p q r)

/-- The variables at the start of the five mixing rounds. -/
def initial {W : Type} (a b c x y hash : W) : Reg → W
  | .a => a
  | .b => b
  | .c => c
  | .x => x
  | .y => y
  | .hash => hash

/-- `crush_hash32_rjenkins1_3`. -/
def crushHash32Rjenkins13 (a b c : U32) : U32 :=
  run (crushHashmix .a .b .hash ++ crushHashmix .c .x .hash ++ crushHashmix .y .a .hash ++
      crushHashmix .b .x .hash ++ crushHashmix .y .c .hash)
    (initial a b c 231232 1232 (crushHashSeed ^^^ a ^^^ b ^^^ c)) .hash

/-- `crush_hash32_3`. -/
def crushHash323 (type : CrushHash) (a b c : U32) : U32 :=
  match type with
  | .rjenkins1 => crushHash32Rjenkins13 a b c
  | .other => 0

/-- `crush_hash32_3x3`. An array is a function of the index; another hash type
leaves the output array as it was. -/
def crushHash323x3 (type : CrushHash) (ai bi ci hashi : ℕ → U32) : ℕ → U32 :=
  match type with
  | .rjenkins1 =>
    let mixed := runLanes (crushHashmixX3 .a .b .hash ++ crushHashmixX3 .c .x .hash ++
        crushHashmixX3 .y .a .hash ++ crushHashmixX3 .b .x .hash ++ crushHashmixX3 .y .c .hash)
      fun i => initial (ai i) (bi i) (ci i) 231232 1232
        (crushHashSeed ^^^ ai i ^^^ bi i ^^^ ci i)
    fun i => if h : i < 3 then mixed ⟨i, h⟩ .hash else hashi i
  | .other => hashi

/-- `vld1q_u32(&p[offset])`. -/
def vld1q (p : ℕ → U32) (offset : ℕ) : Fin 4 → U32 :=
  fun i => p (offset + i)

/-- `vdupq_n_u32(v)`. -/
def vdupq (v : U32) : Fin 4 → U32 :=
  fun _ => v

/-- `vst1q_u32(&p[offset], v)`. -/
def vst1q (p : ℕ → U32) (offset : ℕ) (v : Fin 4 → U32) : ℕ → U32 :=
  fun i => if h : offset ≤ i ∧ i - offset < 4 then v ⟨i - offset, h.2⟩ else p i

/-- `veorq_u32`. -/
def veorq (v w : Fin 4 → U32) : Fin 4 → U32 :=
  fun i => v i ^^^ w i

/-- `crush_hash32_3_simdx2`: lanes 0 to 3 in the first state, 4 to 7 in the second. -/
def crushHash323Simdx2 (type : CrushHash) (a b c hash : ℕ → U32) : ℕ → U32 :=
  match type with
  | .rjenkins1 =>
    let load (p : ℕ → U32) (half : Fin 2) := vld1q p (crushSimdNum * half)
    let mixed := runLanes (crushHashmixSimdx2 .a .b .hash ++ crushHashmixSimdx2 .c .x .hash ++
        crushHashmixSimdx2 .y .a .hash ++ crushHashmixSimdx2 .b .x .hash ++
        crushHashmixSimdx2 .y .c .hash)
      fun half => initial (load a half) (load b half) (load c half) (vdupq 231232) (vdupq 1232)
        (veorq (veorq (vdupq crushHashSeed) (load a half)) (veorq (load b half) (load c half)))
    vst1q (vst1q hash 0 (mixed 0 .hash)) crushSimdNum (mixed 1 .hash)
  | .other => hash

theorem project_crushHashmixX3 (l : Fin 3) (p q r : Reg) :
    project l (crushHashmixX3 p q r) = crushHashmix p q r := by
  apply project_interleave (by decide)
  decide +revert

theorem project_crushHashmixSimdx2 (half : Fin 2) (p q r : Reg) :
    project half (crushHashmixSimdx2 p q r) = crushHashmix p q r := by
  apply project_interleave (by decide)
  decide +revert

/-- Each scalar lane is the plain hash of its arguments. -/
theorem crushHash323x3_apply (ai bi ci hashi : ℕ → U32) {i : ℕ} (hi : i < 3) :
    crushHash323x3 .rjenkins1 ai bi ci hashi i = crushHash323 .rjenkins1 (ai i) (bi i) (ci i) := by
  simp only [crushHash323x3, dif_pos hi]
  rw [runLanes_apply]
  simp only [project_append, project_crushHashmixX3]
  rfl

/-- What one vector state computes in one of its lanes: the plain hash. The seed
is folded in with the other bracketing, `(seed ^ a) ^ (b ^ c)`. -/
theorem simdx2_half_apply (a b c : Fin 4 → U32) (l : Fin 4) :
    run (crushHashmix .a .b .hash ++ crushHashmix .c .x .hash ++ crushHashmix .y .a .hash ++
        crushHashmix .b .x .hash ++ crushHashmix .y .c .hash)
      (initial a b c (vdupq 231232) (vdupq 1232)
        (veorq (veorq (vdupq crushHashSeed) a) (veorq b c))) .hash l =
      crushHash32Rjenkins13 (a l) (b l) (c l) := by
  rw [run_apply]
  unfold crushHash32Rjenkins13
  congr 1
  funext r
  cases r with
  | hash => exact (BitVec.xor_assoc _ _ _).symm
  | _ => rfl

/-- Each of the eight vector lanes is the plain hash of its arguments. -/
theorem crushHash323Simdx2_apply (a b c hash : ℕ → U32) {i : ℕ} (hi : i < 8) :
    crushHash323Simdx2 .rjenkins1 a b c hash i =
      crushHash323 .rjenkins1 (a i) (b i) (c i) := by
  simp only [crushHash323Simdx2, vst1q, runLanes_apply, project_append,
    project_crushHashmixSimdx2, crushSimdNum]
  by_cases hhalf : 4 ≤ i
  · have hlane : i - 4 < 4 := by omega
    have hindex : 4 + (i - 4) = i := by omega
    rw [dif_pos ⟨hhalf, hlane⟩, simdx2_half_apply]
    simp [vld1q, hindex, crushHash323]
  · have hlane : i - 0 < 4 := by omega
    rw [dif_neg fun h => hhalf h.1, dif_pos ⟨i.zero_le, hlane⟩, simdx2_half_apply]
    simp [vld1q, crushHash323]

/-! ## The logarithm table -/

/-- `crush_ln`, which lies outside the patch: fixed point with 44 binary places,
on a 16-bit argument between `0` and `2 ^ 48` (its own comment: it computes
`2^44*log2(input+1)`). -/
structure CrushLn where
  ln : U32 → BitVec 64
  ln_le : ∀ u : U32, u.toNat ≤ 0xffff → (ln u).toNat ≤ 2 ^ 48

/-- `CRUSH_LN_TABLE_LEN`. -/
def crushLnTableLen : ℕ := 65536

/-- `crush_ln(u) - 0x1000000000000ll`, an unsigned subtraction read as `__s64`. -/
def lnEntry (crushLn : CrushLn) (u : U32) : ℤ :=
  (crushLn.ln u - 0x1000000000000#64).toInt

/-- `crush_init_lntable`: `table` is `crush_ln_table` before the call, `none` for
`NULL`; `malloc` is the block `malloc` returns, with its arbitrary contents. -/
def crushInitLntable (crushLn : CrushLn) (malloc table : Option (ℕ → ℤ)) : Option (ℕ → ℤ) :=
  match table with
  | some filled => some filled
  | none =>
    match malloc with
    | none => none
    | some block =>
      some ((List.range crushLnTableLen).foldl
        (fun t i => Function.update t i (lnEntry crushLn (BitVec.ofNat 32 i &&& 0xffff))) block)

/-- A loop `for (i = 0; i < n; i++) t[i] = e(i)` sets the first `n` entries. -/
theorem fill_apply (e block : ℕ → ℤ) (n : ℕ) {k : ℕ} (hk : k < n) :
    (List.range n).foldl (fun t i => Function.update t i (e i)) block k = e k := by
  induction n with
  | zero => omega
  | succ n ih =>
    rw [List.range_succ, List.foldl_concat]
    by_cases hkn : k = n
    · subst hkn
      rw [Function.update_self]
    · rw [Function.update_of_ne hkn]
      apply ih
      omega

/-- The low sixteen bits of a hash. -/
theorem toNat_and_ffff (u : U32) : (u &&& 0xffff).toNat = u.toNat % 2 ^ 16 := by
  rw [BitVec.toNat_and]
  exact Nat.and_two_pow_sub_one_eq_mod u.toNat 16

/-- The table the first call fills holds, at the low bits of a hash, what the
plain version computes from them. -/
theorem crushInitLntable_apply {crushLn : CrushLn} {malloc : Option (ℕ → ℤ)} {table : ℕ → ℤ}
    (hinit : crushInitLntable crushLn malloc none = some table) (u : U32) :
    table (u &&& 0xffff).toNat = lnEntry crushLn (u &&& 0xffff) := by
  cases malloc with
  | none => cases hinit
  | some block =>
    obtain rfl := Option.some.inj hinit
    have hlt : (u &&& 0xffff).toNat < crushLnTableLen := by
      rw [toNat_and_ffff]
      exact Nat.mod_lt _ (by decide)
    rw [fill_apply _ _ _ hlt, BitVec.ofNat_toNat, BitVec.setWidth_eq, BitVec.and_assoc,
      BitVec.and_self]

/-- Below the documented bound the unsigned subtraction is the signed one. -/
theorem lnEntry_and_ffff (crushLn : CrushLn) (u : U32) :
    lnEntry crushLn (u &&& 0xffff) = ((crushLn.ln (u &&& 0xffff)).toNat : ℤ) - 2 ^ 48 := by
  have hle : (crushLn.ln (u &&& 0xffff)).toNat ≤ 2 ^ 48 := by
    apply crushLn.ln_le
    rw [toNat_and_ffff]
    omega
  unfold lnEntry
  generalize crushLn.ln (u &&& 0xffff) = v at hle ⊢
  have hone : (0x1000000000000#64).toInt = 2 ^ 48 := by decide
  rw [BitVec.toInt_sub, BitVec.toInt_eq_toNat_of_lt (by omega), hone]
  apply Int.bmod_eq_of_le <;> omega

/-! ## The draws -/

/-- `S64_MIN`, the draw of an item of weight zero. -/
def s64Min : ℤ := -2 ^ 63

/-- `div64_s64`, truncating. By a zero divisor it yields some value, `undef`. -/
def div64S64 (undef dividend divisor : ℤ) : ℤ :=
  if divisor = 0 then undef else dividend.tdiv divisor

/-- The draw of one item, as the plain `generate_exponential_distribution` and the
zero test around it make it. The weight is read as `int`. -/
def straw2Draw (crushLn : CrushLn) (x r id weight : U32) : ℤ :=
  if weight = 0 then s64Min
  else (((crushLn.ln (crushHash323 .rjenkins1 x id r &&& 0xffff)).toNat : ℤ) - 2 ^ 48).tdiv
    weight.toInt

/-- `generate_exponential_distribution_x3`. `u` and `res` are the arrays as they
were, `undef i` what a division by zero in lane `i` yields. -/
def generateExponentialDistributionX3 (table : ℕ → ℤ) (type : CrushHash)
    (x y z weight : ℕ → U32) (u : ℕ → U32) (undef res : ℕ → ℤ) : ℕ → ℤ :=
  let hashed := crushHash323x3 type x y z u
  fun i => if i < 3 then
    div64S64 (undef i) (table (hashed i &&& 0xffff).toNat) (weight i).toInt else res i

/-- `generate_exponential_distribution_simdx2`. -/
def generateExponentialDistributionSimdx2 (table : ℕ → ℤ) (type : CrushHash)
    (x y z weight : ℕ → U32) (u : ℕ → U32) (undef draw : ℕ → ℤ) : ℕ → ℤ :=
  let hashed := crushHash323Simdx2 type x y z u
  fun i => if i < crushSimdNum * 2 then
    div64S64 (undef i) (table (hashed i &&& 0xffff).toNat) (weight i).toInt else draw i

/-- A lane of non-zero weight whose hash is the plain one holds the item's draw. -/
theorem lane_draw {crushLn : CrushLn} {malloc : Option (ℕ → ℤ)} {table : ℕ → ℤ}
    (hinit : crushInitLntable crushLn malloc none = some table) (undef : ℤ)
    (x r id weight : U32) (hweight : weight ≠ 0) :
    div64S64 undef (table (crushHash323 .rjenkins1 x id r &&& 0xffff).toNat) weight.toInt =
      straw2Draw crushLn x r id weight := by
  have hint : weight.toInt ≠ 0 := by
    intro h
    exact hweight (BitVec.eq_of_toInt_eq (by simpa using h))
  unfold div64S64 straw2Draw
  rw [if_neg hint, if_neg hweight, crushInitLntable_apply hinit, lnEntry_and_ffff]

/-! ## The scan -/

/-- `high` and `high_draw` of the choice loop. -/
structure Scan where
  high : ℕ
  highDraw : ℤ

/-- What the loop does with the draw of item `i`. -/
def Scan.take (s : Scan) (i : ℕ) (draw : ℤ) : Scan :=
  if i = 0 ∨ s.highDraw < draw then ⟨i, draw⟩ else s

/-- The plain straw2 loop over the first `n` items. -/
def scan (draw : ℕ → ℤ) (n : ℕ) : Scan :=
  (List.range n).foldl (fun s i => s.take i (draw i)) ⟨0, 0⟩

/-- `h` is the first of the first `n` indices at which `draw` is maximal. -/
def FirstMax (draw : ℕ → ℤ) (n h : ℕ) : Prop :=
  h < n ∧ (∀ j < n, draw j ≤ draw h) ∧ ∀ j < h, draw j < draw h

theorem scan_succ (draw : ℕ → ℤ) (n : ℕ) :
    scan draw (n + 1) = (scan draw n).take n (draw n) := by
  unfold scan
  rw [List.range_succ, List.foldl_concat]

/-- **The plain loop takes the first maximum**, and `high_draw` is its draw. -/
theorem scan_firstMax (draw : ℕ → ℤ) (n : ℕ) :
    FirstMax draw (n + 1) (scan draw (n + 1)).high ∧
      (scan draw (n + 1)).highDraw = draw (scan draw (n + 1)).high := by
  induction n with
  | zero =>
    refine ⟨⟨Nat.one_pos, ?_, ?_⟩, rfl⟩
    · intro j hj
      obtain rfl : j = 0 := by omega
      exact le_refl _
    · intro j hj
      exact absurd hj (Nat.not_lt_zero j)
  | succ n ih =>
    obtain ⟨⟨hlt, hmax, hfirst⟩, hdraw⟩ := ih
    rw [scan_succ]
    by_cases hgreater : (scan draw (n + 1)).highDraw < draw (n + 1)
    · -- a strictly greater draw: the new index is the first with this maximum
      rw [Scan.take, if_pos (Or.inr hgreater)]
      have hbelow : ∀ j < n + 1, draw j < draw (n + 1) := by
        intro j hj
        have := hmax j hj
        omega
      refine ⟨⟨Nat.lt_succ_self _, ?_, hbelow⟩, rfl⟩
      intro j hj
      rcases Nat.lt_succ_iff_lt_or_eq.mp hj with hj | rfl
      · exact le_of_lt (hbelow j hj)
      · exact le_refl _
    · -- on equal draws the earlier index stays
      have hnew : ¬(n + 1 = 0 ∨ (scan draw (n + 1)).highDraw < draw (n + 1)) := by
        omega
      have hnot : draw (n + 1) ≤ draw (scan draw (n + 1)).high := by
        rw [← hdraw]
        exact not_lt.mp hgreater
      rw [Scan.take, if_neg hnew]
      refine ⟨⟨by omega, ?_, hfirst⟩, hdraw⟩
      intro j hj
      rcases Nat.lt_succ_iff_lt_or_eq.mp hj with hj | rfl
      · exact hmax j hj
      · exact hnot

example : (scan (fun i => [-7, -3, -3, -5].getD i 0) 4).high = 1 := by decide

/-! ## `bucket_straw2_choose` -/

/-- `crush_bucket_straw2`, as far as the choice reads it. `size` is a `__u32`; the
loops keep `i + j` at or below it, so the unsigned sums do not wrap. -/
structure CrushBucketStraw2 where
  size : ℕ
  size_lt : size < 2 ^ 32
  hash : CrushHash
  items : ℕ → U32

/-- The plain `bucket_straw2_choose`, with the arrays `get_choose_arg_weights` and
`get_choose_arg_ids` return. -/
def bucketStraw2ChoosePlain (crushLn : CrushLn) (bucket : CrushBucketStraw2)
    (ids weights : ℕ → U32) (x r : U32) : U32 :=
  bucket.items (scan (fun i => straw2Draw crushLn x r (ids i) (weights i)) bucket.size).high

/-- What the ARM version reads without having written it: the hash buffer and the
results of divisions by zero of the call at index `i`, and the three stack arrays. -/
structure Garbage where
  u : ℕ → ℕ → U32
  div : ℕ → ℕ → ℤ
  drawSimd : ℕ → ℤ
  idsimd : ℕ → U32
  wtsimd : ℕ → U32

/-- `STRAW2_DRAW_UPDATE(i, j)`. -/
def straw2DrawUpdate (weights : ℕ → U32) (drawSimd : ℕ → ℤ) (i : ℕ) (s : Scan) (j : ℕ) : Scan :=
  s.take (i + j) (if weights (i + j) ≠ 0 then drawSimd j else s64Min)

/-- `for (int j = 0; j < n; j++) STRAW2_DRAW_UPDATE(i, j)`. -/
def straw2DrawUpdates (weights : ℕ → U32) (drawSimd : ℕ → ℤ) (i n : ℕ) (s : Scan) : Scan :=
  (List.range n).foldl (straw2DrawUpdate weights drawSimd i) s

section Choose

variable (table : ℕ → ℤ) (garbage : Garbage) (bucket : CrushBucketStraw2)
  (ids weights : ℕ → U32) (x r : U32)

/-- The loop over whole blocks of eight, from index `i`: the index it stops at, the
scan and `draw_simd`. -/
def straw2Blocks (hsize : crushSimdNum * 2 ≤ bucket.size) (i : ℕ) (s : Scan)
    (drawSimd : ℕ → ℤ) : ℕ × Scan × (ℕ → ℤ) :=
  if i ≤ bucket.size - crushSimdNum * 2 then
    let drawn := generateExponentialDistributionSimdx2 table bucket.hash (fun _ => x)
      (fun j => ids (i + j)) (fun _ => r) (fun j => weights (i + j)) (garbage.u i)
      (garbage.div i) drawSimd
    straw2Blocks hsize (i + crushSimdNum * 2)
      (straw2DrawUpdates weights drawn i (crushSimdNum * 2) s) drawn
  else (i, s, drawSimd)
termination_by bucket.size - i
decreasing_by simp only [crushSimdNum] at *; omega

/-- The ARM `bucket_straw2_choose`. -/
def bucketStraw2Choose : U32 :=
  let (i, s, drawSimd) :=
    if hsize : crushSimdNum * 2 ≤ bucket.size then
      straw2Blocks table garbage bucket ids weights x r hsize 0 ⟨0, 0⟩ garbage.drawSimd
    else (0, ⟨0, 0⟩, garbage.drawSimd)
  let left := bucket.size - i
  let idsimd j := if j < left then ids (i + j) else garbage.idsimd j
  let wtsimd j := if j < left then weights (i + j) else garbage.wtsimd j
  let drawn :=
    if crushSimdNum ≤ bucket.size then
      generateExponentialDistributionSimdx2 table bucket.hash (fun _ => x) idsimd (fun _ => r)
        wtsimd (garbage.u i) (garbage.div i) drawSimd
    else
      generateExponentialDistributionX3 table bucket.hash (fun _ => x) idsimd (fun _ => r)
        wtsimd (garbage.u i) (garbage.div i) drawSimd
  bucket.items (straw2DrawUpdates weights drawn i left s).high

end Choose

/-! ## The ARM choice is the plain choice -/

section Agreement

variable {crushLn : CrushLn} {malloc : Option (ℕ → ℤ)} {table : ℕ → ℤ} {bucket : CrushBucketStraw2}

/-- A run of updates carries the plain scan on, where every lane of non-zero weight
holds the item's draw. -/
theorem scan_block (x r : U32) (ids weights : ℕ → U32) (drawSimd : ℕ → ℤ) (i n : ℕ)
    (hlanes : ∀ j < n, weights (i + j) ≠ 0 →
      drawSimd j = straw2Draw crushLn x r (ids (i + j)) (weights (i + j))) :
    straw2DrawUpdates weights drawSimd i n
        (scan (fun k => straw2Draw crushLn x r (ids k) (weights k)) i) =
      scan (fun k => straw2Draw crushLn x r (ids k) (weights k)) (i + n) := by
  induction n with
  | zero => rfl
  | succ n ih =>
    have hbefore := ih fun j hj => hlanes j (Nat.lt_succ_of_lt hj)
    unfold straw2DrawUpdates at hbefore ⊢
    rw [List.range_succ, List.foldl_concat, hbefore, ← Nat.add_assoc, scan_succ]
    unfold straw2DrawUpdate
    congr 1
    by_cases hweight : weights (i + n) = 0
    · rw [if_neg (not_not.mpr hweight), straw2Draw, if_pos hweight]
    · rw [if_pos hweight]
      exact hlanes n (Nat.lt_succ_self n) hweight

/-- A lane of the eight-lane call that holds an item holds the item's draw. -/
theorem simdx2_draw (hinit : crushInitLntable crushLn malloc none = some table) (x r : U32)
    (y weight u : ℕ → U32) (undef draw : ℕ → ℤ) {j : ℕ} (hj : j < 8) (hweight : weight j ≠ 0) :
    generateExponentialDistributionSimdx2 table .rjenkins1 (fun _ => x) y (fun _ => r) weight u
        undef draw j = straw2Draw crushLn x r (y j) (weight j) := by
  have hlane : j < crushSimdNum * 2 := hj
  simp only [generateExponentialDistributionSimdx2, if_pos hlane,
    crushHash323Simdx2_apply _ _ _ _ hj]
  exact lane_draw hinit _ x r _ _ hweight

/-- The same for the three-lane call. -/
theorem x3_draw (hinit : crushInitLntable crushLn malloc none = some table) (x r : U32)
    (y weight u : ℕ → U32) (undef res : ℕ → ℤ) {j : ℕ} (hj : j < 3) (hweight : weight j ≠ 0) :
    generateExponentialDistributionX3 table .rjenkins1 (fun _ => x) y (fun _ => r) weight u
        undef res j = straw2Draw crushLn x r (y j) (weight j) := by
  simp only [generateExponentialDistributionX3, if_pos hj, crushHash323x3_apply _ _ _ _ hj]
  exact lane_draw hinit _ x r _ _ hweight

/-- The block loop carries the plain scan to an index from which fewer than eight
items are left. -/
theorem straw2Blocks_scan (hinit : crushInitLntable crushLn malloc none = some table)
    (hhash : bucket.hash = .rjenkins1) (garbage : Garbage) (ids weights : ℕ → U32) (x r : U32)
    (hsize : crushSimdNum * 2 ≤ bucket.size) (i : ℕ) (drawSimd : ℕ → ℤ) (hi : i ≤ bucket.size) :
    ∃ k drawn, straw2Blocks table garbage bucket ids weights x r hsize i
        (scan (fun k => straw2Draw crushLn x r (ids k) (weights k)) i) drawSimd =
      (k, scan (fun k => straw2Draw crushLn x r (ids k) (weights k)) k, drawn) ∧
      k ≤ bucket.size ∧ bucket.size - k < 8 := by
  -- on the number of items left
  induction hleft : bucket.size - i using Nat.strongRecOn generalizing i drawSimd with
  | _ left ih =>
    rw [straw2Blocks]
    by_cases hblock : i ≤ bucket.size - crushSimdNum * 2
    · rw [if_pos hblock]
      simp only [crushSimdNum] at hsize hblock ⊢
      rw [hhash, scan_block x r ids weights _ i 8]
      · exact ih (bucket.size - (i + 8)) (by omega) (i + 8) _ (by omega) rfl
      · intro j hj hweight
        exact simdx2_draw hinit x r (fun j => ids (i + j)) (fun j => weights (i + j)) _ _ _ hj
          hweight
    · rw [if_neg hblock]
      simp only [crushSimdNum] at hblock
      exact ⟨i, drawSimd, rfl, hi, by omega⟩

/-- **The two versions agree**, whatever the lanes beyond the bucket hold. -/
theorem bucketStraw2Choose_eq_plain (hinit : crushInitLntable crushLn malloc none = some table)
    (hhash : bucket.hash = .rjenkins1) (garbage : Garbage) (ids weights : ℕ → U32) (x r : U32) :
    bucketStraw2Choose table garbage bucket ids weights x r =
      bucketStraw2ChoosePlain crushLn bucket ids weights x r := by
  -- where the block loop leaves off, taken or not
  obtain ⟨k, drawn, hblocks, hk, hfew⟩ : ∃ k drawn,
      (if hsize : crushSimdNum * 2 ≤ bucket.size then
        straw2Blocks table garbage bucket ids weights x r hsize 0 ⟨0, 0⟩ garbage.drawSimd
      else (0, ⟨0, 0⟩, garbage.drawSimd)) =
        (k, scan (fun k => straw2Draw crushLn x r (ids k) (weights k)) k, drawn) ∧
      k ≤ bucket.size ∧ bucket.size - k < 8 := by
    by_cases hsize : crushSimdNum * 2 ≤ bucket.size
    · rw [dif_pos hsize]
      exact straw2Blocks_scan hinit hhash garbage ids weights x r hsize 0 _ (Nat.zero_le _)
    · rw [dif_neg hsize]
      simp only [crushSimdNum] at hsize
      exact ⟨0, garbage.drawSimd, rfl, Nat.zero_le _, by omega⟩
  unfold bucketStraw2Choose bucketStraw2ChoosePlain
  simp only [hblocks, hhash]
  rw [scan_block x r ids weights _ k (bucket.size - k), Nat.add_sub_cancel' hk]
  intro j hj hweight
  split_ifs with hsimd
  · rw [simdx2_draw hinit x r _ _ _ _ _ (by omega) (by rwa [if_pos hj]), if_pos hj, if_pos hj]
  · simp only [crushSimdNum] at hsimd
    rw [x3_draw hinit x r _ _ _ _ _ (by omega) (by rwa [if_pos hj]), if_pos hj, if_pos hj]

/-- **The ARM straw2 choice.** Of every non-empty bucket it returns the item at the
first index with the maximal draw, for all ids, weights, inputs and whatever the
unused lanes hold. -/
theorem straw2_first_max (hinit : crushInitLntable crushLn malloc none = some table)
    (hhash : bucket.hash = .rjenkins1) (hsize : 1 ≤ bucket.size) (garbage : Garbage)
    (ids weights : ℕ → U32) (x r : U32) :
    ∃ h, FirstMax (fun i => straw2Draw crushLn x r (ids i) (weights i)) bucket.size h ∧
      bucketStraw2Choose table garbage bucket ids weights x r = bucket.items h := by
  obtain ⟨n, hn⟩ := Nat.exists_eq_add_of_le' hsize
  refine ⟨_, ?_, bucketStraw2Choose_eq_plain hinit hhash garbage ids weights x r⟩
  rw [hn]
  exact (scan_firstMax _ n).1

/-- `crush_ln` at the arguments `2 ^ k - 1`, where its tables are exact. -/
def lnAtPowers : CrushLn where
  ln u := BitVec.ofNat 64 (2 ^ 44 * (u.toNat + 1).log2)
  ln_le u hu := by
    have hlog : (u.toNat + 1).log2 ≤ 16 := by
      have := (Nat.log2_lt (n := u.toNat + 1) (k := 17) (by omega)).mpr (by omega)
      omega
    rw [BitVec.toNat_ofNat, Nat.mod_eq_of_lt (by omega)]
    omega

/-- Five items, so the one call is the vector one with three lanes unused. -/
def fiveItems : CrushBucketStraw2 where
  size := 5
  size_lt := by omega
  hash := .rjenkins1
  items i := [3, 1, 4, 5, 9].getD i 0

/-- Ids whose hashes end in `2 ^ k - 1` for input 7 and replica 0, a weight of zero
and one that is negative as an `int`; zero weights in the unused lanes. -/
theorem straw2_first_max_five_items :
    ∃ table, crushInitLntable lnAtPowers (some fun _ => 0) none = some table ∧
      ∃ h, FirstMax (fun i => straw2Draw lnAtPowers 7 0
          ([14535, 21396, 26312, 26378, 27669].getD i 0)
          ([0x10000, 0, 0x20000, 0x80000000, 0x10000].getD i 0)) 5 h ∧
        bucketStraw2Choose table ⟨fun _ _ => 1, fun _ _ => 7, fun _ => 9, fun _ => 2, fun _ => 0⟩
          fiveItems (fun i => [14535, 21396, 26312, 26378, 27669].getD i 0)
          (fun i => [0x10000, 0, 0x20000, 0x80000000, 0x10000].getD i 0) 7 0 =
        fiveItems.items h := by
  have hinit : crushInitLntable lnAtPowers (some fun _ => 0) none = some _ := rfl
  have hhash : fiveItems.hash = .rjenkins1 := rfl
  exact ⟨_, hinit, straw2_first_max hinit hhash (by decide) _ _ _ 7 0⟩

end Agreement

end GcAdaptor.Straw2
