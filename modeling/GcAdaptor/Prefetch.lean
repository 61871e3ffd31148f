/-
**Prefetching** a range of an image: `das_req_prefetch` and `push_strategy`
(`patch/ceph-global-cache.patch`), and the branch of `OSA_ExecClass`
(`server_adaptor/osa.cpp`) that takes the request.

The range starts in one object and goes on in the ones behind it. The loop cuts it at the ends
of the objects, and sends each piece to the node of its object as a class call whose input is
the piece's offset and length.

A run is given some fuel. `dasReqPrefetch_covers` says how much is enough, and that the pieces
are the range.
-/
import GcAdaptor.Copyup
import GcAdaptor.RbdName

set_option autoImplicit false

namespace GcAdaptor.Prefetch

open GcAdaptor.Wire GcAdaptor.Cxx GcAdaptor.MsgModule GcAdaptor.NetworkModule GcAdaptor.ClassApi
open GcAdaptor.Copyup GcAdaptor.ClientAdaptorMsg
open GcAdaptor.RbdName (hexChar)
open GcAdaptor.Wire.Codec (le leEnc copy)

/-! ## The client -/

def SEGMENT_SIZE : ℕ := 4194304
def SEGMENT_MASK : UInt64 := 0x3FFFFF
def OBJECT_ID_LEN : ℕ := 16

/-- `imageIdBuf` is the memory from its first byte on. The first `imageIdLen` bytes are the name
of the image, and the two parts of an object name and their NUL can be counted in 32 bits. -/
structure DasKvParam where
  offset : UInt64
  len : UInt64
  cephPoolId : Int64
  objId : UInt64
  imageIdLen : UInt32
  clusterId : BitVec 32
  imageIdBuf : Bytes
  image_length : imageIdLen.toNat ≤ imageIdBuf.length
  image_noNul : 0 ∉ imageIdBuf.take imageIdLen.toNat
  name_fits : imageIdLen.toNat + OBJECT_ID_LEN + 1 < 2 ^ 32

/-- What `snprintf` writes for a text and a buffer of `size` bytes, not 0. -/
def snprintf (size : ℕ) (text : Bytes) : Bytes := text.take (size - 1) ++ [0]

/-- The last `width` hexadecimal digits. -/
def hexDigits : ℕ → ℕ → Bytes
  | 0, _ => []
  | width + 1, n => hexDigits width (n / 16) ++ [hexChar (n % 16)]

/-- `%016x`: the `int` is taken for an `unsigned`, and has no more than 8 digits. -/
def printHex (id : ℤ) : Bytes := hexDigits OBJECT_ID_LEN (id % 2 ^ 32).toNat

def oidName (params : DasKvParam) (id : ℤ) : Bytes :=
  let imageIdLen := params.imageIdLen.toNat
  let buff := List.replicate (imageIdLen + OBJECT_ID_LEN + 1) 0
  let buff := overwrite buff 0 (snprintf (imageIdLen + 1) (cStr params.imageIdBuf))
  let buff := overwrite buff imageIdLen (snprintf (OBJECT_ID_LEN + 1) (printHex id))
  cStr buff

/-- An op that has been given to the `Objecter`. -/
structure Submitted where
  name : Bytes
  pool : Int64
  osd : BitVec 32
  op : OSDOp

/-- `nops[0]` -/
def prefetchOp (indata : Bytes) (hindata : indata.length ≤ 16) : OSDOp where
  op :=
    { op := .call
      classLen := UInt8.ofNat rpcName.length
      methodLen := UInt8.ofNat dasPrefetchName.length
      indataLen := UInt32.ofNat indata.length }
  indata :=
    { data := rpcName ++ dasPrefetchName ++ indata
      fits := by
        rw [List.length_append, List.length_append]
        have : rpcName.length + dasPrefetchName.length = 15 := by decide
        omega }

/-- `none` where it returns before it submits anything. -/
def pushStrategy (poolId : Int64) (nodeId : BitVec 32) (oidName indata : Bytes)
    (hindata : indata.length ≤ 16) : Option Submitted :=
  if oidName.length = 0 then none
  else if nodeId.toInt < 0 then none
  else some { name := oidName, pool := poolId, osd := nodeId, op := prefetchOp indata hindata }

/-- `encode(offset, indata); encode(max, indata);` -/
def encodePiece (offset max : ℕ) : Bytes := (le 8).enc offset ++ (le 8).enc max

theorem encodePiece_length (offset max : ℕ) : (encodePiece offset max).length = 16 := by
  show (leEnc 8 offset ++ leEnc 8 max).length = 16
  rw [List.length_append, Codec.leEnc_length, Codec.leEnc_length]

inductive Outcome
  | done (pushed : List Submitted)
  | aborted
  | outOfFuel

section Client

variable (mgr : ClientAdaptorMgr) (hash : Bytes → BitVec 64) (params : DasKvParam)

/-- `while (left)`; `max` is at least 1 while `offset` is below the segment size. -/
def dasLoop : ℕ → ℕ → ℤ → ℕ → List Submitted → Outcome
  | 0, _, _, _, _ => .outOfFuel
  | fuel + 1, offset, id, left, pushed =>
    if left = 0 then .done pushed
    else
      let max := min (SEGMENT_SIZE - offset) left
      let oidName := oidName params id
      let nodeId := (getNodeId mgr hash params.clusterId oidName params.cephPoolId).1
      if nodeId.toInt < 0 then .aborted
      else
        let submitted := pushStrategy params.cephPoolId nodeId oidName (encodePiece offset max)
          (encodePiece_length ..).le
        -- the pieces behind the first one start at the front of their objects
        dasLoop fuel 0 (int32 (id + 1)) (left - max) (pushed ++ submitted.toList)

def dasReqPrefetch (fuel : ℕ) : Outcome :=
  dasLoop mgr hash params fuel (params.offset &&& SEGMENT_MASK).toNat
    (int32 params.objId.toNat) params.len.toNat []

end Client

/-! ## The names of the objects -/

/-- The 16 lower-case hexadecimal digits of a number. -/
structure Hex16 (s : Bytes) (n : ℕ) : Prop where
  length : s.length = 16
  lower : ∀ c ∈ s, 48 ≤ c ∧ c ≤ 57 ∨ 97 ≤ c ∧ c ≤ 102
  value : ofDigits 16 (s.map digitVal) = n

theorem hexChar_spec {d : ℕ} (h : d < 16) :
    (48 ≤ hexChar d ∧ hexChar d ≤ 57 ∨ 97 ≤ hexChar d ∧ hexChar d ≤ 102) ∧
      digitVal (hexChar d) = d := by
  interval_cases d <;> decide

@[simp] theorem hexDigits_length (width n : ℕ) : (hexDigits width n).length = width := by
  induction width generalizing n with
  | zero => rfl
  | succ width ih => rw [hexDigits, List.length_append, ih, List.length_singleton]

theorem mem_hexDigits {width n : ℕ} {c : UInt8} (h : c ∈ hexDigits width n) :
    ∃ d < 16, c = hexChar d := by
  induction width generalizing n with
  | zero => cases h
  | succ width ih =>
    rcases List.mem_append.mp h with h | h
    · exact ih h
    · exact ⟨n % 16, Nat.mod_lt _ (by norm_num), List.mem_singleton.mp h⟩

theorem ofDigits_hexDigits (width n : ℕ) :
    ofDigits 16 ((hexDigits width n).map digitVal) = n % 16 ^ width := by
  induction width generalizing n with
  | zero => simp [hexDigits, ofDigits, Nat.mod_one]
  | succ width ih =>
    have hlast := (hexChar_spec (Nat.mod_lt n (by norm_num : 16 > 0))).2
    have hrest := ih (n / 16)
    rw [ofDigits] at hrest
    rw [hexDigits, List.map_append, ofDigits, List.foldl_append, hrest, List.map_singleton,
      List.foldl_cons, List.foldl_nil, hlast, pow_succ', Nat.mod_mul]
    ring

theorem hex16_printHex {id : ℤ} {n : ℕ} (hid : id = n) (hn : n < 2 ^ 31) : Hex16 (printHex id) n := by
  have hword : (id % 2 ^ 32).toNat = n := by omega
  refine ⟨by rw [printHex, hexDigits_length]; rfl, ?_, ?_⟩
  · intro c hc
    obtain ⟨d, hd, rfl⟩ := mem_hexDigits hc
    exact (hexChar_spec hd).1
  · rw [printHex, hword, ofDigits_hexDigits]
    exact Nat.mod_eq_of_lt (hn.trans (by norm_num [OBJECT_ID_LEN]))

theorem printHex_noNul (id : ℤ) : 0 ∉ printHex id := by
  intro h
  obtain ⟨d, hd, hzero⟩ := mem_hexDigits h
  have hspec := (hexChar_spec hd).1
  rw [← hzero] at hspec
  revert hspec
  decide

/-- Text with a NUL behind it. -/
theorem cStr_append_nul {s rest : Bytes} (h : 0 ∉ s) : cStr (s ++ 0 :: rest) = s := by
  rw [cStr, List.takeWhile_append_of_pos fun c hc => by simpa using fun h0 : c = 0 => h (h0 ▸ hc)]
  simp

/-- `%s` stops at a NUL, which is not among the first bytes. -/
theorem take_cStr {s : Bytes} {n : ℕ} (h : 0 ∉ s.take n) : (cStr s).take n = s.take n := by
  induction s generalizing n with
  | nil => rfl
  | cons c s ih =>
    cases n with
    | zero => rfl
    | succ n =>
      rw [List.take_succ_cons, List.mem_cons, not_or] at h
      rw [cStr, List.takeWhile_cons_of_pos (by simpa using Ne.symm h.1), List.take_succ_cons,
        List.take_succ_cons]
      exact congrArg _ (ih h.2)

theorem overwrite_append (before rest src : Bytes) :
    overwrite (before ++ rest) before.length src = before ++ (src ++ rest.drop src.length) := by
  rw [overwrite, List.take_left, List.drop_append, List.drop_of_length_le (by omega),
    List.nil_append, Nat.add_sub_cancel_left, List.append_assoc]

/-- **The name**: the image and the digits, with no NUL between them. -/
theorem oidName_eq (params : DasKvParam) (id : ℤ) :
    oidName params id = params.imageIdBuf.take params.imageIdLen.toNat ++ printHex id := by
  set image := params.imageIdBuf.take params.imageIdLen.toNat with himage
  have hlen : image.length = params.imageIdLen.toNat := by
    rw [himage, List.length_take, Nat.min_eq_left params.image_length]
  have hhex : (printHex id).take OBJECT_ID_LEN = printHex id :=
    List.take_of_length_le (hexDigits_length ..).le
  have hnul : 0 ∉ image ++ printHex id := by
    rw [List.mem_append, not_or]
    exact ⟨params.image_noNul, printHex_noNul id⟩
  -- the first text and its NUL, then the second one from the NUL on
  have hfirst : overwrite (List.replicate (image.length + OBJECT_ID_LEN + 1) 0) 0 (image ++ [0]) =
      image ++ 0 :: List.replicate OBJECT_ID_LEN 0 := by
    have h := overwrite_append [] (List.replicate (image.length + OBJECT_ID_LEN + 1) 0) (image ++ [0])
    rw [List.nil_append, List.length_nil] at h
    rw [h, List.nil_append, List.drop_replicate, List.append_assoc, List.length_append,
      List.length_singleton, show image.length + OBJECT_ID_LEN + 1 - (image.length + 1) =
        OBJECT_ID_LEN by omega]
    rfl
  have hsecond := overwrite_append image (0 :: List.replicate OBJECT_ID_LEN 0) (printHex id ++ [0])
  simp only [oidName, snprintf, Nat.add_sub_cancel, take_cStr params.image_noNul, hhex]
  rw [← himage, ← hlen, hfirst, hsecond, List.append_assoc, List.singleton_append,
    ← List.append_assoc, cStr_append_nul hnul]

/-! ## The pieces -/

/-- `left` bytes from `offset` on in the first object, cut at the ends of the objects: each
piece's offset in its object, and its length. -/
inductive Cut : ℕ → ℕ → List (ℕ × ℕ) → Prop
  | none (offset : ℕ) : Cut offset 0 []
  | last {offset left : ℕ} (hpos : 0 < left) (hend : offset + left ≤ SEGMENT_SIZE) :
      Cut offset left [(offset, left)]
  | cons {offset left : ℕ} {ps : List (ℕ × ℕ)} (hoffset : offset < SEGMENT_SIZE)
      (hpos : 0 < left) (hrest : Cut 0 left ps) :
      Cut offset (SEGMENT_SIZE - offset + left) ((offset, SEGMENT_SIZE - offset) :: ps)

namespace Cut

variable {offset left : ℕ} {ps : List (ℕ × ℕ)}

theorem sum_eq (h : Cut offset left ps) : (ps.map (·.2)).sum = left := by
  induction h with
  | none => rfl
  | last => simp
  | cons _ _ _ ih => rw [List.map_cons, List.sum_cons, ih]

theorem eq_nil (h : Cut offset left ps) (hleft : left = 0) : ps = [] := by
  cases h with
  | none => rfl
  | last hpos => exact absurd hleft hpos.ne'
  | cons hoffset hpos => exact absurd hleft (by omega)

/-- Where piece `i` lies. -/
theorem piece (h : Cut offset left ps) {i : ℕ} {p : ℕ × ℕ} (hi : ps[i]? = some p) :
    p.1 = (if i = 0 then offset else 0) ∧ 0 < p.2 ∧ p.1 + p.2 ≤ SEGMENT_SIZE ∧
      (i + 1 < ps.length → p.1 + p.2 = SEGMENT_SIZE) := by
  induction h generalizing i with
  | none => simp at hi
  | last hpos hend =>
    cases i with
    | zero =>
      obtain rfl := Option.some.inj hi
      exact ⟨rfl, hpos, hend, fun h => absurd h (lt_irrefl _)⟩
    | succ i => simp at hi
  | cons hoffset hpos hrest ih =>
    cases i with
    | zero =>
      obtain rfl := Option.some.inj hi
      exact ⟨rfl, by omega, by omega, fun _ => by omega⟩
    | succ i =>
      rw [List.getElem?_cons_succ] at hi
      obtain ⟨hfirst, hp, hfits, hfull⟩ := ih hi
      rw [ite_self] at hfirst
      refine ⟨by rw [hfirst, if_neg (Nat.succ_ne_zero i)], hp, hfits, fun h => hfull ?_⟩
      rw [List.length_cons] at h
      omega

/-- Every piece reaches into the range. -/
theorem lt_end (h : Cut offset left ps) {i : ℕ} (hi : i < ps.length) :
    i * SEGMENT_SIZE < offset + left := by
  induction h generalizing i with
  | none => simp at hi
  | last hpos hend =>
    rw [List.length_singleton] at hi
    obtain rfl : i = 0 := by omega
    omega
  | cons hoffset hpos hrest ih =>
    cases i with
    | zero => omega
    | succ i =>
      rw [List.length_cons] at hi
      have := ih (i := i) (by omega)
      rw [Nat.succ_mul]
      omega

end Cut

/-! ## The loop -/

section Loop

variable {mgr : ClientAdaptorMgr} {hash : Bytes → BitVec 64} {params : DasKvParam}

/-- Every object has a node. -/
def Nodes (mgr : ClientAdaptorMgr) (hash : Bytes → BitVec 64) (params : DasKvParam) : Prop :=
  ∀ name ≠ [], 0 ≤ (getNodeId mgr hash params.clusterId name params.cephPoolId).1.toInt

/-- What is submitted for a piece. -/
def submitted (mgr : ClientAdaptorMgr) (hash : Bytes → BitVec 64) (params : DasKvParam) (id : ℤ)
    (p : ℕ × ℕ) : Submitted where
  name := oidName params id
  pool := params.cephPoolId
  osd := (getNodeId mgr hash params.clusterId (oidName params id) params.cephPoolId).1
  op := prefetchOp (encodePiece p.1 p.2) (encodePiece_length ..).le

theorem oidName_ne_nil (params : DasKvParam) (id : ℤ) : oidName params id ≠ [] := by
  rw [oidName_eq]
  intro h
  have hhex := congrArg List.length (List.append_eq_nil_iff.mp h).2
  rw [printHex, hexDigits_length] at hhex
  exact absurd hhex (by decide)

/-- One turn of the loop. -/
theorem dasLoop_succ (hnodes : Nodes mgr hash params) {fuel offset left : ℕ} {id : ℤ}
    {pushed : List Submitted} (hleft : left ≠ 0) :
    dasLoop mgr hash params (fuel + 1) offset id left pushed =
      dasLoop mgr hash params fuel 0 (int32 (id + 1)) (left - min (SEGMENT_SIZE - offset) left)
        (pushed ++ [submitted mgr hash params id (offset, min (SEGMENT_SIZE - offset) left)]) := by
  have hnode := not_lt.mpr (hnodes _ (oidName_ne_nil params id))
  have hlength : ¬ (oidName params id).length = 0 := by
    rw [List.length_eq_zero_iff]
    exact oidName_ne_nil params id
  simp only [dasLoop, if_neg hleft, if_neg hnode, pushStrategy, if_neg hlength,
    Option.toList_some]
  rfl

/-- The counter of the objects keeps their number, up to the width of an `int`. -/
theorem int32_succ (x : ℕ) : int32 (int32 x + 1) = int32 ((x + 1 : ℕ) : ℤ) := by
  simp only [int32]
  omega

theorem dasLoop_spec (hnodes : Nodes mgr hash params) {fuel : ℕ} (offset left : ℕ)
    (hoffset : offset < SEGMENT_SIZE) (hfuel : offset + left ≤ fuel * SEGMENT_SIZE) (x : ℕ)
    (pushed : List Submitted) :
    ∃ ps, Cut offset left ps ∧
      dasLoop mgr hash params (fuel + 1) offset (int32 x) left pushed =
        .done (pushed ++ (ps.zipIdx x).map fun p => submitted mgr hash params (int32 p.2) p.1) := by
  induction fuel generalizing offset left x pushed with
  | zero =>
    obtain rfl : left = 0 := by omega
    exact ⟨[], .none offset, by simp [dasLoop]⟩
  | succ fuel ih =>
    by_cases hleft : left = 0
    · subst hleft
      exact ⟨[], .none offset, by simp [dasLoop]⟩
    have hpos : 0 < SEGMENT_SIZE := by decide
    rw [Nat.succ_mul] at hfuel
    rw [dasLoop_succ hnodes hleft, int32_succ]
    by_cases hend : offset + left ≤ SEGMENT_SIZE
    · -- the range ends in this object
      rw [Nat.min_eq_right (by omega), Nat.sub_self]
      obtain ⟨ps, hcut, hloop⟩ := ih 0 0 hpos (by omega) (x + 1)
        (pushed ++ [submitted mgr hash params (int32 x) (offset, left)])
      refine ⟨[(offset, left)], .last (by omega) hend, ?_⟩
      obtain rfl := hcut.eq_nil rfl
      rw [hloop]
      simp
    · -- it fills this object up to its end and goes on
      rw [Nat.min_eq_left (by omega)]
      obtain ⟨ps, hcut, hloop⟩ := ih 0 (left - (SEGMENT_SIZE - offset)) hpos
        (by omega) (x + 1)
        (pushed ++ [submitted mgr hash params (int32 x) (offset, SEGMENT_SIZE - offset)])
      refine ⟨(offset, SEGMENT_SIZE - offset) :: ps, ?_, ?_⟩
      · have h := Cut.cons hoffset (by omega) hcut
        rwa [show SEGMENT_SIZE - offset + (left - (SEGMENT_SIZE - offset)) = left by omega] at h
      · rw [hloop, List.zipIdx_cons, List.map_cons, List.append_assoc, List.singleton_append]

/-- More fuel does not change what a run comes to. -/
theorem dasLoop_mono {fuel fuel' offset left : ℕ} {id : ℤ} {pushed result : List Submitted}
    (hle : fuel ≤ fuel') (h : dasLoop mgr hash params fuel offset id left pushed = .done result) :
    dasLoop mgr hash params fuel' offset id left pushed = .done result := by
  induction fuel generalizing fuel' offset id left pushed with
  | zero => cases h
  | succ fuel ih =>
    obtain ⟨fuel', rfl⟩ : ∃ n, fuel' = n + 1 := ⟨fuel' - 1, by omega⟩
    rw [dasLoop] at h ⊢
    split_ifs at h ⊢ with hleft
    · exact h
    · dsimp only at h ⊢
      split_ifs at h ⊢
      exact ih (Nat.le_of_succ_le_succ hle) h

end Loop

/-! ## The server -/

/-- `OSA_ExecClass` takes the op for a prefetch of `len` bytes from `offset` on: that is what it
puts into the sub-op which it passes on. -/
def Prefetches (op : OSDOp) (offset len : ℕ) : Prop :=
  ∀ (core : Core) (prefetch : SaOpReq → OpRequestOps → ℤ) (opreq : SaOpReq) (i : ℕ)
    (copyupFlag : ℤ), core.prefetch = some prefetch → opreq.ptrMosdop.ops[i]? = some op →
    ∃ objOffset objLength : UInt32, objOffset.toNat = offset ∧ objLength.toNat = len ∧
      let osdop := { subOp ⟨opreq, i, core.cbFunc⟩ with
        objOffset := objOffset
        objLength := objLength }
      osaExecClass core opreq i copyupFlag =
        .returned (prefetch { opreq with vecOps := opreq.vecOps.set i osdop } osdop) copyupFlag

/-- The three parts of the payload. -/
theorem callArgs_prefetchOp {indata : Bytes} (h : indata.length ≤ 16) :
    callArgs (prefetchOp indata h) = some (rpcName, dasPrefetchName, indata) := by
  have hclass : (UInt8.ofNat rpcName.length).toNat = rpcName.length := by decide
  have hmethod : (UInt8.ofNat dasPrefetchName.length).toNat = dasPrefetchName.length := by decide
  have hindata : (UInt32.ofNat indata.length).toNat = indata.length := by
    rw [UInt32.toNat_ofNat']
    omega
  have hcopy : ∀ s r : Bytes, copy s.length (s ++ r) = some (s, r) :=
    fun s r => (Codec.copy_iff ..).mpr ⟨rfl, rfl⟩
  have hend := hcopy indata []
  rw [List.append_nil] at hend
  simp only [callArgs, prefetchOp, hclass, hmethod, hindata, List.append_assoc, hcopy, hend,
    Option.bind_eq_bind, Option.bind_some]

theorem decodePrefetch_encodePiece (offset max : ℕ) (hoffset : offset < 2 ^ 64)
    (hmax : max < 2 ^ 64) : decodePrefetch (encodePiece offset max) = some (offset, max) := by
  have hfirst := (le 8).dec_enc (show (le 8).Ok offset from hoffset) ((le 8).enc max)
  have hsecond := (le 8).dec_enc (show (le 8).Ok max from hmax) []
  rw [List.append_nil] at hsecond
  simp only [decodePrefetch, encodePiece, hfirst, hsecond, Option.bind_eq_bind, Option.bind_some]

/-- **The round trip.** The server reads the piece the client wrote. -/
theorem prefetches_prefetchOp {offset max : ℕ} (hend : offset + max ≤ SEGMENT_SIZE) :
    Prefetches (prefetchOp (encodePiece offset max) (encodePiece_length ..).le) offset max := by
  have hsize : SEGMENT_SIZE < 2 ^ 32 := by decide
  have hdecode := decodePrefetch_encodePiece offset max (by omega) (by omega)
  intro core prefetch opreq i copyupFlag hcore hop
  refine ⟨UInt32.ofNat offset, UInt32.ofNat max, ?_, ?_, ?_⟩
  · exact Nat.mod_eq_of_lt (by omega)
  · exact Nat.mod_eq_of_lt (by omega)
  · simp only [osaExecClass, hop, callArgs_prefetchOp, and_self, if_true, hcore, hdecode]

/-! ## The range -/

/-- Bytes of the range are in the `i`-th object from the first one on. -/
def Reaches (params : DasKvParam) (i : ℕ) : Prop :=
  params.len ≠ 0 ∧ i * SEGMENT_SIZE < params.offset.toNat % SEGMENT_SIZE + params.len.toNat

/-- What was submitted is the range, cut into `pieces`. -/
structure Covers (params : DasKvParam) (pieces : List (ℕ × ℕ)) (pushed : List Submitted) :
    Prop where
  count : pushed.length = pieces.length
  named : ∀ (i : ℕ) (s : Submitted), pushed[i]? = some s →
    ∃ digits, Hex16 digits (params.objId.toNat + i) ∧
      s.name = params.imageIdBuf.take params.imageIdLen.toNat ++ digits
  piece : ∀ (i : ℕ) (p : ℕ × ℕ), pieces[i]? = some p →
    p.1 = (if i = 0 then params.offset.toNat % SEGMENT_SIZE else 0) ∧ 0 < p.2 ∧
      p.1 + p.2 ≤ SEGMENT_SIZE ∧ (i + 1 < pieces.length → p.1 + p.2 = SEGMENT_SIZE)
  total : (pieces.map (·.2)).sum = params.len.toNat
  prefetched : ∀ (i : ℕ) (s : Submitted) (p : ℕ × ℕ), pushed[i]? = some s →
    pieces[i]? = some p → Prefetches s.op p.1 p.2

theorem segmentOffset (offset : UInt64) :
    (offset &&& SEGMENT_MASK).toNat = offset.toNat % SEGMENT_SIZE := by
  rw [UInt64.toNat_and]
  exact Nat.and_two_pow_sub_one_eq_mod _ 22

/-- What the loop submits for the pieces of a range. -/
theorem covers_of_cut (mgr : ClientAdaptorMgr) (hash : Bytes → BitVec 64) {params : DasKvParam}
    {ps : List (ℕ × ℕ)} (hcut : Cut (params.offset.toNat % SEGMENT_SIZE) params.len.toNat ps)
    (hobjects : ∀ i, Reaches params i → params.objId.toNat + i < 2 ^ 31) :
    Covers params ps ((ps.zipIdx params.objId.toNat).map fun p =>
      submitted mgr hash params (int32 p.2) p.1) := by
  have hget : ∀ i s, ((ps.zipIdx params.objId.toNat).map fun p =>
      submitted mgr hash params (int32 p.2) p.1)[i]? = some s →
      ∃ p, ps[i]? = some p ∧
        s = submitted mgr hash params (int32 ((params.objId.toNat + i : ℕ) : ℤ)) p := by
    intro i s hs
    rw [List.getElem?_map, List.getElem?_zipIdx] at hs
    cases hp : ps[i]? with
    | none => simp [hp] at hs
    | some p =>
      rw [hp] at hs
      exact ⟨p, rfl, (Option.some.inj hs).symm⟩
  refine ⟨by simp, ?_, fun i p hp => hcut.piece hp, hcut.sum_eq, ?_⟩
  · intro i s hs
    obtain ⟨p, hp, rfl⟩ := hget i s hs
    have hi := (List.getElem?_eq_some_iff.mp hp).1
    have hlen : params.len ≠ 0 := by
      intro hzero
      have hnil := hcut.eq_nil (by rw [hzero]; rfl)
      simp [hnil] at hi
    -- the range reaches into this object, so its number has not wrapped
    have hindex := hobjects i ⟨hlen, hcut.lt_end hi⟩
    exact ⟨_, hex16_printHex (int32_of_mem (by omega) (by omega)) hindex, oidName_eq ..⟩
  · intro i s p hs hp
    obtain ⟨p', hp', rfl⟩ := hget i s hs
    obtain rfl := Option.some.inj (hp'.symm.trans hp)
    exact prefetches_prefetchOp (hcut.piece hp).2.2.1

/-- **Prefetching.** With a turn for every object the range reaches into and one more, the loop
comes to its end, and what it has submitted is the range. -/
theorem dasReqPrefetch_covers (mgr : ClientAdaptorMgr) (hash : Bytes → BitVec 64)
    (params : DasKvParam) (hnodes : Nodes mgr hash params)
    (hobjects : ∀ i, Reaches params i → params.objId.toNat + i < 2 ^ 31) :
    ∃ pieces pushed, Covers params pieces pushed ∧
      ∀ fuel, (params.offset.toNat % SEGMENT_SIZE + params.len.toNat) / SEGMENT_SIZE + 2 ≤ fuel →
        dasReqPrefetch mgr hash params fuel = .done pushed := by
  have hpos : 0 < SEGMENT_SIZE := by decide
  have hoffset : params.offset.toNat % SEGMENT_SIZE < SEGMENT_SIZE := Nat.mod_lt _ hpos
  have hfuel := Nat.lt_mul_of_div_lt (Nat.lt_succ_self
    ((params.offset.toNat % SEGMENT_SIZE + params.len.toNat) / SEGMENT_SIZE)) hpos
  obtain ⟨ps, hcut, hloop⟩ := dasLoop_spec hnodes _ _ hoffset hfuel.le params.objId.toNat []
  refine ⟨ps, _, covers_of_cut mgr hash hcut hobjects, ?_⟩
  intro fuel hle
  rw [dasReqPrefetch, segmentOffset]
  exact dasLoop_mono hle hloop

/-- One node with one port, for every object. -/
def oneNode : ClientAdaptorMgr where
  getPtNum _ := some 1
  getPtEntry _ _ := some { nodeId := 0, indexInNode := 0 }
  getNodeInfo _ _ := some { publicAddrStr := [], portNum := 1, ports := .replicate _ 7880 }

def testParams : DasKvParam where
  offset := 2048
  len := 4194512
  cephPoolId := 2
  objId := 3
  imageIdLen := 22
  clusterId := 0
  imageIdBuf := ascii "rbd_data.135421846e0f.0000000000000056".toList
  image_length := by decide
  image_noNul := by decide
  name_fits := by decide

theorem nodes_testParams : Nodes oneNode (fun _ => 0) testParams := by
  intro name hname
  have hlength : ¬ name.length = 0 := by rwa [List.length_eq_zero_iff]
  have hnode : (getNodeId oneNode (fun _ => 0) 0 name 2).1 = 0x100000 := by
    rw [getNodeId, if_neg hlength]
    decide
  exact hnode ▸ by decide

/-- 4194512 bytes from 2048 on: the rest of object 3 and the first 2256 bytes of object 4. -/
theorem dasReqPrefetch_covers_two_objects :
    ∃ pieces pushed, Covers testParams pieces pushed ∧
      ∀ fuel, (testParams.offset.toNat % SEGMENT_SIZE + testParams.len.toNat) / SEGMENT_SIZE + 2 ≤
        fuel → dasReqPrefetch oneNode (fun _ => 0) testParams fuel = .done pushed := by
  refine dasReqPrefetch_covers oneNode (fun _ => 0) testParams nodes_testParams ?_
  rintro i ⟨-, hi⟩
  have hi : i * 4194304 < 2048 % 4194304 + 4194512 := hi
  show 3 + i < 2 ^ 31
  omega

end GcAdaptor.Prefetch
