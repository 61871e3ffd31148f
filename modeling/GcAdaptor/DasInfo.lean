/-
What DAS is told of a read: `ClientAdaptorMsg::das_update_info`
(`patch/ceph-global-cache.patch`).

The name of the object is cut behind its last dot. The first part goes along as it is, and the
rest as the number `std::stol` reads. A prefetch comes back with parameters of this form, and
`das_req_prefetch` prints the number again: `prefetch_of_read_iff` says for which reads the two
together ask for exactly what was read.
-/
import GcAdaptor.Prefetch
import Mathlib.Data.List.DropRight

set_option autoImplicit false

namespace GcAdaptor.DasInfo

open GcAdaptor.Wire GcAdaptor.Cxx GcAdaptor.MsgModule GcAdaptor.ClientAdaptorMsg
open GcAdaptor.Prefetch
open GcAdaptor.Copyup (decodePrefetch)

/-! ## The function -/

/-- The name of an object; its length and that of a printed number can be counted in 32 bits. -/
structure ObjName where
  bytes : Bytes
  noNul : 0 ∉ bytes
  fits : bytes.length + OBJECT_ID_LEN + 1 < 2 ^ 32

/-- `Objecter::Op`: `base_oid.name`, `base_oloc.pool`, `CEPH_OSD_FLAG_WRITE` of the flags, and the
sub-ops. -/
structure Op where
  name : ObjName
  pool : Int64
  write : Bool
  ops : List OSDOp

def RBD_DATA_OBJECT_NAME : Bytes := ascii "rbd_data".toList

/-- The name up to the last dot, which is `found`, and with it: `found + 1` bytes, none where there
is no dot. -/
def imageId (name : Bytes) : Bytes := name.rdropWhile (· ≠ 46)

/-- What follows the last dot. -/
def objIdText (name : Bytes) : Bytes := name.rtakeWhile (· ≠ 46)

/-- `std::stol` in base 16: `none` where it throws. -/
def stol16 (s : Bytes) : Option ℤ :=
  let (neg, body) := stripSign (s.dropWhile isSpace)
  let ds := digits 16 (stripHexMark body)
  if ds = [] then none
  else
    let n : ℤ := if neg then -(ofDigits 16 ds : ℤ) else (ofDigits 16 ds : ℤ)
    if -2 ^ 63 ≤ n ∧ n < 2 ^ 63 then some n else none

theorem imageId_append (name : Bytes) : imageId name ++ objIdText name = name :=
  List.rdropWhile_append_rtakeWhile ..

theorem length_imageId_le (name : Bytes) : (imageId name).length ≤ name.length := by
  have h := congrArg List.length (imageId_append name)
  rw [List.length_append] at h
  omega

theorem toNat_length_imageId (name : ObjName) :
    (UInt32.ofNat (imageId name.bytes).length).toNat = (imageId name.bytes).length := by
  rw [UInt32.toNat_ofNat', Nat.mod_eq_of_lt]
  have := length_imageId_le name.bytes
  have := name.fits
  omega

/-- The parameters of one sub-op that reads. The time stamp and the constants `opcode` and
`algType` are left out. -/
def param (clusterId : BitVec 32) (op : Op) (objId : UInt64) (p : OSDOp) : DasKvParam where
  offset := p.op.extentOffset
  len := p.op.extentLength
  cephPoolId := op.pool
  objId := objId
  imageIdLen := UInt32.ofNat (imageId op.name.bytes).length
  clusterId := clusterId
  imageIdBuf := imageId op.name.bytes
  image_length := (toNat_length_imageId op.name).le
  image_noNul := fun h => op.name.noNul (by
    rw [← imageId_append op.name.bytes]
    exact List.mem_append_left _ (List.mem_of_mem_take h))
  name_fits := by
    have := length_imageId_le op.name.bytes
    have := op.name.fits
    have := toNat_length_imageId op.name
    omega

def reads (p : OSDOp) : Bool := p.op.op = .read || p.op.op = .sparseRead || p.op.op = .syncRead

/-- What the call returns and has given to `OpenRcachePutDasInfo`, or that it throws. -/
inductive Result
  | returned (ret : ℤ) (put : List DasKvParam)
  | threw

def EINVAL : ℤ := 22

/-- `rc` is what `OpenRcachePutDasInfo` returns. -/
def dasUpdateInfo (initialized : Bool) (clusterId : BitVec 32) (rc : List DasKvParam → ℤ)
    (op : Op) : Result :=
  if !initialized then .returned 0 []
  else if op.write then .returned 0 []
  else if op.name.bytes.take 8 ≠ RBD_DATA_OBJECT_NAME then .returned 0 []
  else if imageId op.name.bytes = [] then .returned (-EINVAL) []
  else
    match stol16 ((objIdText op.name.bytes).take OBJECT_ID_LEN) with
    | none => .threw
    | some objId =>
      let params :=
        (op.ops.filter reads).map (param clusterId op (UInt64.ofNat (objId % 2 ^ 64).toNat))
      if params = [] then .returned 0 []
      else if rc params ≠ 0 then .returned (-1) params
      else .returned 0 params

/-! ## Numbers of 16 digits -/

section Names

theorem hex16_hexDigits {n : ℕ} (h : n < 2 ^ 64) : Hex16 (hexDigits OBJECT_ID_LEN n) n where
  length := hexDigits_length ..
  lower c hc := by
    obtain ⟨d, hd, rfl⟩ := mem_hexDigits hc
    exact (hexChar_spec hd).1
  value := by
    rw [ofDigits_hexDigits]
    exact Nat.mod_eq_of_lt (h.trans_le (by norm_num [OBJECT_ID_LEN]))

theorem digitVal_of_lower {c : UInt8} (h : 48 ≤ c ∧ c ≤ 57 ∨ 97 ≤ c ∧ c ≤ 102) :
    digitVal c < 16 ∧ digitVal c = if c ≤ 57 then c.toNat - 48 else c.toNat - 87 := by
  simp only [UInt8.le_iff_toNat_le, UInt8.reduceToNat] at h
  simp only [digitVal, UInt8.le_iff_toNat_le, UInt8.reduceToNat]
  split_ifs <;> omega

/-- Lower-case digits are told apart by their values. -/
theorem digitVal_inj {c d : UInt8} (hc : 48 ≤ c ∧ c ≤ 57 ∨ 97 ≤ c ∧ c ≤ 102)
    (hd : 48 ≤ d ∧ d ≤ 57 ∨ 97 ≤ d ∧ d ≤ 102) (h : digitVal c = digitVal d) : c = d := by
  rw [(digitVal_of_lower hc).2, (digitVal_of_lower hd).2] at h
  simp only [UInt8.le_iff_toNat_le, UInt8.reduceToNat] at h hc hd
  rw [← UInt8.toNat_inj]
  split_ifs at h <;> omega

theorem Hex16.eq {s t : Bytes} {n : ℕ} (hs : Hex16 s n) (ht : Hex16 t n) : s = t := by
  have hlt {s : Bytes} {n : ℕ} (hs : Hex16 s n) : ∀ d ∈ s.map digitVal, d < 16 := by
    intro d hd
    obtain ⟨c, hc, rfl⟩ := List.mem_map.mp hd
    exact (digitVal_of_lower (hs.lower c hc)).1
  have hmap := ofDigits_inj_of_length (by norm_num) (by simp [hs.length, ht.length]) (hlt hs)
    (hlt ht) (hs.value.trans ht.value.symm)
  refine List.ext_getElem (hs.length.trans ht.length.symm) fun i hi hi' => ?_
  refine digitVal_inj (hs.lower _ (List.getElem_mem hi)) (ht.lower _ (List.getElem_mem hi')) ?_
  have h := congrArg (·[i]?) hmap
  simpa [hi, hi'] using h

/-- `stol` reads what `printf` has written. -/
theorem stol16_of_hex16 {s : Bytes} {n : ℕ} (h : Hex16 s n) (hn : n < 2 ^ 63) :
    stol16 s = some (n : ℤ) := by
  have hdigit : ∀ c ∈ s, digitVal c < 16 := fun c hc => (digitVal_of_lower (h.lower c hc)).1
  have hne : s.map digitVal ≠ [] := by
    intro hnil
    have hlen := h.length
    rw [List.map_eq_nil_iff.mp hnil] at hlen
    contradiction
  have hmark : stripHexMark s = s := stripHexMark_of_digits le_rfl hdigit
  simp only [stol16, stripSign_of_digits le_rfl hdigit, hmark, digits_of_digits hdigit, if_neg hne,
    h.value, Bool.false_eq_true, if_false]
  exact if_pos ⟨by omega, by omega⟩

end Names

/-! ## A read and its prefetch -/

section Prefetch

variable (mgr : ClientAdaptorMgr) (hash : Bytes → BitVec 64)

/-- A prefetch with parameters `p` asks for what the sub-op `o` reads, of the object `op` reads and
at the node `op` goes to. -/
def Repeats (clusterId : BitVec 32) (op : Op) (o : OSDOp) (p : DasKvParam) : Prop :=
  ∃ fuel, dasReqPrefetch mgr hash p fuel = .done
    [{ name := op.name.bytes
       pool := op.pool
       osd := (getNodeId mgr hash clusterId op.name.bytes op.pool).1
       op := prefetchOp (encodePiece o.op.extentOffset.toNat o.op.extentLength.toNat)
         (encodePiece_length ..).le }]

variable {mgr hash} {clusterId : BitVec 32} {op : Op} {o : OSDOp} {objId : UInt64}

theorem take_imageIdBuf :
    (param clusterId op objId o).imageIdBuf.take (param clusterId op objId o).imageIdLen.toNat =
      imageId op.name.bytes := by
  exact List.take_of_length_le (toNat_length_imageId op.name).ge

theorem oidName_param (id : ℤ) :
    oidName (param clusterId op objId o) id = imageId op.name.bytes ++ printHex id := by
  rw [oidName_eq, take_imageIdBuf]

/-- The name that is printed is the name of the object. -/
theorem oidName_param_eq_iff :
    oidName (param clusterId op objId o) (int32 objId.toNat) = op.name.bytes ↔
      Hex16 (objIdText op.name.bytes) (objId.toNat % 2 ^ 32) := by
  have hword : (int32 objId.toNat % 2 ^ 32).toNat = objId.toNat % 2 ^ 32 := by
    rw [int32]
    omega
  have hprint : Hex16 (printHex (int32 objId.toNat)) (objId.toNat % 2 ^ 32) := by
    rw [printHex, hword]
    exact hex16_hexDigits ((Nat.mod_lt _ (by norm_num)).trans (by norm_num))
  rw [oidName_param]
  nth_rewrite 2 [← imageId_append op.name.bytes]
  rw [List.append_cancel_left_eq]
  exact ⟨fun h => h ▸ hprint, fun h => Hex16.eq hprint h⟩

theorem encodePiece_inj {a b c d : ℕ} (ha : a < 2 ^ 64) (hb : b < 2 ^ 64) (hc : c < 2 ^ 64)
    (hd : d < 2 ^ 64) (h : encodePiece a b = encodePiece c d) : a = c ∧ b = d := by
  have hdec := congrArg decodePrefetch h
  rw [decodePrefetch_encodePiece a b ha hb, decodePrefetch_encodePiece c d hc hd] at hdec
  simpa using hdec

/-- A prefetch of one piece is for the range itself, which its object holds. -/
theorem cut_singleton_iff {offset left : ℕ} {p : ℕ × ℕ} :
    Cut offset left [p] ↔ p = (offset, left) ∧ 0 < left ∧ offset + left ≤ SEGMENT_SIZE := by
  constructor
  · intro h
    cases h with
    | last hpos hend => exact ⟨rfl, hpos, hend⟩
    | cons _ hpos hrest => exact absurd hrest.sum_eq.symm hpos.ne'
  · rintro ⟨rfl, hpos, hend⟩
    exact .last hpos hend

/-- What a range in one object is cut into. -/
theorem Cut.eq_singleton {offset left : ℕ} {ps : List (ℕ × ℕ)} (h : Cut offset left ps)
    (hpos : 0 < left) (hend : offset + left ≤ SEGMENT_SIZE) : ps = [(offset, left)] := by
  cases h with
  | none => exact absurd hpos (lt_irrefl 0)
  | last => rfl
  | cons hoffset hrest => omega

/-- Enough fuel, and what a prefetch with the parameters of a read comes to. -/
theorem dasReqPrefetch_param
    (hnodes : ∀ name ≠ [], 0 ≤ (getNodeId mgr hash clusterId name op.pool).1.toInt) :
    ∃ fuel ps, Cut (o.op.extentOffset.toNat % SEGMENT_SIZE) o.op.extentLength.toNat ps ∧
      ∀ fuel', fuel ≤ fuel' →
        dasReqPrefetch mgr hash (param clusterId op objId o) fuel' =
          .done ((ps.zipIdx objId.toNat).map fun p =>
            submitted mgr hash (param clusterId op objId o) (int32 p.2) p.1) := by
  have hpos : 0 < SEGMENT_SIZE := by decide
  set turns :=
    (o.op.extentOffset.toNat % SEGMENT_SIZE + o.op.extentLength.toNat) / SEGMENT_SIZE with hturns
  have hfuel := Nat.lt_mul_of_div_lt (hturns ▸ Nat.lt_succ_self turns) hpos
  have hparam : Nodes mgr hash (param clusterId op objId o) := hnodes
  obtain ⟨ps, hcut, hloop⟩ := dasLoop_spec hparam _ _ (Nat.mod_lt _ hpos) hfuel.le objId.toNat []
  refine ⟨turns + 2, ps, hcut, fun fuel' hle => ?_⟩
  rw [dasReqPrefetch, segmentOffset]
  exact dasLoop_mono hle hloop

/-- One read, and a prefetch with its parameters. -/
theorem repeats_param_iff
    (hnodes : ∀ name ≠ [], 0 ≤ (getNodeId mgr hash clusterId name op.pool).1.toInt) :
    Repeats mgr hash clusterId op o (param clusterId op objId o) ↔
      Hex16 (objIdText op.name.bytes) (objId.toNat % 2 ^ 32) ∧ o.op.extentLength ≠ 0 ∧
        o.op.extentOffset.toNat + o.op.extentLength.toNat ≤ SEGMENT_SIZE := by
  have hlen : o.op.extentLength ≠ 0 ↔ 0 < o.op.extentLength.toNat := by
    rw [Nat.pos_iff_ne_zero, ne_eq, ne_eq, ← UInt64.toNat_inj]
    rfl
  have hname : oidName (param clusterId op objId o) (int32 objId.toNat) = op.name.bytes ↔
      Hex16 (objIdText op.name.bytes) (objId.toNat % 2 ^ 32) := oidName_param_eq_iff
  obtain ⟨bound, ps, hcut, hdone⟩ : ∃ fuel ps,
      Cut (o.op.extentOffset.toNat % SEGMENT_SIZE) o.op.extentLength.toNat ps ∧
      ∀ fuel', fuel ≤ fuel' → dasReqPrefetch mgr hash (param clusterId op objId o) fuel' =
        .done ((ps.zipIdx objId.toNat).map fun p =>
          submitted mgr hash (param clusterId op objId o) (int32 p.2) p.1) :=
    dasReqPrefetch_param hnodes
  rw [hlen, ← hname]
  constructor
  · rintro ⟨fuel, hfuel⟩
    -- the run that was seen is the run with more fuel
    have hrun := dasLoop_mono (Nat.le_max_left fuel bound) hfuel
    rw [← dasReqPrefetch, hdone _ (Nat.le_max_right fuel bound)] at hrun
    have hsubs := Outcome.done.inj hrun
    obtain ⟨p, rfl⟩ : ∃ p, ps = [p] := by
      rw [← List.length_eq_one_iff]
      simpa using congrArg List.length hsubs
    obtain ⟨rfl, hpos, hend⟩ := cut_singleton_iff.mp hcut
    rw [List.zipIdx_singleton, List.map_singleton, List.singleton_inj] at hsubs
    refine ⟨congrArg Submitted.name hsubs, hpos, ?_⟩
    have hdata := congrArg (·.op.indata.data) hsubs
    have hpiece := List.append_cancel_left hdata
    obtain ⟨hoffset, -⟩ := encodePiece_inj
      ((Nat.mod_le ..).trans_lt o.op.extentOffset.toNat_lt) o.op.extentLength.toNat_lt
      o.op.extentOffset.toNat_lt o.op.extentLength.toNat_lt hpiece
    rwa [hoffset] at hend
  · rintro ⟨hname, hpos, hend⟩
    have hmod : o.op.extentOffset.toNat % SEGMENT_SIZE = o.op.extentOffset.toNat :=
      Nat.mod_eq_of_lt (by omega)
    rw [hmod] at hcut
    obtain rfl := Cut.eq_singleton hcut hpos hend
    refine ⟨bound, (hdone bound le_rfl).trans ?_⟩
    rw [List.zipIdx_singleton, List.map_singleton, submitted, hname]
    rfl

/-- What a call has given away comes from the sub-ops that read, one by one. -/
theorem put_eq {initialized : Bool} {rc : List DasKvParam → ℤ} {ret : ℤ} {put : List DasKvParam}
    (h : dasUpdateInfo initialized clusterId rc op = .returned ret put) (hput : put ≠ []) :
    ∃ objId, stol16 ((objIdText op.name.bytes).take OBJECT_ID_LEN) = some objId ∧
      put = (op.ops.filter reads).map
        (param clusterId op (UInt64.ofNat (objId % 2 ^ 64).toNat)) := by
  unfold dasUpdateInfo at h
  split_ifs at h
  -- nothing is put before the number has been read
  any_goals
    obtain ⟨-, rfl⟩ := Result.returned.inj h
    exact absurd rfl hput
  split at h
  · cases h
  · next objId hobj =>
    refine ⟨objId, hobj, ?_⟩
    dsimp only at h
    split_ifs at h
    · exact absurd (Result.returned.inj h).2.symm hput
    all_goals exact (Result.returned.inj h).2.symm

/-- **What DAS can prefetch.** A call has nothing for DAS, or one entry for each sub-op that reads.
Sent back as it is, an entry makes a prefetch of what was read if and only if the number in the
name of the object is written with 16 lower-case digits and fits into 32 bits, and what was read
is not empty and in one object. -/
theorem prefetch_of_read_iff (mgr : ClientAdaptorMgr) (hash : Bytes → BitVec 64)
    (initialized : Bool) (clusterId : BitVec 32) (rc : List DasKvParam → ℤ) (op : Op) (ret : ℤ)
    (put : List DasKvParam)
    (h : dasUpdateInfo initialized clusterId rc op = .returned ret put)
    (hnodes : ∀ name ≠ [], 0 ≤ (getNodeId mgr hash clusterId name op.pool).1.toInt) :
    put = [] ∨ List.Forall₂
      (fun o p => Repeats mgr hash clusterId op o p ↔
        (∃ n < 2 ^ 32, Hex16 (objIdText op.name.bytes) n) ∧ o.op.extentLength ≠ 0 ∧
          o.op.extentOffset.toNat + o.op.extentLength.toNat ≤ SEGMENT_SIZE)
      (op.ops.filter reads) put := by
  by_cases hput : put = []
  · exact .inl hput
  obtain ⟨objId, hobj, rfl⟩ := put_eq h hput
  refine .inr (List.forall₂_map_right_iff.mpr (List.forall₂_same.mpr fun o _ => ?_))
  rw [repeats_param_iff hnodes]
  refine and_congr_left' ⟨fun hhex => ⟨_, Nat.mod_lt _ (by norm_num), hhex⟩, ?_⟩
  -- the number that was read is the one in the name
  rintro ⟨n, hn, hhex⟩
  have hread := stol16_of_hex16 hhex (hn.trans (by norm_num))
  rw [← List.take_of_length_le (i := OBJECT_ID_LEN) hhex.length.le, hobj] at hread
  obtain rfl := Option.some.inj hread
  have hword : (UInt64.ofNat ((n : ℤ) % 2 ^ 64).toNat).toNat % 2 ^ 32 = n := by
    rw [UInt64.toNat_ofNat']
    omega
  rwa [hword]

def testRead (offset len : UInt64) : OSDOp where
  op :=
    { op := .read
      extentOffset := offset
      extentLength := len }

/-- A read of 8 KiB, and one over the end of the object. -/
def testOp : Op where
  name :=
    { bytes := ascii "rbd_data.135421846e0f.0000000000000056".toList
      noNul := by decide
      fits := by decide }
  pool := 2
  write := false
  ops := [testRead 4096 8192, testRead 4194303 2]

theorem hex16_testOp : Hex16 (objIdText testOp.name.bytes) 0x56 where
  length := rfl
  lower := by decide +kernel
  value := rfl

theorem dasUpdateInfo_testOp :
    dasUpdateInfo true 0 (fun _ => 0) testOp =
      .returned 0 (testOp.ops.map (param 0 testOp 0x56)) := by
  have hobj : stol16 ((objIdText testOp.name.bytes).take OBJECT_ID_LEN) = some 0x56 := by
    rw [List.take_of_length_le (by decide), stol16_of_hex16 hex16_testOp (by norm_num)]
    rfl
  have himage : imageId testOp.name.bytes ≠ [] := by decide
  have hname : ¬ testOp.name.bytes.take 8 ≠ RBD_DATA_OBJECT_NAME := by decide
  simp only [dasUpdateInfo, hobj, if_neg himage, if_neg hname]
  rfl

/-- The first one is asked for as it was read. The second one is not: its prefetch is for a piece
of the next object, too. -/
theorem prefetch_of_read_iff_two_reads :
    Repeats oneNode (fun _ => 0) 0 testOp (testRead 4096 8192)
        (param 0 testOp 0x56 (testRead 4096 8192)) ∧
      ¬ Repeats oneNode (fun _ => 0) 0 testOp (testRead 4194303 2)
        (param 0 testOp 0x56 (testRead 4194303 2)) := by
  have hall := (prefetch_of_read_iff oneNode (fun _ => 0) true 0 (fun _ => 0)
    testOp 0 _ dasUpdateInfo_testOp nodes_testParams).resolve_left (by simp [testOp])
  obtain ⟨hfirst, hrest⟩ := List.forall₂_cons.mp hall
  obtain ⟨hsecond, -⟩ := List.forall₂_cons.mp hrest
  refine ⟨hfirst.mpr ⟨⟨_, by norm_num, hex16_testOp⟩, by decide, by decide⟩, fun h => ?_⟩
  exact absurd (hsecond.mp h).2.2 (by decide)

end Prefetch

end GcAdaptor.DasInfo
