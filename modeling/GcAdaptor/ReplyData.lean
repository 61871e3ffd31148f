/-
What the cache core writes into a request before it is answered: the `Encode*` functions,
`SetOpResult` and `ProcessBuf` of `server_adaptor/network_module.cpp`, as the calls of one run.

The core works on several sub-ops of a request at a time, and calls for different sub-ops come in
any order. A call touches one sub-op, so what a sub-op is answered depends on the calls for it
alone (`replies_independent`).

The replies of `ClassApi` are read by the class methods. Those here are read by the client:
`obj_list_snap_response_t`, a versioned frame around the clones, and the extents of a sparse read.
-/
import GcAdaptor.ClassApi

set_option autoImplicit false

namespace GcAdaptor.ReplyData

open GcAdaptor.Wire GcAdaptor.Cxx GcAdaptor.MsgModule GcAdaptor.NetworkModule GcAdaptor.ClassApi
open GcAdaptor.Wire.Codec (le leEnc leDec str pair many)

/-! ## Versioned frames -/

section Frames

variable {α : Type}

/-- `ENCODE_START(v, compat, bl)` to `ENCODE_FINISH(bl)` -/
def frame (v compat : ℕ) (body : Bytes) : Bytes :=
  leEnc 1 v ++ leEnc 1 compat ++ leEnc 4 body.length ++ body

/-- `DECODE_START(v, p)` to `DECODE_FINISH(p)`. The body is read with the version it was written
with, and what the reader leaves of it is skipped. -/
def unframe (v : ℕ) (body : ℕ → Bytes → Option (α × Bytes)) (bs : Bytes) : Option (α × Bytes) := do
  let (structV, bs) ← leDec 1 bs
  let (structCompat, bs) ← leDec 1 bs
  if v < structCompat then none
  else
    let (structLen, bs) ← leDec 4 bs
    if bs.length < structLen then none
    else
      let (a, rest) ← body structV bs
      if structLen < bs.length - rest.length then none else some (a, bs.drop structLen)

/-- Reads `n` values, one after the other. -/
def readMany (read : Bytes → Option (α × Bytes)) : ℕ → Bytes → Option (List α × Bytes)
  | 0, bs => some ([], bs)
  | n + 1, bs => (read bs).bind fun p => (readMany read n p.2).map fun q => (p.1 :: q.1, q.2)

theorem unframe_frame {v v' compat : ℕ} {body : Bytes} {read : ℕ → Bytes → Option (α × Bytes)}
    {a : α} (hv : v < 256) (hcompat : compat ≤ v') (hcompat' : compat < 256)
    (hlen : body.length < 2 ^ 32) (r : Bytes) (h : read v (body ++ r) = some (a, r)) :
    unframe v' read (frame v compat body ++ r) = some (a, r) := by
  have hdec (k n : ℕ) (hn : n < 256 ^ k) (s : Bytes) : leDec k (leEnc k n ++ s) = some (n, s) :=
    (Codec.leDec_iff k _ n s).mpr ⟨hn, rfl⟩
  have hbytes : frame v compat body ++ r =
      leEnc 1 v ++ (leEnc 1 compat ++ (leEnc 4 body.length ++ (body ++ r))) := by
    simp only [frame, List.append_assoc]
  rw [hbytes, unframe, hdec 1 v (by simpa using hv)]
  simp only [Option.bind_eq_bind, Option.bind_some]
  rw [hdec 1 compat (by simpa using hcompat')]
  simp only [Option.bind_some, if_neg (not_lt.mpr hcompat)]
  rw [hdec 4 body.length (by simpa using hlen)]
  have hlong : ¬ (body ++ r).length < body.length := by simp
  have hread : ¬ body.length < (body ++ r).length - r.length := by simp
  simp only [Option.bind_some, if_neg hlong, h, if_neg hread, List.drop_left]

theorem readMany_flatMap {read : Bytes → Option (α × Bytes)} {write : α → Bytes} {as : List α}
    (h : ∀ a ∈ as, ∀ r, read (write a ++ r) = some (a, r)) (r : Bytes) :
    readMany read as.length (as.flatMap write ++ r) = some (as, r) := by
  induction as with
  | nil => rfl
  | cons a as ih =>
    have hrest := ih fun b hb => h b (by simp [hb])
    rw [List.flatMap_cons, List.append_assoc, List.length_cons, readMany, h a (by simp),
      Option.bind_some, hrest]
    rfl

end Frames

/-! ## Snapshots of an object -/

def CEPH_NOSNAP : ℕ := 2 ^ 64 - 2

/-- `CloneInfo` -/
structure CloneInfo where
  cloneid : UInt32
  objSize : UInt32
  snapNum : UInt32
  snaps : List UInt32
  overlapNum : UInt32
  overlaps : List (UInt32 × UInt32)
  snaps_length : snaps.length = snapNum.toNat
  overlaps_length : overlaps.length = overlapNum.toNat

/-- `ObjSnaps`. Nobody reads its `seq`. -/
structure ObjSnaps where
  seq : UInt32
  cloneInfoNum : UInt32
  cloneInfos : List CloneInfo
  cloneInfos_length : cloneInfos.length = cloneInfoNum.toNat

/-- `clone_info` -/
structure Clone where
  cloneid : ℕ
  snaps : List ℕ := []
  overlap : List (ℕ × ℕ) := []
  size : ℕ
  deriving DecidableEq

/-- `obj_list_snap_response_t` -/
structure SnapSet where
  clones : List Clone
  seq : ℕ
  deriving DecidableEq

/-- The body of `clone_info`. -/
def cloneCodec : Codec (ℕ × List ℕ × List (ℕ × ℕ) × ℕ) :=
  pair (le 8) (pair (many (le 8)) (pair (many (pair (le 8) (le 8))) (le 8)))

def Clone.bytes (c : Clone) : Bytes :=
  frame 1 1 (cloneCodec.enc (c.cloneid, c.snaps, c.overlap, c.size))

def decodeClone : Bytes → Option (Clone × Bytes) :=
  unframe 1 fun _ bs => (cloneCodec.dec bs).map fun p =>
    ({ cloneid := p.1.1, snaps := p.1.2.1, overlap := p.1.2.2.1, size := p.1.2.2.2 }, p.2)

def SnapSet.bytes (s : SnapSet) : Bytes :=
  frame 2 1 (leEnc 4 s.clones.length ++ s.clones.flatMap Clone.bytes ++ leEnc 8 s.seq)

def decodeSnapSet : Bytes → Option (SnapSet × Bytes) :=
  unframe 2 fun structV bs => do
    let (n, bs) ← leDec 4 bs
    let (clones, bs) ← readMany decodeClone n bs
    if 2 ≤ structV then
      let (seq, bs) ← leDec 8 bs
      some (⟨clones, seq⟩, bs)
    else some (⟨clones, CEPH_NOSNAP⟩, bs)

/-- The turn of the loop over the clones. -/
def CloneInfo.clone (ci : CloneInfo) : Clone where
  cloneid := ci.cloneid.toNat
  snaps := ci.snaps.map UInt32.toNat
  overlap := ci.overlaps.map fun o => (o.1.toNat, o.2.toNat)
  size := ci.objSize.toNat

def CloneInfo.head (ci : CloneInfo) : Clone := { cloneid := CEPH_NOSNAP, size := ci.objSize.toNat }

/-- `resp` of `EncodeListSnaps` -/
def listSnapsResp (o : ObjSnaps) : SnapSet where
  clones := (o.cloneInfos.take (o.cloneInfoNum.toNat - 1)).map CloneInfo.clone ++
    o.cloneInfos[o.cloneInfoNum.toNat - 1]?.toList.map CloneInfo.head
  seq :=
    if 2 ≤ o.cloneInfoNum then
      (o.cloneInfos[o.cloneInfoNum.toNat - 2]?.map fun ci => ci.cloneid.toNat).getD 0
    else 0

def encodeListSnaps (objSnaps : Option ObjSnaps) (i : ℕ) :
    Option (List OSDOp) → Option (List OSDOp) :=
  onOutdata objSnaps i fun o outdata =>
    if o.cloneInfoNum < 1 then outdata else outdata ++ (listSnapsResp o).bytes

/-! ## What the client reads of them -/

/-- A clone whose fields fit their words. -/
def Clone.Ok (c : Clone) : Prop := cloneCodec.Ok (c.cloneid, c.snaps, c.overlap, c.size)

theorem decodeClone_bytes {c : Clone} (hok : c.Ok) (hlen : c.bytes.length < 2 ^ 32) (r : Bytes) :
    decodeClone (c.bytes ++ r) = some (c, r) := by
  have hbody : (cloneCodec.enc (c.cloneid, c.snaps, c.overlap, c.size)).length < 2 ^ 32 := by
    simp only [Clone.bytes, frame, List.length_append, Codec.leEnc_length] at hlen
    omega
  refine unframe_frame (by norm_num) le_rfl (by norm_num) hbody r ?_
  rw [cloneCodec.dec_enc hok]
  rfl

theorem length_le_flatMap {α : Type} (write : α → Bytes) {as : List α} {a : α} (h : a ∈ as) :
    (write a).length ≤ (as.flatMap write).length := by
  rw [List.length_flatMap]
  exact List.single_le_sum (fun _ _ => Nat.zero_le _) _ (List.mem_map_of_mem h)

theorem length_clones_le (clones : List Clone) :
    clones.length ≤ (clones.flatMap Clone.bytes).length := by
  rw [List.length_flatMap]
  have hpos : ∀ n ∈ clones.map fun c => c.bytes.length, 1 ≤ n := by
    intro n hn
    obtain ⟨c, -, rfl⟩ := List.mem_map.mp hn
    simp only [Clone.bytes, frame, List.length_append, Codec.leEnc_length]
    omega
  have hle := List.length_le_sum_of_one_le _ hpos
  rwa [List.length_map] at hle

/-- A response the client can hold comes back as it was written. -/
theorem decodeSnapSet_bytes {s : SnapSet} (hclones : ∀ c ∈ s.clones, c.Ok) (hseq : s.seq < 2 ^ 64)
    (hfits : s.bytes.length < 2 ^ 32) (r : Bytes) : decodeSnapSet (s.bytes ++ r) = some (s, r) := by
  have hlen : (leEnc 4 s.clones.length ++ s.clones.flatMap Clone.bytes ++ leEnc 8 s.seq).length <
      2 ^ 32 := by
    simp only [SnapSet.bytes, frame, List.length_append, Codec.leEnc_length] at hfits ⊢
    omega
  have hflat : (s.clones.flatMap Clone.bytes).length < 2 ^ 32 := by
    simp only [List.length_append, Codec.leEnc_length] at hlen
    omega
  have hcount : s.clones.length < 256 ^ 4 := by
    have hle := length_clones_le s.clones
    omega
  have hmany (t : Bytes) : readMany decodeClone s.clones.length
      (s.clones.flatMap Clone.bytes ++ t) = some (s.clones, t) := by
    refine readMany_flatMap (fun c hc t => decodeClone_bytes (hclones c hc) ?_ t) t
    have hle := length_le_flatMap Clone.bytes hc
    omega
  refine unframe_frame (by norm_num) (by norm_num) (by norm_num) hlen r ?_
  have hcountDec (t : Bytes) : leDec 4 (leEnc 4 s.clones.length ++ t) = some (s.clones.length, t) :=
    (Codec.leDec_iff 4 _ _ t).mpr ⟨hcount, rfl⟩
  have hseqDec : leDec 8 (leEnc 8 s.seq ++ r) = some (s.seq, r) :=
    (Codec.leDec_iff 8 _ _ r).mpr ⟨by norm_num; omega, rfl⟩
  simp only [List.append_assoc, Option.bind_eq_bind]
  rw [hcountDec, Option.bind_some, hmany, Option.bind_some]
  simp only [le_refl, if_true]
  rw [hseqDec]
  rfl

theorem toNat_lt_word (x : UInt32) : x.toNat < 256 ^ 8 := by
  have h := x.toNat_lt
  omega

theorem clone_ok (ci : CloneInfo) : ci.clone.Ok := by
  have hsnaps : (ci.snaps.map UInt32.toNat).length < 256 ^ 4 := by
    rw [List.length_map, ci.snaps_length]
    exact ci.snapNum.toNat_lt
  have hoverlaps : (ci.overlaps.map fun o => (o.1.toNat, o.2.toNat)).length < 256 ^ 4 := by
    rw [List.length_map, ci.overlaps_length]
    exact ci.overlapNum.toNat_lt
  refine ⟨toNat_lt_word _, ⟨hsnaps, fun n hn => ?_⟩, ⟨hoverlaps, fun p hp => ?_⟩, toNat_lt_word _⟩
  · obtain ⟨x, -, rfl⟩ := List.mem_map.mp hn
    exact toNat_lt_word x
  · obtain ⟨o, -, rfl⟩ := List.mem_map.mp hp
    exact ⟨toNat_lt_word o.1, toNat_lt_word o.2⟩

theorem head_ok (ci : CloneInfo) : ci.head.Ok :=
  ⟨show 2 ^ 64 - 2 < 256 ^ 8 by norm_num, ⟨show 0 < 256 ^ 4 by norm_num, nofun⟩,
    ⟨show 0 < 256 ^ 4 by norm_num, nofun⟩, toNat_lt_word _⟩

/-- With a last clone there is a head, and the newest clone before it gives the `seq`. -/
theorem listSnapsResp_of_concat {o : ObjSnaps} {clones : List CloneInfo} {last : CloneInfo}
    (h : o.cloneInfos = clones ++ [last]) : listSnapsResp o =
      { clones := clones.map CloneInfo.clone ++ [last.head]
        seq := (clones.getLast?.map fun ci => ci.cloneid.toNat).getD 0 } := by
  have hnum : o.cloneInfoNum.toNat = clones.length + 1 := by
    rw [← o.cloneInfos_length, h, List.length_append, List.length_singleton]
  have hge : 2 ≤ o.cloneInfoNum ↔ clones ≠ [] := by
    rw [UInt32.le_iff_toNat_le, hnum, ← List.length_pos_iff_ne_nil]
    show 2 ≤ clones.length + 1 ↔ 0 < clones.length
    omega
  unfold listSnapsResp
  rw [hnum, h]
  congr 1
  · simp
  · by_cases hnil : clones = []
    · rw [if_neg fun h => hge.mp h hnil, hnil]
      rfl
    · have hpos := List.length_pos_iff_ne_nil.mpr hnil
      rw [if_pos (hge.mpr hnil), List.getLast?_eq_getElem?,
        List.getElem?_append_left (show clones.length + 1 - 2 < clones.length by omega)]
      congr 2

/-! ## The calls of the core -/

/-- A sub-op of the request and its `rval`. -/
structure SubOp where
  osdop : OSDOp
  rval : Int32 := 0

/-- The argument of a function that does nothing for a null pointer. -/
def nonNull (buf : SaStr) : Option SaStr := buf.buf.map fun _ => buf

/-- `EncodeXattrGetXattr`: what was there is cleared. -/
def encodeXattrGetXattr (keyValue : Option SaBatchKv) (i : ℕ) :
    Option (List OSDOp) → Option (List OSDOp) :=
  onOutdata keyValue i fun kv _ => kv.values.flatMap SaStr.view

/-- `EncodeRead`. The extents are a map with one entry. -/
def encodeRead (opType : OpCode) (offset len : UInt32) (buf : SaStr) (i : ℕ) :
    Option (List OSDOp) → Option (List OSDOp) :=
  onOutdata (nonNull buf) i fun buf outdata =>
    if opType = .sparseRead then
      outdata ++ (many (pair (le 8) (le 8))).enc [(offset.toNat, len.toNat)] ++ str.enc buf.view
    else outdata ++ buf.view

/-- `ProcessBuf`, which does not check `cnt`: with `none` it writes behind the sub-ops. -/
def processBuf (buf : SaStr) (cnt : ℕ) : Option (List OSDOp) → Option (List OSDOp)
  | none => none
  | some ops =>
    if (nonNull buf).isSome ∧ ops.length ≤ cnt then none
    else onOutdata (nonNull buf) cnt (fun buf outdata => outdata ++ str.enc buf.view) (some ops)

/-- `SetOpResult` -/
def setOpResult (i : ℕ) (ret : Int32) (ops : List SubOp) : List SubOp :=
  if ops.length ≤ i then ops else ops.modify i fun op => { op with rval := ret }

/-- A call for a sub-op, with its other arguments. -/
inductive Call
  | omapGetkeys (batchKeys : Option SaBatchKeys)
  | omapGetvals (kvs : Option SaBatchKv)
  | omapGetvalsbykeys (keyValue : Option SaBatchKv)
  | xattrGetXattr (keyValue : Option SaBatchKv)
  | xattrGetXattrs (keyValue : Option SaBatchKv)
  | getOpstat (psize : UInt64) (ptime : Int64)
  | read (opType : OpCode) (offset len : UInt32) (buf : SaStr)
  | listSnaps (objSnaps : Option ObjSnaps)
  | processBuf (buf : SaStr)
  | setOpResult (ret : Int32)

/-- A function that writes `outdata`, on the sub-ops with their results. -/
def onOps (f : Option (List OSDOp) → Option (List OSDOp)) (ops : List SubOp) :
    Option (List SubOp) :=
  (f (some (ops.map SubOp.osdop))).map fun osdops =>
    List.zipWith (fun osdop op => { op with osdop := osdop }) osdops ops

def call (i : ℕ) : Call → List SubOp → Option (List SubOp)
  | .omapGetkeys batchKeys => onOps (encodeOmapGetkeys batchKeys i)
  | .omapGetvals kvs => onOps (encodeOmapGetvals kvs i)
  | .omapGetvalsbykeys keyValue => onOps (encodeOmapGetvalsbykeys keyValue i)
  | .xattrGetXattr keyValue => onOps (encodeXattrGetXattr keyValue i)
  | .xattrGetXattrs keyValue => onOps (encodeXattrGetXattrs keyValue i)
  | .getOpstat psize ptime => onOps (encodeGetOpstat psize ptime i)
  | .read opType offset len buf => onOps (encodeRead opType offset len buf i)
  | .listSnaps objSnaps => onOps (encodeListSnaps objSnaps i)
  | .processBuf buf => onOps (processBuf buf i)
  | .setOpResult ret => fun ops => some (setOpResult i ret ops)

/-- The calls of a run, each for the sub-op with its index. -/
def calls (cs : List (ℕ × Call)) (ops : List SubOp) : Option (List SubOp) :=
  cs.foldlM (fun ops c => call c.1 c.2 ops) ops

/-! ## A call touches one sub-op -/

section Locality

variable {α : Type} {ops ops' : List SubOp} {cs ds : List (ℕ × Call)} {i : ℕ} {c : Call}

/-- What a call does to its sub-op. -/
def Call.onOp (c : Call) (op : SubOp) : SubOp := ((call 0 c [op]).bind List.head?).getD op

/-- The call writes without a look at the index. -/
def Call.unchecked : Call → Bool
  | .processBuf buf => (nonNull buf).isSome
  | _ => false

/-- The sub-op with `outdata` rewritten. -/
def SubOp.rewrite (g : Bytes → Bytes) (op : SubOp) : SubOp :=
  { op with osdop := { op.osdop with outdata := g op.osdop.outdata } }

theorem onOps_onOutdata (arg : Option α) (f : α → Bytes → Bytes) (i : ℕ) (ops : List SubOp) :
    onOps (onOutdata arg i f) ops =
      some (ops.modify i fun op => arg.elim op fun a => op.rewrite (f a)) := by
  have hback (osdops : List OSDOp) (h : osdops = ops.map SubOp.osdop) :
      List.zipWith (fun osdop op => { op with osdop := osdop }) osdops ops = ops := by
    subst h
    rw [List.zipWith_map_left, List.zipWith_self]
    exact List.map_id ops
  cases arg with
  | none =>
    simp only [onOps, onOutdata, Option.map_some, hback _ rfl, Option.elim_none]
    rw [show (fun op : SubOp => op) = id from rfl, List.modify_id]
  | some a =>
    by_cases hi : ops.length ≤ i
    · have hmap : (ops.map SubOp.osdop).length ≤ i := by rwa [List.length_map]
      simp only [onOps, onOutdata, if_pos hmap, Option.map_some, hback _ rfl]
      rw [List.modify_eq_self hi]
    · have hmap : ¬ (ops.map SubOp.osdop).length ≤ i := by rwa [List.length_map]
      simp only [onOps, onOutdata, if_neg hmap, Option.map_some, Option.elim_some]
      refine congrArg some (List.ext_getElem? fun j => ?_)
      rw [List.getElem?_zipWith, List.getElem?_modify, List.getElem?_modify, List.getElem?_map]
      cases ops[j]? with
      | none => rfl
      | some op => by_cases hj : i = j <;> simp [hj, SubOp.rewrite]

/-- A function that writes the `outdata` of the sub-op with the index and looks at nothing else. -/
theorem call_of_onOutdata (arg : Option α) (f : α → Bytes → Bytes) (hc : c.unchecked = false)
    (h : ∀ i, call i c = onOps (onOutdata arg i f)) (i : ℕ) (ops : List SubOp) :
    call i c ops =
      if c.unchecked ∧ ops.length ≤ i then none else some (ops.modify i c.onOp) := by
  have hop : c.onOp = fun op => arg.elim op fun a => op.rewrite (f a) := by
    funext op
    rw [Call.onOp, h, onOps_onOutdata]
    rfl
  rw [h, onOps_onOutdata, hop, hc, if_neg fun h => nomatch h.1]

theorem onOps_processBuf (buf : SaStr) (i : ℕ) (ops : List SubOp) :
    onOps (processBuf buf i) ops = if (nonNull buf).isSome ∧ ops.length ≤ i then none
      else some (ops.modify i fun op =>
        (nonNull buf).elim op fun buf => op.rewrite (· ++ str.enc buf.view)) := by
  have hmap : (ops.map SubOp.osdop).length ≤ i ↔ ops.length ≤ i := by rw [List.length_map]
  by_cases h : (nonNull buf).isSome ∧ ops.length ≤ i
  · rw [if_pos h, onOps, processBuf, if_pos (h.imp_right hmap.mpr), Option.map_none]
  · rw [if_neg h, ← onOps_onOutdata, onOps, processBuf, if_neg fun h' => h (h'.imp_right hmap.mp)]
    rfl

theorem call_eq (i : ℕ) (c : Call) (ops : List SubOp) :
    call i c ops =
      if c.unchecked ∧ ops.length ≤ i then none else some (ops.modify i c.onOp) := by
  cases c with
  | omapGetkeys | omapGetvals | omapGetvalsbykeys | xattrGetXattr | xattrGetXattrs | getOpstat
  | read | listSnaps => exact call_of_onOutdata _ _ rfl (fun _ => rfl) i ops
  | processBuf buf =>
    have hop : (Call.processBuf buf).onOp = fun op =>
        (nonNull buf).elim op fun buf => op.rewrite (· ++ str.enc buf.view) := by
      funext op
      have hone : ¬ ((nonNull buf).isSome = true ∧ [op].length ≤ 0) := fun h => nomatch h.2
      rw [Call.onOp, call, onOps_processBuf, if_neg hone]
      rfl
    rw [hop]
    exact onOps_processBuf buf i ops
  | setOpResult ret =>
    have hop : (Call.setOpResult ret).onOp = fun op => { op with rval := ret } := rfl
    rw [hop, if_neg fun h => nomatch h.1]
    show some (setOpResult i ret ops) = _
    rw [setOpResult]
    split_ifs with hi
    · rw [List.modify_eq_self hi]
    · rfl

/-- A run changes the sub-ops one by one, unless it writes behind them. -/
theorem calls_eq (cs : List (ℕ × Call)) (ops : List SubOp) :
    calls cs ops =
      if ∃ c ∈ cs, c.2.unchecked ∧ ops.length ≤ c.1 then none
      else some (cs.foldl (fun ops c => ops.modify c.1 c.2.onOp) ops) := by
  induction cs generalizing ops with
  | nil => simp [calls]
  | cons c cs ih =>
    have hcons : calls (c :: cs) ops = (call c.1 c.2 ops).bind (calls cs) := List.foldlM_cons
    rw [hcons, call_eq]
    by_cases hc : c.2.unchecked ∧ ops.length ≤ c.1
    · rw [if_pos hc, if_pos ⟨c, by simp, hc⟩]
      rfl
    · rw [if_neg hc, Option.bind_some, ih, List.length_modify, List.foldl_cons]
      simp only [List.exists_mem_cons_iff, or_iff_right hc]

/-- **Sub-ops are answered on their own.** Two runs that make the same calls for each sub-op, in
whatever order between sub-ops, leave the same request. -/
theorem replies_independent (h : ∀ i, cs.filter (·.1 = i) = ds.filter (·.1 = i))
    (ops : List SubOp) : calls cs ops = calls ds ops := by
  have hmem (c : ℕ × Call) : c ∈ cs ↔ c ∈ ds := by
    have hfilter (l : List (ℕ × Call)) : c ∈ l ↔ c ∈ l.filter (·.1 = c.1) := by simp
    rw [hfilter cs, hfilter ds, h]
  simp only [calls_eq, hmem]
  refine if_congr Iff.rfl rfl (congrArg some (List.ext_getElem? fun i => ?_))
  rw [getElem?_foldl_modify Call.onOp, getElem?_foldl_modify Call.onOp, h]

/-- The result of one sub-op is set between two chunks for the other. -/
theorem replies_independent_two_reads :
    calls [(0, .read .read 0 1 (oneByte 'a')), (1, .setOpResult 7),
        (0, .read .read 1 1 (oneByte 'b'))]
        [{ osdop := { op := { op := .read } } }, { osdop := { op := { op := .stat } } }] =
      calls [(1, .setOpResult 7), (0, .read .read 0 1 (oneByte 'a')),
        (0, .read .read 1 1 (oneByte 'b'))]
        [{ osdop := { op := { op := .read } } }, { osdop := { op := { op := .stat } } }] :=
  replies_independent (fun i => by rcases i with - | - | i <;> simp) _

end Locality

/-! ## The round trips -/

section RoundTrips

variable {ops ops' : List SubOp} {cs : List (ℕ × Call)} {i : ℕ} {op : SubOp}

/-- What a run leaves of a sub-op. -/
theorem getElem?_calls (hrun : calls cs ops = some ops') (hop : ops[i]? = some op) :
    ops'[i]? = some ((cs.filter (·.1 = i)).foldl (fun op c => c.2.onOp op) op) := by
  rw [calls_eq] at hrun
  split_ifs at hrun
  rw [← Option.some.inj hrun, getElem?_foldl_modify Call.onOp, hop]
  rfl

theorem onOp_listSnaps (o : ObjSnaps) (op : SubOp) : (Call.listSnaps (some o)).onOp op =
    op.rewrite fun outdata =>
      if o.cloneInfoNum < 1 then outdata else outdata ++ (listSnapsResp o).bytes := by
  have hcall : call 0 (.listSnaps (some o)) [op] =
      onOps (onOutdata (some o) 0 fun o outdata =>
        if o.cloneInfoNum < 1 then outdata else outdata ++ (listSnapsResp o).bytes) [op] := rfl
  rw [Call.onOp, hcall, onOps_onOutdata]
  rfl

/-- An object with one clone. -/
def oneClone : ObjSnaps where
  seq := 0
  cloneInfoNum := 2
  cloneInfos := [⟨5, 64, 1, [5], 1, [(0, 32)], rfl, rfl⟩, ⟨9, 96, 0, [], 0, [], rfl, rfl⟩]
  cloneInfos_length := rfl

/-- A chunk that `EncodeRead` is handed. -/
structure Chunk where
  offset : UInt32
  len : UInt32
  buf : SaStr
  nonNull : buf.buf.isSome = true

def Chunk.call (opType : OpCode) (c : Chunk) : Call := .read opType c.offset c.len c.buf

/-- The data the client takes out of a reply to a read. The extents come first in a sparse one. -/
def clientRead (opType : OpCode) (outdata : Bytes) : Option Bytes :=
  if opType = .sparseRead then
    ((pair (many (pair (le 8) (le 8))) str).dec outdata).map fun p => p.1.2
  else some outdata

/-- What a chunk adds. -/
def Chunk.bytes (opType : OpCode) (c : Chunk) : Bytes :=
  if opType = .sparseRead then
    (pair (many (pair (le 8) (le 8))) str).enc ([(c.offset.toNat, c.len.toNat)], c.buf.view)
  else c.buf.view

theorem onOp_chunk (opType : OpCode) (c : Chunk) (op : SubOp) :
    (c.call opType).onOp op = op.rewrite (· ++ c.bytes opType) := by
  have hbuf : nonNull c.buf = some c.buf := by
    obtain ⟨bytes, hbytes⟩ := Option.isSome_iff_exists.mp c.nonNull
    rw [nonNull, hbytes, Option.map_some]
  have hcall : ReplyData.call 0 (c.call opType) [op] =
      onOps (onOutdata (nonNull c.buf) 0 fun buf outdata =>
        if opType = .sparseRead then
          outdata ++ (many (pair (le 8) (le 8))).enc [(c.offset.toNat, c.len.toNat)] ++
            str.enc buf.view
        else outdata ++ buf.view) [op] := rfl
  rw [Call.onOp, hcall, onOps_onOutdata, hbuf]
  simp only [SubOp.rewrite, Chunk.bytes]
  split_ifs
  · simp [pair]
  · rfl

theorem outdata_chunks (opType : OpCode) (chunks : List Chunk) (op : SubOp) :
    ((chunks.map (Chunk.call opType)).foldl (fun op c => c.onOp op) op).osdop.outdata =
      op.osdop.outdata ++ chunks.flatMap (Chunk.bytes opType) := by
  induction chunks generalizing op with
  | nil => simp
  | cons c chunks ih =>
    rw [List.map_cons, List.foldl_cons, ih, onOp_chunk, List.flatMap_cons, ← List.append_assoc]
    rfl

/-- The client stops behind the first data. -/
theorem clientRead_sparse (c : Chunk) (rest : Bytes) :
    clientRead .sparseRead (c.bytes .sparseRead ++ rest) = some c.buf.view := by
  have hok : (pair (many (pair (le 8) (le 8))) str).Ok
      ([(c.offset.toNat, c.len.toNat)], c.buf.view) := by
    refine ⟨⟨show 1 < 256 ^ 4 by norm_num, fun e he => ?_⟩, c.buf.fits⟩
    obtain rfl := List.mem_singleton.mp he
    exact ⟨toNat_lt_word c.offset, toNat_lt_word c.len⟩
  rw [clientRead, if_pos rfl, Chunk.bytes, if_pos rfl, Codec.dec_enc _ hok]
  rfl

def twoChunks : List Chunk := [⟨0, 1, oneByte 'a', rfl⟩, ⟨1, 1, oneByte 'b', rfl⟩]

end RoundTrips

end GcAdaptor.ReplyData
