/-
`MergeCopyup` (`server_adaptor/osa.cpp`): a copyup and the writes behind it in the same request
become one write.

The parent's data comes in a buffer of `length` bytes, each later `WRITE` is copied over it at
its offset, and what results is written to the object at offset 0. The meaning of that is
`byteAt`: at every position the last write over it, or the parent's byte.

Before each `memcpy` the code tests `length < objOffset + inDataLen` on 32-bit words, and the
sum wraps. A write that ends at `2^32` or just above it passes the test and is copied outside
the buffer. `mergeCopyup_merges_iff` is the exact condition: no such write comes before one
that is turned down.

`Copyup.lean` has the same function as a step of `OSA_ExecClass`; `mergeCopyup_eq` ties the two.
-/
import GcAdaptor.Copyup

set_option autoImplicit false

namespace GcAdaptor.MergeCopyup

open GcAdaptor.Wire GcAdaptor.MsgModule GcAdaptor.NetworkModule GcAdaptor.ClassApi GcAdaptor.Copyup

/-! ## The function, with what it does on the way -/

/-- `memcpy(copyUpData + off, src, src.length)` -/
structure Copy where
  off : ℕ
  src : Bytes

def Copy.stop (c : Copy) : ℕ := c.off + c.src.length

/-- `osdop.opSubType == CEPH_OSD_OP_WRITE && osdop.inDataLen != 0` -/
def isLaterWrite (osdop : OpRequestOps) : Bool := osdop.opSubType = .write && osdop.inDataLen ≠ 0

def copyOf (osdop : OpRequestOps) : Copy :=
  ⟨osdop.objOffset.toNat, osdop.inData.take osdop.inDataLen.toNat⟩

/-- The loop: the copies it makes, and whether it ran to its end. Where a copy goes does not
depend on what the earlier ones have written. -/
def mergeLoop (length : UInt32) : List OpRequestOps → List Copy × Bool
  | [] => ([], true)
  | osdop :: rest =>
    if isLaterWrite osdop then
      if length < osdop.objOffset + osdop.inDataLen then ([], false)
      else
        let (copies, done) := mergeLoop length rest
        (copyOf osdop :: copies, done)
    else mergeLoop length rest

/-- The buffer after a sequence of copies. -/
def applyCopies (copyUpData : Bytes) (copies : List Copy) : Bytes :=
  copies.foldl (fun data c => overwrite data c.off c.src) copyUpData

/-- What a run of `MergeCopyup` does: its copies, the requests it hands to `cbFunc`, and what it
returns. -/
structure MergeRun where
  copies : List Copy
  calls : List SaOpReq
  ret : ℤ

/-- The sub-ops behind the copyup. -/
def laterOps (pctx : SaOpContext) : List OpRequestOps := pctx.opReq.vecOps.drop (pctx.opId + 1)

def runMergeCopyup (pctx : SaOpContext) (length : UInt32) (copyUpData : Bytes) : MergeRun :=
  match mergeLoop length (laterOps pctx) with
  | (copies, false) => ⟨copies, [], -EINVAL⟩
  | (copies, true) =>
    let op := constructWriteOp pctx (applyCopies copyUpData copies) 0 length
    let opreq := { pctx.opReq with vecOps := [op] }
    let ret := (pctx.cbFunc opreq).1
    ⟨copies, [opreq], if ret = 0 then OSA_COPYUP_NEED_MERGE_WRITE else ret⟩

/-! ## Copies over a buffer -/

section Overlay

variable {data : Bytes} {copies : List Copy} {c : Copy} {p : ℕ}

def Copy.covers (c : Copy) (p : ℕ) : Bool := c.off ≤ p ∧ p < c.stop

/-- **The meaning of a merge**: the byte of the last copy over position `p`, or that of the
buffer. -/
def byteAt (data : Bytes) (copies : List Copy) (p : ℕ) : Option UInt8 :=
  match copies.reverse.find? (·.covers p) with
  | some c => c.src[p - c.off]?
  | none => data[p]?

theorem Copy.covers_iff : c.covers p = true ↔ c.off ≤ p ∧ p < c.off + c.src.length := by
  rw [Copy.covers, decide_eq_true_eq, Copy.stop]

theorem length_overwrite (h : c.stop ≤ data.length) :
    (overwrite data c.off c.src).length = data.length := by
  rw [Copy.stop] at h
  simp only [overwrite, List.length_append, List.length_take, List.length_drop]
  omega

theorem getElem?_overwrite (h : c.stop ≤ data.length) (p : ℕ) :
    (overwrite data c.off c.src)[p]? = if c.covers p then c.src[p - c.off]? else data[p]? := by
  rw [Copy.stop] at h
  have htake : (data.take c.off).length = c.off := by
    rw [List.length_take]
    omega
  have hboth : (data.take c.off ++ c.src).length = c.off + c.src.length := by
    rw [List.length_append, htake]
  rw [overwrite]
  rcases Nat.lt_or_ge p c.off with hlt | hge
  · have hnot : ¬ c.covers p = true := by
      rw [Copy.covers_iff]
      omega
    rw [if_neg hnot, List.getElem?_append_left (by omega), List.getElem?_append_left (by omega),
      List.getElem?_take_of_lt hlt]
  · rcases Nat.lt_or_ge p (c.off + c.src.length) with hin | hout
    · have hcov : c.covers p = true := Copy.covers_iff.mpr ⟨hge, hin⟩
      rw [if_pos hcov, List.getElem?_append_left (by omega), List.getElem?_append_right (by omega),
        htake]
    · have hnot : ¬ c.covers p = true := by
        rw [Copy.covers_iff]
        omega
      rw [if_neg hnot, List.getElem?_append_right (by omega), hboth, List.getElem?_drop]
      congr 1
      omega

theorem byteAt_append (data : Bytes) (copies : List Copy) (c : Copy) (p : ℕ) :
    byteAt data (copies ++ [c]) p =
      if c.covers p then c.src[p - c.off]? else byteAt data copies p := by
  rw [byteAt, List.reverse_append, List.reverse_singleton, List.singleton_append, List.find?_cons]
  cases c.covers p <;> rfl

/-- **The copies, one after the other, have that meaning** as long as they stay inside. -/
theorem applyCopies_spec (h : ∀ c ∈ copies, c.stop ≤ data.length) :
    (applyCopies data copies).length = data.length ∧
      ∀ p, (applyCopies data copies)[p]? = byteAt data copies p := by
  induction copies using List.reverseRecOn with
  | nil => exact ⟨rfl, fun p => rfl⟩
  | append_singleton copies c ih =>
    obtain ⟨hlen, hget⟩ := ih fun d hd => h d (by simp [hd])
    have hc : c.stop ≤ (applyCopies data copies).length := by
      rw [hlen]
      exact h c (by simp)
    have hlast : applyCopies data (copies ++ [c]) =
        overwrite (applyCopies data copies) c.off c.src := by
      simp [applyCopies]
    refine ⟨by rw [hlast, length_overwrite hc, hlen], ?_⟩
    intro p
    rw [hlast, getElem?_overwrite hc, byteAt_append, hget p]

end Overlay

/-! ## The bounds test -/

/-- Where a write ends, as a number. -/
def writeEnd (osdop : OpRequestOps) : ℕ := osdop.objOffset.toNat + osdop.inDataLen.toNat

/-- The end of the write wraps to a place inside the data. -/
def WrapsInside (length : ℕ) (osdop : OpRequestOps) : Prop :=
  2 ^ 32 ≤ writeEnd osdop ∧ writeEnd osdop ≤ 2 ^ 32 + length

/-- No write wraps inside before one that ends past the data has been met. -/
def WrapsNowhere (length : ℕ) (writes : List OpRequestOps) : Prop :=
  ∀ before osdop after, writes = before ++ osdop :: after →
    (∀ x ∈ before, writeEnd x ≤ length) → ¬ WrapsInside length osdop

section Loop

variable {length : UInt32} {osdop : OpRequestOps} {ops rest : List OpRequestOps}

theorem wrapsNowhere_cons {length : ℕ} :
    WrapsNowhere length (osdop :: rest) ↔
      ¬ WrapsInside length osdop ∧ (writeEnd osdop ≤ length → WrapsNowhere length rest) := by
  constructor
  · intro h
    refine ⟨h [] osdop rest rfl (by simp), ?_⟩
    intro hend before x after hrest hbefore
    refine h (osdop :: before) x after (by rw [hrest]; rfl) ?_
    intro y hy
    rcases List.mem_cons.mp hy with rfl | hy
    · exact hend
    · exact hbefore y hy
  · rintro ⟨hfirst, hrest⟩ before x after heq hbefore
    cases before with
    | nil =>
      obtain ⟨rfl, -⟩ := List.cons.inj heq
      exact hfirst
    | cons y before =>
      obtain ⟨rfl, htail⟩ := List.cons.inj heq
      refine hrest (hbefore _ (by simp)) before x after htail ?_
      intro z hz
      exact hbefore z (by simp [hz])

/-- The loop looks at the writes only. -/
theorem mergeLoop_filter (length : UInt32) (ops : List OpRequestOps) :
    mergeLoop length (ops.filter isLaterWrite) = mergeLoop length ops := by
  induction ops with
  | nil => rfl
  | cons osdop ops ih =>
    by_cases hw : isLaterWrite osdop = true
    · rw [List.filter_cons_of_pos hw, mergeLoop, mergeLoop, ih]
    · rw [List.filter_cons_of_neg hw, mergeLoop, if_neg hw, ih]

/-- The test, on numbers. -/
theorem test_iff (length : UInt32) (osdop : OpRequestOps) :
    length < osdop.objOffset + osdop.inDataLen ↔ length.toNat < writeEnd osdop % 2 ^ 32 := by
  rw [UInt32.lt_iff_toNat_lt, UInt32.toNat_add, writeEnd]

theorem mergeLoop_invalid (hw : isLaterWrite osdop = true)
    (ht : length.toNat < writeEnd osdop % 2 ^ 32) :
    mergeLoop length (osdop :: rest) = ([], false) := by
  rw [mergeLoop, if_pos hw, if_pos ((test_iff _ _).mpr ht)]

theorem mergeLoop_valid (hw : isLaterWrite osdop = true)
    (ht : ¬ length.toNat < writeEnd osdop % 2 ^ 32) :
    mergeLoop length (osdop :: rest) =
      (copyOf osdop :: (mergeLoop length rest).1, (mergeLoop length rest).2) := by
  rw [mergeLoop, if_pos hw, if_neg ((test_iff _ _).not.mpr ht)]

/-- A loop that ran to its end has copied every write. -/
theorem mergeLoop_done (hw : ∀ x ∈ ops, isLaterWrite x = true)
    (h : (mergeLoop length ops).2 = true) : (mergeLoop length ops).1 = ops.map copyOf := by
  induction ops with
  | nil => rfl
  | cons osdop rest ih =>
    have hfirst := hw osdop (by simp)
    by_cases ht : length.toNat < writeEnd osdop % 2 ^ 32
    · rw [mergeLoop_invalid hfirst ht] at h
      cases h
    · rw [mergeLoop_valid hfirst ht] at h ⊢
      rw [ih (fun x hx => hw x (by simp [hx])) h]
      rfl

/-- A write whose data is there ends where its words say. -/
theorem copyOf_stop (h : osdop.inDataLen.toNat ≤ osdop.inData.length) :
    (copyOf osdop).stop = writeEnd osdop := by
  rw [Copy.stop, copyOf, writeEnd, List.length_take, Nat.min_eq_left h]

/-- **The test keeps every copy inside exactly when** no write wraps before one is turned
down. -/
theorem mergeLoop_inside_iff (hw : ∀ x ∈ ops, isLaterWrite x = true)
    (hfull : ∀ x ∈ ops, x.inDataLen.toNat ≤ x.inData.length) :
    (∀ c ∈ (mergeLoop length ops).1, c.stop ≤ length.toNat) ↔ WrapsNowhere length.toNat ops := by
  have hlength := length.toNat_lt
  induction ops with
  | nil =>
    refine ⟨fun _ before x after h => ?_, fun _ c hc => by cases hc⟩
    simp at h
  | cons osdop rest ih =>
    have hfirst := hw osdop (by simp)
    have hoff := osdop.objOffset.toNat_lt
    have hlen := osdop.inDataLen.toNat_lt
    have hrest := ih (fun x hx => hw x (by simp [hx])) fun x hx => hfull x (by simp [hx])
    have hend : writeEnd osdop = osdop.objOffset.toNat + osdop.inDataLen.toNat := rfl
    rw [wrapsNowhere_cons, WrapsInside]
    by_cases ht : length.toNat < writeEnd osdop % 2 ^ 32
    · -- turned down: it ends past the data and does not wrap inside
      rw [mergeLoop_invalid hfirst ht]
      refine ⟨fun _ => ⟨by omega, fun hin => by omega⟩, fun _ c hc => by cases hc⟩
    · rw [mergeLoop_valid hfirst ht, List.forall_mem_cons, copyOf_stop (hfull osdop (by simp))]
      constructor
      · rintro ⟨hin, hcopies⟩
        exact ⟨by omega, fun _ => hrest.mp hcopies⟩
      · rintro ⟨hnot, htail⟩
        -- it passed the test without a wrap, so the test is the bound
        have hin : writeEnd osdop ≤ length.toNat := by omega
        exact ⟨hin, hrest.mpr (htail hin)⟩

end Loop

/-! ## The claim -/

/-- A call: a sub-op of the request, and data of at most 32-bit length. Every sub-op has the
bytes it says it has. -/
structure CopyupCall where
  pctx : SaOpContext
  copyUpData : Bytes
  fits : copyUpData.length < 2 ^ 32
  opId_lt : pctx.opId < pctx.opReq.vecOps.length
  full : ∀ o ∈ pctx.opReq.vecOps, o.inDataLen.toNat ≤ o.inData.length

namespace CopyupCall

variable (call : CopyupCall)

def run : MergeRun :=
  runMergeCopyup call.pctx (UInt32.ofNat call.copyUpData.length) call.copyUpData

/-- The writes behind the copyup, in order. -/
def writes : List OpRequestOps := (laterOps call.pctx).filter isLaterWrite

/-- The write `cbFunc` should be given: the same object from offset 0 on, the data of the copyup
with every later write over it. -/
structure IsMerged (op : OpRequestOps) : Prop where
  isWrite : op.opSubType = .write
  object : op.isRbd = (subOp call.pctx).isRbd ∧ op.rbdObjId = (subOp call.pctx).rbdObjId ∧
    op.objName = (subOp call.pctx).objName
  offset : op.objOffset = 0
  objLength : op.objLength.toNat = call.copyUpData.length
  dataLength : op.inDataLen.toNat = call.copyUpData.length
  length : op.inData.length = call.copyUpData.length
  data : ∀ p, op.inData[p]? = byteAt call.copyUpData (call.writes.map copyOf) p

/-- No copy leaves the buffer; and the call is turned down without a call of `cbFunc`, or makes
one, with the merged write. -/
structure Merges : Prop where
  inside : ∀ c ∈ call.run.copies, c.stop ≤ call.copyUpData.length
  outcome : (call.run.ret = -EINVAL ∧ call.run.calls = []) ∨
    ∃ op, call.run.calls = [{ call.pctx.opReq with vecOps := [op] }] ∧ call.IsMerged op

theorem length_toNat : (UInt32.ofNat call.copyUpData.length).toNat = call.copyUpData.length := by
  rw [UInt32.toNat_ofNat', Nat.mod_eq_of_lt call.fits]

theorem writes_isLaterWrite : ∀ x ∈ call.writes, isLaterWrite x = true :=
  fun _ hx => (List.mem_filter.mp hx).2

theorem writes_full : ∀ x ∈ call.writes, x.inDataLen.toNat ≤ x.inData.length :=
  fun x hx => call.full x (List.mem_of_mem_drop (List.mem_filter.mp hx).1)

theorem run_copies : call.run.copies =
    (mergeLoop (UInt32.ofNat call.copyUpData.length) call.writes).1 := by
  rw [run, runMergeCopyup, writes, mergeLoop_filter]
  split <;> rename_i heq <;> rw [heq]

/-- A loop that stayed inside and ran to its end has built the merged write. -/
theorem isMerged_of_done {copies : List Copy}
    (hdone : mergeLoop (UInt32.ofNat call.copyUpData.length) (laterOps call.pctx) = (copies, true))
    (hinside : ∀ c ∈ copies, c.stop ≤ call.copyUpData.length) :
    call.IsMerged (constructWriteOp call.pctx (applyCopies call.copyUpData copies) 0
      (UInt32.ofNat call.copyUpData.length)) := by
  have hcopies : copies = call.writes.map copyOf := by
    rw [← mergeLoop_filter] at hdone
    have := mergeLoop_done call.writes_isLaterWrite (by rw [writes, hdone])
    rw [writes, hdone] at this
    exact this
  obtain ⟨hlen, hget⟩ := applyCopies_spec hinside
  constructor
  · rfl
  · exact ⟨rfl, rfl, rfl⟩
  · rfl
  · exact call.length_toNat
  · exact call.length_toNat
  · exact hlen
  · intro p
    rw [← hcopies]
    exact hget p

/-- **When a merge is right**: exactly when no write wraps inside the data before one that ends
past it has been met. -/
theorem mergeCopyup_merges_iff (call : CopyupCall) :
    call.Merges ↔ WrapsNowhere call.copyUpData.length call.writes := by
  have hiff := @mergeLoop_inside_iff (UInt32.ofNat call.copyUpData.length) _
    call.writes_isLaterWrite call.writes_full
  rw [call.length_toNat, ← run_copies] at hiff
  rw [← hiff]
  constructor
  · intro h
    exact h.inside
  · intro hinside
    refine ⟨hinside, ?_⟩
    rw [run, runMergeCopyup] at hinside ⊢
    split at hinside <;> rename_i copies heq
    · exact .inl ⟨rfl, rfl⟩
    · exact .inr ⟨_, rfl, call.isMerged_of_done heq hinside⟩

end CopyupCall

/-! ## As a step of `OSA_ExecClass` -/

/-- The loop of `Copyup.lean`, which stops at the first copy outside, and this one. -/
theorem mergeWrites_eq {length : UInt32} {ops : List OpRequestOps} {data : Bytes}
    (hfull : ∀ x ∈ ops, x.inDataLen.toNat ≤ x.inData.length)
    (hinside : ∀ c ∈ (mergeLoop length ops).1, c.stop ≤ length.toNat) :
    mergeWrites length ops data =
      if (mergeLoop length ops).2 then .merged (applyCopies data (mergeLoop length ops).1)
      else .invalid := by
  induction ops generalizing data with
  | nil => rfl
  | cons osdop rest ih =>
    have hrest : ∀ x ∈ rest, x.inDataLen.toNat ≤ x.inData.length :=
      fun x hx => hfull x (by simp [hx])
    have hwrite : isLaterWrite osdop = true ↔
        osdop.opSubType = .write ∧ osdop.inDataLen ≠ 0 := by
      simp [isLaterWrite]
    by_cases hw : isLaterWrite osdop = true
    · rw [mergeWrites, if_pos (hwrite.mp hw)]
      by_cases ht : length.toNat < writeEnd osdop % 2 ^ 32
      · rw [if_pos ((test_iff _ _).mpr ht), mergeLoop_invalid hw ht]
        rfl
      · -- the copy is inside by hypothesis, so the other loop does not stop at it
        rw [mergeLoop_valid hw ht] at hinside ⊢
        rw [List.forall_mem_cons, copyOf_stop (hfull osdop (by simp))] at hinside
        have hin : ¬ length.toNat < osdop.objOffset.toNat + osdop.inDataLen.toNat :=
          not_lt.mpr hinside.1
        rw [if_neg ((test_iff _ _).not.mpr ht), if_neg hin, ih hrest hinside.2]
        rfl
    · have hskip : mergeLoop length (osdop :: rest) = mergeLoop length rest := by
        rw [mergeLoop, if_neg hw]
      rw [hskip] at hinside ⊢
      rw [mergeWrites, if_neg (hwrite.not.mp hw), ih hrest hinside]

/-- Where every copy stays inside, the step of `OSA_ExecClass` is this run. -/
theorem mergeCopyup_eq (call : CopyupCall) (h : call.Merges) :
    mergeCopyup call.pctx (UInt32.ofNat call.copyUpData.length) call.copyUpData =
      some call.run.ret := by
  have hinside : ∀ c ∈ (mergeLoop (UInt32.ofNat call.copyUpData.length) (laterOps call.pctx)).1,
      c.stop ≤ (UInt32.ofNat call.copyUpData.length).toNat := by
    intro c hc
    rw [call.length_toNat]
    apply h.inside c
    rw [call.run_copies, CopyupCall.writes, mergeLoop_filter]
    exact hc
  have hmerge := @mergeWrites_eq _ _ call.copyUpData
    (fun x hx => call.full x (List.mem_of_mem_drop hx)) hinside
  rw [mergeCopyup, hmerge, CopyupCall.run, runMergeCopyup, laterOps]
  -- the two agree on how the loop ended
  obtain ⟨copies, done⟩ := mergeLoop (UInt32.ofNat call.copyUpData.length)
    (call.pctx.opReq.vecOps.drop (call.pctx.opId + 1))
  cases done <;> rfl

/-- A copyup call and a write of one byte behind it. -/
def oneWriteCall (objOffset : UInt32) (copyUpData : Bytes) (fits : copyUpData.length < 2 ^ 32) :
    CopyupCall where
  pctx :=
    { opReq :=
        { ptrMosdop := { name := [], ops := [] }
          vecOps :=
            [{ opSubType := .call },
              { opSubType := .write, objOffset := objOffset, inData := [7], inDataLen := 1 }] }
      opId := 0
      cbFunc := fun _ => (0, []) }
  copyUpData := copyUpData
  fits := fits
  opId_lt := by simp
  full := by simp

example : ((oneWriteCall 1 [1, 2, 3] (by decide)).run.calls.map fun r => r.vecOps.map (·.inData)) =
    [[[1, 7, 3]]] := by
  decide

/-- At offset `2^32 - 1` the end of the write wraps to 0, the test passes, and the byte is copied
four gigabytes behind the buffer. -/
theorem mergeCopyup_copies_outside :
    ¬ (oneWriteCall 0xFFFFFFFF [1, 2, 3] (by decide)).Merges ∧
      (oneWriteCall 0xFFFFFFFF [1, 2, 3] (by decide)).run.copies.map Copy.stop = [2 ^ 32] := by
  refine ⟨?_, by decide⟩
  intro h
  exact absurd h.inside (by decide)

end GcAdaptor.MergeCopyup
