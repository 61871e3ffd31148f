/-
`NetworkModule::ProcessOpReq` and the per-request body of `OpHandlerThread`
(`server_adaptor/network_module.cpp`).

A worker takes a request from its deal queue, parses the object name, converts
every sub-op and either hands the result to the cache core (`sa->DoOneOps`) or
answers the client itself (`FinishCacheOps`). What a body does to the outside
is the list of its `Effect`s in order. The admission calls (`Get*Cas`) and the
releases inside `FinishCacheOps` (`Put*Cas`) are effects too: `admission` and
`release` list them, and `Throttle.lean` runs those lists step by step.

There are four ways out, and only two of them answer: an `rbd_data` name with
fewer than three sections is replied to with `-EINVAL` and a converted request
is handed over, but an oversized data-pool id returns `-1` with no reply, and a
payload that ends early throws through the thread's top frame.
`opHandlerBody_endsInOneAnswer_iff` says exactly which requests take the first
two.
-/
import GcAdaptor.MsgModule

set_option autoImplicit false

namespace GcAdaptor.NetworkModule

open GcAdaptor.Wire GcAdaptor.Cxx GcAdaptor.MsgModule

/-! ## Requests -/

/-- `MOSDOp`, as far as the server reads it. -/
structure MOSDOp where
  name : Bytes
  ops : List OSDOp
  tid : ℤ := 0
  snapid : UInt64 := 0
  pool : Int64 := 0
  seq : UInt64 := 0
  seed : UInt32 := 0
  snapSeq : UInt64 := 0
  snaps : List UInt64 := []

/-- `GCACHE_DEFAULT`, `GCACHE_WRITE` and `GCACHE_READ`. -/
inductive GcacheType
  | default | write | read
  deriving DecidableEq, Repr

/-- `SaOpReq`. `ptrMosdop` is the request it was made from, `copyupFlag` whether
the worker's flag was attached. -/
structure SaOpReq where
  ptrMosdop : MOSDOp
  vecOps : List OpRequestOps := []
  optionType : GcacheType := .default
  optionLength : UInt64 := 0
  snapId : UInt64 := 0
  tid : ℤ := 0
  opsSequence : UInt64 := 0
  ptId : UInt32 := 0
  poolId : UInt64 := 0
  snapSeq : UInt64 := 0
  snaps : List UInt64 := []
  exitsCopyUp : Bool := false
  copyupFlag : Bool := false
  ptVersion : UInt64 := 0

/-- The six admission counters of `NetworkModule`. -/
inductive Counter
  | lwtCount | lwtWriteCount | lwtReadCount | writeIops | writeBW | readBW
  deriving DecidableEq, Repr

/-- One call of a `Get*Cas` or `Put*Cas` function: its counter and its amount. -/
structure Charge where
  counter : Counter
  amount : ℕ
  deriving DecidableEq, Repr

/-- What a worker does for a request that others can see. -/
inductive Effect
  | sendReply (r : ℤ)
  | get (c : Charge)
  | put (c : Charge)
  | waitCopyup
  | doOneOps (opreq : SaOpReq)

def EINVAL : ℤ := 22

/-! ## Admission and release -/

/-- The admission calls of `OpHandlerThread`, in order. -/
def admission (optionType : GcacheType) (optionLength : UInt64) : List Charge :=
  ⟨.lwtCount, 1⟩ ::
    match optionType with
    | .write => [⟨.lwtWriteCount, 1⟩, ⟨.writeIops, 1⟩, ⟨.writeBW, optionLength.toNat⟩]
    | .read => [⟨.lwtReadCount, 1⟩, ⟨.readBW, optionLength.toNat⟩]
    | .default => []

/-- The releases of `FinishCacheOps`, in order. -/
def release (optionType : GcacheType) (optionLength : UInt64) : List Charge :=
  (match optionType with
    | .write => [⟨.writeBW, optionLength.toNat⟩, ⟨.writeIops, 1⟩, ⟨.lwtWriteCount, 1⟩]
    | .read => [⟨.readBW, optionLength.toNat⟩, ⟨.lwtReadCount, 1⟩]
    | .default => []) ++ [⟨.lwtCount, 1⟩]

/-- `FinishCacheOps`: one reply, then the releases. -/
def finishCacheOps (optionType : GcacheType) (optionLength : UInt64) (r : ℤ) : List Effect :=
  .sendReply r :: (release optionType optionLength).map .put

/-! ## The object name -/

/-- The sections of the object name: the `strtok_r` loop over its C string. -/
def vecObj (op : MOSDOp) : List Bytes := strtok 46 (cStr op.name)

/-- The name claims to be an RBD data object. -/
def isRbdName (op : MOSDOp) : Bool :=
  (vecObj op).head? = some (ascii ['r','b','d','_','d','a','t','a'])

/-- An `rbd_data` name with too few sections. -/
def badRbdName (op : MOSDOp) : Bool := isRbdName op && (vecObj op).length < 3

/-- Section `i` from the end. -/
def fromEnd (sections : List Bytes) (i : ℕ) : Bytes := sections.reverse.getD (i - 1) []

/-- The data-pool id a name with more than three sections carries. -/
def dataPoolId (op : MOSDOp) : ℕ := strtoul 10 (fromEnd (vecObj op) 3)

/-- The data-pool id does not fit 32 bits. -/
def poolIdOverflow (op : MOSDOp) : Bool :=
  isRbdName op && 3 < (vecObj op).length && 2 ^ 32 ≤ dataPoolId op

def SA_VERSION : UInt8 := 1
def FORMAT_UNSPECIFY_MD_DATE_POOL : UInt8 := 0
def FORMAT_SPECIFY_MD_DATE_POOL : UInt8 := 1

/-- The object id of an RBD name; `none` where the pool id overflows. -/
def rbdObjId (op : MOSDOp) : Option RbdObjid :=
  let imageId := ascii ['1'] ++ fromEnd (vecObj op) 2
  let id : RbdObjid :=
    { head := UInt64.ofNat (strtoul 16 imageId)
      seq := BitVec.ofNat 40 (strtoul 16 (fromEnd (vecObj op) 1))
      version := SA_VERSION
      format := FORMAT_UNSPECIFY_MD_DATE_POOL }
  if 3 < (vecObj op).length then
    if 2 ^ 32 ≤ dataPoolId op then none
    else some { id with
      poolId := UInt32.ofNat (dataPoolId op)
      format := FORMAT_SPECIFY_MD_DATE_POOL }
  else some id

/-! ## `ProcessOpReq` -/

/-- The four ways out of `ProcessOpReq`. -/
inductive ProcessResult
  | accepted (opreq : SaOpReq)
  | rejected (ret : ℤ) (sent : List Effect)
  | threw

/-- What the sub-op loop carries. -/
structure LoopState where
  vecOps : List OpRequestOps := []
  exitsCopyUp : Bool := false
  optionType : OptionsType := {}
  optionLength : OptionsLength := {}

/-- How the sub-op loop ends. -/
inductive LoopResult
  | finished (st : LoopState)
  | overflow
  | threw

/-- The sub-op before its conversion; `none` where the pool id overflows. -/
def freshOp (op : MOSDOp) : Option OpRequestOps :=
  let oneOp : OpRequestOps := { objName := cStr op.name }
  if isRbdName op then
    (rbdObjId op).map fun id => { oneOp with isRbd := true, rbdObjId := id }
  else some oneOp

/-- The loop over `op->ops`. -/
def convertOps (readStatFlag : Bool) (op : MOSDOp) : List OSDOp → LoopState → LoopResult
  | [], st => .finished st
  | clientop :: rest, st =>
    match freshOp op with
    -- looked at inside the loop: a request without sub-ops never gets here
    | none => .overflow
    | some oneOp =>
      match convertClientopToOpreq readStatFlag clientop oneOp st.optionType st.optionLength with
      | .error _ => .threw
      | .ok c =>
        convertOps readStatFlag op rest
          { vecOps := st.vecOps ++ [c.oneOp]
            exitsCopyUp := st.exitsCopyUp || c.existsCopyUp
            optionType := c.optionType
            optionLength := c.optionLength }

def processOpReq (readStatFlag : Bool) (op : MOSDOp) : ProcessResult :=
  let opreq : SaOpReq :=
    { ptrMosdop := op
      tid := op.tid
      snapId := op.snapid
      poolId := op.pool.toUInt64 &&& 0xFFFFFFFF
      ptVersion := (op.pool >>> 32).toUInt64
      opsSequence := op.seq
      ptId := op.seed
      snapSeq := op.snapSeq
      snaps := op.snaps }
  if badRbdName op then
    -- releases `lwtCount`, which this request has not charged yet
    .rejected 1 (finishCacheOps opreq.optionType opreq.optionLength (-EINVAL))
  else
    match convertOps readStatFlag op op.ops {} with
    -- `return -1` without `FinishCacheOps`
    | .overflow => .rejected (-1) []
    | .threw => .threw
    | .finished st =>
      let opreq := { opreq with vecOps := st.vecOps, exitsCopyUp := st.exitsCopyUp }
      .accepted <|
        -- one write among the sub-ops makes the request a write
        if st.optionType.write = 0 then
          { opreq with optionType := .read, optionLength := st.optionLength.read }
        else
          { opreq with optionType := .write, optionLength := st.optionLength.write }

/-- **One round of the loop that finishes.** -/
theorem convertOps_cons_finished {readStatFlag : Bool} {op : MOSDOp} {clientop : OSDOp}
    {ops : List OSDOp} {st st' : LoopState}
    (h : convertOps readStatFlag op (clientop :: ops) st = .finished st') :
    ∃ oneOp c, freshOp op = some oneOp ∧
      convertClientopToOpreq readStatFlag clientop oneOp st.optionType st.optionLength = .ok c ∧
      convertOps readStatFlag op ops
        { vecOps := st.vecOps ++ [c.oneOp]
          exitsCopyUp := st.exitsCopyUp || c.existsCopyUp
          optionType := c.optionType
          optionLength := c.optionLength } = .finished st' := by
  rw [convertOps] at h
  cases hfresh : freshOp op with
  | none => simp [hfresh] at h
  | some oneOp =>
    simp only [hfresh] at h
    cases hc : convertClientopToOpreq readStatFlag clientop oneOp st.optionType
        st.optionLength with
    | error e => simp [hc] at h
    | ok c =>
      simp only [hc] at h
      exact ⟨oneOp, c, rfl, hc, h⟩

/-- An accepted request has a good name, and holds what the loop made of its sub-ops. -/
theorem processOpReq_accepted {readStatFlag : Bool} {op : MOSDOp} {opreq : SaOpReq}
    (h : processOpReq readStatFlag op = .accepted opreq) :
    badRbdName op = false ∧ ∃ st, convertOps readStatFlag op op.ops {} = .finished st ∧
      opreq.ptrMosdop = op ∧ opreq.vecOps = st.vecOps ∧
      opreq.exitsCopyUp = st.exitsCopyUp := by
  unfold processOpReq at h
  cases hbad : badRbdName op with
  | true => simp [hbad] at h
  | false =>
    simp only [hbad, Bool.false_eq_true, if_false] at h
    cases hc : convertOps readStatFlag op op.ops {} with
    | overflow => simp [hc] at h
    | threw => simp [hc] at h
    | finished st =>
      simp only [hc, ProcessResult.accepted.injEq] at h
      subst h
      refine ⟨rfl, st, rfl, ?_⟩
      -- the two kinds of request differ in what they are charged, not in these three
      split_ifs <;> exact ⟨rfl, rfl, rfl⟩

/-- A rejected request was answered because of its name, or dropped without a word. -/
theorem processOpReq_rejected {readStatFlag : Bool} {op : MOSDOp} {ret : ℤ} {sent : List Effect}
    (h : processOpReq readStatFlag op = .rejected ret sent) :
    (badRbdName op = true ∧ sent = finishCacheOps .default 0 (-EINVAL)) ∨
      (convertOps readStatFlag op op.ops {} = .overflow ∧ sent = []) := by
  unfold processOpReq at h
  by_cases hbad : badRbdName op = true
  · simp only [hbad, if_true, ProcessResult.rejected.injEq] at h
    exact .inl ⟨hbad, h.2.symm⟩
  · simp only [hbad, Bool.false_eq_true, if_false] at h
    cases hc : convertOps readStatFlag op op.ops {} with
    | overflow =>
      simp only [hc, ProcessResult.rejected.injEq] at h
      exact .inr ⟨rfl, h.2.symm⟩
    | threw => simp [hc] at h
    | finished st => simp [hc] at h

/-! ## The body of `OpHandlerThread` -/

/-- One pass of the deal loop: its effects, and whether the thread is alive
after it. An exception no frame catches ends the process. -/
structure Pass where
  effects : List Effect
  survives : Bool

def opHandlerBody (readStatFlag : Bool) (op : MOSDOp) : Pass :=
  match processOpReq readStatFlag op with
  | .threw => ⟨[], false⟩
  | .rejected _ sent => ⟨sent, true⟩
  | .accepted opreq =>
    let opreq := { opreq with copyupFlag := opreq.exitsCopyUp }
    ⟨(admission opreq.optionType opreq.optionLength).map .get ++ [.waitCopyup, .doOneOps opreq],
      true⟩

/-! ## How often a pass answers -/

def Effect.isReply : Effect → Bool
  | .sendReply _ => true
  | _ => false

def Effect.isHandOver : Effect → Bool
  | .doOneOps _ => true
  | _ => false

/-- The pass handed the request over once and sent nothing, or sent one reply
and kept the request; and the worker lives on. -/
def Pass.EndsInOneAnswer (p : Pass) : Prop :=
  ((p.effects.countP Effect.isHandOver = 1 ∧ p.effects.countP Effect.isReply = 0) ∨
    (p.effects.countP Effect.isHandOver = 0 ∧ p.effects.countP Effect.isReply = 1)) ∧
  p.survives = true

instance (p : Pass) : Decidable p.EndsInOneAnswer := by
  unfold Pass.EndsInOneAnswer
  infer_instance

theorem countP_map_get (cs : List Charge) :
    (cs.map Effect.get).countP Effect.isHandOver = 0 ∧
      (cs.map Effect.get).countP Effect.isReply = 0 := by
  simp [List.countP_eq_zero, Effect.isHandOver, Effect.isReply]

theorem countP_finishCacheOps (optionType : GcacheType) (optionLength : UInt64) (r : ℤ) :
    (finishCacheOps optionType optionLength r).countP Effect.isHandOver = 0 ∧
      (finishCacheOps optionType optionLength r).countP Effect.isReply = 1 := by
  simp [finishCacheOps, List.countP_cons, List.countP_eq_zero, Effect.isHandOver, Effect.isReply]

theorem freshOp_eq_none_iff (op : MOSDOp) : freshOp op = none ↔ poolIdOverflow op = true := by
  unfold freshOp poolIdOverflow rbdObjId
  cases isRbdName op with
  | false => simp
  | true =>
    by_cases hlen : 3 < (vecObj op).length
    · simp [hlen]
    · simp [hlen]

/-- **The sub-op loop.** It finishes exactly when it is empty or the pool id fits,
and every payload is complete. -/
theorem convertOps_finished_iff (readStatFlag : Bool) (op : MOSDOp) (ops : List OSDOp)
    (st : LoopState) :
    (∃ st', convertOps readStatFlag op ops st = .finished st') ↔
      (ops = [] ∨ poolIdOverflow op = false) ∧ ∀ o ∈ ops, Decodable o := by
  induction ops generalizing st with
  | nil => simp [convertOps]
  | cons o ops ih =>
    rw [convertOps]
    cases hf : freshOp op with
    | none =>
      -- the first sub-op already finds the pool id too large
      have := (freshOp_eq_none_iff op).mp hf
      simp [this]
    | some oneOp =>
      have hpool : poolIdOverflow op = false := by
        rw [← Bool.not_eq_true, ← freshOp_eq_none_iff, hf]
        simp
      have hok := convertClientopToOpreq_isOk_iff readStatFlag o oneOp st.optionType
        st.optionLength
      cases hc : convertClientopToOpreq readStatFlag o oneOp st.optionType st.optionLength with
      | error e =>
        rw [hc] at hok
        have hno : ¬ Decodable o := by
          rw [← hok]
          simp [Except.isOk, Except.toBool]
        simp [hc, hno]
      | ok c =>
        rw [hc] at hok
        have hyes : Decodable o := hok.mp rfl
        simp only [hc, ih, hpool, List.forall_mem_cons, hyes, true_and, or_true]

theorem not_endsInOneAnswer_nil (b : Bool) : ¬ Pass.EndsInOneAnswer ⟨[], b⟩ := by
  simp [Pass.EndsInOneAnswer]

/-- **Every request gets one answer exactly when** its name is rejected up front,
or its data-pool id fits (where there is a sub-op to look at it) and every
sub-op's payload is complete. -/
theorem opHandlerBody_endsInOneAnswer_iff (readStatFlag : Bool) (op : MOSDOp) :
    (opHandlerBody readStatFlag op).EndsInOneAnswer ↔
      badRbdName op = true ∨
        ((op.ops = [] ∨ poolIdOverflow op = false) ∧ ∀ o ∈ op.ops, Decodable o) := by
  rw [← convertOps_finished_iff readStatFlag op op.ops {}]
  unfold opHandlerBody processOpReq
  by_cases hbad : badRbdName op = true
  · simp [hbad, Pass.EndsInOneAnswer, countP_finishCacheOps]
  · simp only [hbad, Bool.false_eq_true, if_false, false_or]
    cases hc : convertOps readStatFlag op op.ops {} with
    | overflow => simp [not_endsInOneAnswer_nil]
    | threw => simp [not_endsInOneAnswer_nil]
    | finished st =>
      -- admission calls, the wait, one hand-over
      simp only [LoopResult.finished.injEq, exists_eq', iff_true]
      refine ⟨.inl ⟨?_, ?_⟩, rfl⟩
      · rw [List.countP_append, (countP_map_get _).1]
        rfl
      · rw [List.countP_append, (countP_map_get _).2]
        rfl

/-- `rbd_data.4294967296.10.0` with one read: the pool id is `2^32`. -/
def oversizedPoolOp : MOSDOp :=
  { name := ascii ['r','b','d','_','d','a','t','a','.','4','2','9','4','9','6','7','2','9','6','.',
      '1','0','.','0']
    ops := [{ op := { op := .read } }] }

/-- A `GETXATTR` that announces a one-byte name and carries none. -/
def truncatedXattrOp : MOSDOp :=
  { name := ascii ['o'], ops := [{ op := { op := .getxattr, nameLen := 1 } }] }

/-- The first is dropped without a reply, the second takes the worker down. -/
theorem opHandlerBody_unanswered :
    ¬ (opHandlerBody false oversizedPoolOp).EndsInOneAnswer ∧
      (opHandlerBody false oversizedPoolOp).effects.length = 0 ∧
      ¬ (opHandlerBody false truncatedXattrOp).EndsInOneAnswer ∧
      (opHandlerBody false truncatedXattrOp).survives = false := by
  decide

end GcAdaptor.NetworkModule
