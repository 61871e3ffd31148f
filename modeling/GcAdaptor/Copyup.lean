/-
The copyup barrier.

A copyup writes the parent's data into a clone's object and must not be overtaken by the
write that follows it: the comment in `OSA_ExecClass` says that the data becomes inconsistent
otherwise. So a handler keeps a flag of its own. `ProcessOpReq` marks a request in which
`ConvertClientopToOpreq` finds an `rbd.copyup` call, the handler raises the flag when it hands
such a request to the cache core, spins on it before the next hand-over, and `OSA_ExecClass`
(`server_adaptor/osa.cpp`), which the core runs on the call, lowers it.

The two ends read the call differently. The conversion looks at the two names and swallows a
read past the end; `OSA_ExecClass` also reads `indata_len` bytes and returns at such a read,
with the flag still up. And the flag is one bit: of two copyups in a request, the first one
executed lowers it.

`Clean` excludes both, and then the barrier holds in every run: `copyup_barrier`.
-/
import GcAdaptor.ClassApi
import GcAdaptor.Interleave

set_option autoImplicit false

namespace GcAdaptor.Copyup

open GcAdaptor.Wire GcAdaptor.Cxx GcAdaptor.MsgModule GcAdaptor.NetworkModule GcAdaptor.ClassApi
open GcAdaptor.Interleave
open GcAdaptor.Wire.Codec (le copy)

def EOPNOTSUPP : ℤ := 95
def OSA_COPYUP_NEED_MERGE_WRITE : ℤ := 10

def rbdName : Bytes := ascii ['r','b','d']
def copyupName : Bytes := ascii ['c','o','p','y','u','p']
def rpcName : Bytes := ascii ['r','p','c']
def dasPrefetchName : Bytes := ascii ['d','a','s','_','p','r','e','f','e','t','c','h']

/-! ## `OSA_ExecClass` -/

/-- `pOpReq->vecOps[pctx->opId]` -/
def subOp (pctx : SaOpContext) : OpRequestOps := pctx.opReq.vecOps.getD pctx.opId {}

/-- `cls_cxx_stat2` with null pointers for the answer. `reserve` is the one part of the object
id that is not copied. -/
def clsCxxStat2 (pctx : SaOpContext) : ℤ :=
  (clsDecode pctx
    { opSubType := .stat
      isRbd := (subOp pctx).isRbd
      rbdObjId := { (subOp pctx).rbdObjId with reserve := 0 }
      objName := (subOp pctx).objName
      opFlags := 1 }
    decodeStat fun _ => 0).1

/-- `ConstructWriteOp` -/
def constructWriteOp (pctx : SaOpContext) (data : Bytes) (off length : UInt32) : OpRequestOps :=
  { opSubType := .write
    isRbd := (subOp pctx).isRbd
    rbdObjId := (subOp pctx).rbdObjId
    objName := (subOp pctx).objName
    objOffset := off
    objLength := length
    inData := data
    inDataLen := length }

/-- `memcpy(dst + off, src, src.length)` -/
def overwrite (dst : Bytes) (off : ℕ) (src : Bytes) : Bytes :=
  dst.take off ++ src ++ dst.drop (off + src.length)

/-- How the merge loop ends. -/
inductive Merge
  | invalid
  /-- `memcpy` ran past the end of the copyup data -/
  | overrun
  | merged (copyUpData : Bytes)

/-- The loop of `MergeCopyup` over the sub-ops behind the copyup. -/
def mergeWrites (length : UInt32) : List OpRequestOps → Bytes → Merge
  | [], copyUpData => .merged copyUpData
  | osdop :: rest, copyUpData =>
    if osdop.opSubType = .write ∧ osdop.inDataLen ≠ 0 then
      if length < osdop.objOffset + osdop.inDataLen then .invalid
      -- the sum above wraps at 32 bits
      else if length.toNat < osdop.objOffset.toNat + osdop.inDataLen.toNat then .overrun
      else mergeWrites length rest
        (overwrite copyUpData osdop.objOffset.toNat (osdop.inData.take osdop.inDataLen.toNat))
    else mergeWrites length rest copyUpData

/-- `MergeCopyup`; `none` where it has no defined behaviour. -/
def mergeCopyup (pctx : SaOpContext) (length : UInt32) (copyUpData : Bytes) : Option ℤ :=
  match mergeWrites length (pctx.opReq.vecOps.drop (pctx.opId + 1)) copyUpData with
  | .invalid => some (-EINVAL)
  | .overrun => none
  | .merged copyUpData =>
    let op := constructWriteOp pctx copyUpData 0 length
    let ret := (pctx.cbFunc { pctx.opReq with vecOps := [op] }).1
    some (if ret = 0 then OSA_COPYUP_NEED_MERGE_WRITE else ret)

/-- `WriteSaRocache` -/
def writeSaRocache (pctx : SaOpContext) : ℤ :=
  let op : OpRequestOps :=
    { opSubType := .other 0x5000
      isRbd := (subOp pctx).isRbd
      rbdObjId := { (subOp pctx).rbdObjId with reserve := 0 }
      objName := pctx.opReq.ptrMosdop.name }
  (pctx.cbFunc { pctx.opReq with vecOps := [op] }).1

/-- The class name, the method name and the input of a call; `none` where a read throws. -/
def callArgs (clientop : OSDOp) : Option (Bytes × Bytes × Bytes) := do
  let (cname, bp) ← copy clientop.op.classLen.toNat clientop.indata.data
  let (mname, bp) ← copy clientop.op.methodLen.toNat bp
  let (indata, _) ← copy clientop.op.indataLen.toNat bp
  some (cname, mname, indata)

/-- How a run of `OSA_ExecClass` ends: with its result and the value of `*copyupFlag`, by an
exception, or in a write outside every object. -/
inductive Outcome
  | returned (ret copyupFlag : ℤ)
  | threw
  | undefined

/-- What the cache core and the class plug-ins bring to a run. -/
structure Core where
  cbFunc : SaOpReq → ℤ × List OSDOp
  prefetch : Option (SaOpReq → OpRequestOps → ℤ) := none
  /-- `open_class` and `get_method`; `none` where one of them fails -/
  getMethod : Bytes → Bytes → Option (SaOpContext → Bytes → ℤ) := fun _ _ => none

/-- `decode(offset, bp); decode(len, bp)`, with nothing that catches. -/
def decodePrefetch (indata : Bytes) : Option (ℕ × ℕ) := do
  let (offset, bp) ← (le 8).dec indata
  let (len, _) ← (le 8).dec bp
  some (offset, len)

/-- The work of the branch for `rbd.copyup`. The object is there: nothing to do; else the data
is merged with the writes behind it, or the read-only cache is written. -/
def doCopyup (pctx : SaOpContext) (indata : Bytes) : Option ℤ :=
  if clsCxxStat2 pctx = 0 then some 0
  else if indata ≠ [] then mergeCopyup pctx (UInt32.ofNat indata.length) indata
  else some (writeSaRocache pctx)

/-- The branch for `rbd.copyup`: the work, then `*pOpReq->copyupFlag = 0` through a pointer that
is null where no flag was attached. -/
def execCopyup (pctx : SaOpContext) (indata : Bytes) : Outcome :=
  match doCopyup pctx indata with
  | none => .undefined
  | some ret => if pctx.opReq.copyupFlag then .returned ret 0 else .undefined

/-- `OSA_ExecClass` on sub-op `i` of `opreq`. The value of the flag is the one at the end. -/
def osaExecClass (core : Core) (opreq : SaOpReq) (i : ℕ) (copyupFlag : ℤ) : Outcome :=
  let pctx : SaOpContext := ⟨opreq, i, core.cbFunc⟩
  match opreq.ptrMosdop.ops[i]? with
  | none => .undefined
  | some clientop =>
    match callArgs clientop with
    | none => .returned (-EINVAL) copyupFlag
    | some (cname, mname, indata) =>
      if cname = rpcName ∧ mname = dasPrefetchName then
        match core.prefetch with
        | none => .returned (-EINVAL) copyupFlag
        | some prefetch =>
          match decodePrefetch indata with
          | none => .threw
          | some (offset, len) =>
            let osdop := { subOp pctx with
              objOffset := UInt32.ofNat offset
              objLength := UInt32.ofNat len }
            .returned (prefetch { opreq with vecOps := opreq.vecOps.set i osdop } osdop) copyupFlag
      else if cname = rbdName ∧ mname = copyupName then execCopyup pctx indata
      -- the white list of `CheckClassList`
      else if cname ≠ ascii ['r','g','w'] ∧ cname ≠ ascii ['l','o','c','k'] then
        .returned (-EOPNOTSUPP) copyupFlag
      else
        match core.getMethod cname mname with
        | none => .returned (-EOPNOTSUPP) copyupFlag
        | some exec => .returned (exec pctx indata) copyupFlag

/-! ## What the conversion calls a copyup -/

/-- `ConvertClientopToOpreq` returns 1 on this sub-op. -/
def classified (clientop : OSDOp) : Bool := clientop.op.op = .call && isCopyup clientop

/-- The payload holds the bytes that its three lengths announce. -/
def Complete (clientop : OSDOp) : Prop :=
  clientop.op.classLen.toNat + clientop.op.methodLen.toNat + clientop.op.indataLen.toNat ≤
    clientop.indata.data.length

instance (clientop : OSDOp) : Decidable (Complete clientop) := by
  unfold Complete
  infer_instance

/-- A conversion that only fills the sub-op finds no copyup. -/
theorem existsCopyUp_of_bind {x : Except OpRequestOps OpRequestOps} {optionType : OptionsType}
    {optionLength : OptionsLength} {c : Converted}
    (h : (do let oneOp ← x; return ⟨false, oneOp, optionType, optionLength⟩) =
      (.ok c : Except OpRequestOps Converted)) : c.existsCopyUp = false := by
  cases x with
  | error oneOp => cases h
  | ok oneOp =>
    cases h
    rfl

theorem convertClientopToOpreq_existsCopyUp {readStatFlag : Bool} {clientop : OSDOp}
    {oneOp : OpRequestOps} {optionType : OptionsType} {optionLength : OptionsLength}
    {c : Converted}
    (h : convertClientopToOpreq readStatFlag clientop oneOp optionType optionLength = .ok c) :
    c.existsCopyUp = classified clientop := by
  unfold convertClientopToOpreq at h
  unfold classified
  cases hop : clientop.op.op with
  | call =>
    simp only [hop, Except.ok.injEq] at h
    subst h
    simp
  | getxattr | rmxattr | cmpxattr | setxattr
  | omapgetvals | omapsetvals | omapgetkeys | omaprmkeys | omapclear | omapgetvalsbykeys
  | omapCmp | omapsetheader | omapgetheader =>
    simp only [hop] at h
    exact existsCopyUp_of_bind h
  | _ =>
    simp only [hop, Except.ok.injEq] at h
    subst h
    rfl

/-- The mark of a request says whether one of its sub-ops is a copyup. -/
theorem convertOps_exitsCopyUp {readStatFlag : Bool} {op : MOSDOp} {ops : List OSDOp}
    {st st' : LoopState} (h : convertOps readStatFlag op ops st = .finished st') :
    st'.exitsCopyUp = (st.exitsCopyUp || ops.any classified) := by
  induction ops generalizing st with
  | nil =>
    cases h
    simp
  | cons clientop ops ih =>
    obtain ⟨oneOp, c, -, hc, hrest⟩ := convertOps_cons_finished h
    rw [ih hrest, convertClientopToOpreq_existsCopyUp hc, List.any_cons, Bool.or_assoc]

theorem processOpReq_exitsCopyUp {readStatFlag : Bool} {op : MOSDOp} {opreq : SaOpReq}
    (h : processOpReq readStatFlag op = .accepted opreq) :
    opreq.ptrMosdop = op ∧ opreq.exitsCopyUp = op.ops.any classified := by
  obtain ⟨-, st, hst, hop, -, hmark⟩ := processOpReq_accepted h
  refine ⟨hop, ?_⟩
  rw [hmark, convertOps_exitsCopyUp hst]
  simp

/-! ## What `OSA_ExecClass` calls a copyup -/

/-- The second decode: all three parts, or a throw. -/
theorem callArgs_of_complete {clientop : OSDOp} (h : Complete clientop) :
    ∃ indata, callArgs clientop =
      some ((callNames clientop).1, (callNames clientop).2, indata) := by
  unfold Complete at h
  have hclass : clientop.op.classLen.toNat ≤ clientop.indata.data.length := by omega
  have hmethod : clientop.op.methodLen.toNat ≤
      (clientop.indata.data.drop clientop.op.classLen.toNat).length := by
    rw [List.length_drop]
    omega
  have hindata : clientop.op.indataLen.toNat ≤
      ((clientop.indata.data.drop clientop.op.classLen.toNat).drop
        clientop.op.methodLen.toNat).length := by
    rw [List.length_drop, List.length_drop]
    omega
  refine ⟨((clientop.indata.data.drop clientop.op.classLen.toNat).drop
    clientop.op.methodLen.toNat).take clientop.op.indataLen.toNat, ?_⟩
  simp only [callArgs, copy, callNames, if_pos hclass, Option.bind_eq_bind, Option.bind_some,
    if_pos hmethod, if_pos hindata]

theorem complete_of_callArgs {clientop : OSDOp} {args : Bytes × Bytes × Bytes}
    (h : callArgs clientop = some args) : Complete clientop := by
  simp only [callArgs, Option.bind_eq_bind, Option.bind_eq_some_iff] at h
  obtain ⟨⟨cname, bp⟩, hclass, ⟨mname, bp'⟩, hmethod, ⟨indata, bp''⟩, hindata, -⟩ := h
  obtain ⟨hc, hdata⟩ := (Codec.copy_iff _ _ _ _).mp hclass
  obtain ⟨hm, rfl⟩ := (Codec.copy_iff _ _ _ _).mp hmethod
  obtain ⟨hi, rfl⟩ := (Codec.copy_iff _ _ _ _).mp hindata
  unfold Complete
  rw [hdata, ← hc, ← hm, ← hi]
  simp only [List.length_append]
  omega

/-- Whichever way the copyup itself went, the flag is written after it. -/
theorem execCopyup_returned {pctx : SaOpContext} {indata : Bytes} {ret flag : ℤ}
    (h : execCopyup pctx indata = .returned ret flag) : flag = 0 := by
  unfold execCopyup at h
  split at h
  · cases h
  · split at h <;> cases h
    rfl

/-- **One call, every return path.** On a copyup whose payload is complete, `OSA_ExecClass`
returns with the flag lowered, whatever the core answers. -/
theorem osaExecClass_complete {core : Core} {opreq : SaOpReq} {i : ℕ} {clientop : OSDOp}
    {copyupFlag ret flag : ℤ} (hop : opreq.ptrMosdop.ops[i]? = some clientop)
    (hcopyup : classified clientop = true) (hcomplete : Complete clientop)
    (h : osaExecClass core opreq i copyupFlag = .returned ret flag) : flag = 0 := by
  obtain ⟨indata, hargs⟩ := callArgs_of_complete hcomplete
  have hnames : callNames clientop = (rbdName, copyupName) := by
    exact of_decide_eq_true (Bool.and_eq_true_iff.mp hcopyup).2
  have hnotRpc : ¬(rbdName = rpcName ∧ copyupName = dasPrefetchName) := by decide
  rw [hnames] at hargs
  simp only [osaExecClass, hop, hargs, if_neg hnotRpc, and_self, if_true] at h
  exact execCopyup_returned h

/-- On one that is cut short it returns before it looks at the names, and leaves the flag. -/
theorem osaExecClass_cut {core : Core} {opreq : SaOpReq} {i : ℕ} {clientop : OSDOp}
    {copyupFlag : ℤ} (hop : opreq.ptrMosdop.ops[i]? = some clientop)
    (hcut : ¬ Complete clientop) :
    osaExecClass core opreq i copyupFlag = .returned (-EINVAL) copyupFlag := by
  have hargs : callArgs clientop = none := by
    rw [Option.eq_none_iff_forall_ne_some]
    intro args hargs
    exact hcut (complete_of_callArgs hargs)
  simp only [osaExecClass, hop, hargs]

/-- A call that the conversion did not take for a copyup does not touch the flag. -/
theorem osaExecClass_other {core : Core} {opreq : SaOpReq} {i : ℕ} {clientop : OSDOp}
    {copyupFlag ret flag : ℤ} (hop : opreq.ptrMosdop.ops[i]? = some clientop)
    (hcall : clientop.op.op = .call) (hother : classified clientop = false)
    (h : osaExecClass core opreq i copyupFlag = .returned ret flag) : flag = copyupFlag := by
  by_cases hcomplete : Complete clientop
  · obtain ⟨indata, hargs⟩ := callArgs_of_complete hcomplete
    have hnames : ¬((callNames clientop).1 = rbdName ∧ (callNames clientop).2 = copyupName) := by
      intro hboth
      simp [classified, hcall, isCopyup, Prod.ext_iff] at hother
      exact hother hboth.1 hboth.2
    simp only [osaExecClass, hop, hargs, if_neg hnames] at h
    split at h
    · -- `rpc.das_prefetch`
      split at h
      · cases h
        rfl
      · split at h <;> cases h
        rfl
    · split at h
      · cases h
        rfl
      · split at h <;> cases h <;> rfl
  · rw [osaExecClass_cut hop hcomplete] at h
    cases h
    rfl

/-! ## The handler and the core -/

/-- A request the core has been given, and the sub-ops on which it has run `OSA_ExecClass`. -/
structure Handed where
  opreq : SaOpReq
  executed : List ℕ := []

/-- Sub-op `i` is one that the conversion calls a copyup. -/
def Handed.IsCopyup (h : Handed) (i : ℕ) : Prop :=
  ∃ clientop, h.opreq.ptrMosdop.ops[i]? = some clientop ∧ classified clientop = true

/-- `OSA_ExecClass` has finished every copyup of the request. -/
def Handed.Finished (h : Handed) : Prop := ∀ i, h.IsCopyup i → i ∈ h.executed

instance (h : Handed) (i : ℕ) : Decidable (h.IsCopyup i) :=
  decidable_of_iff (h.opreq.ptrMosdop.ops[i]?.any classified = true) (Option.any_eq_true _ _)

instance (h : Handed) : Decidable h.Finished :=
  decidable_of_iff (∀ i < h.opreq.ptrMosdop.ops.length, h.IsCopyup i → i ∈ h.executed) <| by
    constructor
    · rintro hfin i ⟨clientop, hop, hcopyup⟩
      exact hfin i (List.getElem?_eq_some_iff.mp hop).1 ⟨clientop, hop, hcopyup⟩
    · intro hfin i _
      exact hfin i

/-- A call on which the core has not run `OSA_ExecClass` yet. -/
def Handed.Runnable (h : Handed) (i : ℕ) : Prop :=
  (h.opreq.ptrMosdop.ops[i]?.map (·.op.op)) = some .call ∧ i ∉ h.executed

instance (h : Handed) (i : ℕ) : Decidable (h.Runnable i) := by
  unfold Handed.Runnable
  infer_instance

/-- One handler, with the queue it takes requests from in their order and the flag that is a
local variable of its thread. `waiting` is the request between `ProcessOpReq` and `DoOneOps`. -/
structure State where
  dealQueue : List MOSDOp := []
  waiting : Option SaOpReq := none
  copyupFlag : ℤ := 0
  handed : List Handed := []
  /-- no exception has ended the process -/
  alive : Bool := true

inductive Act
  | arrive (op : MOSDOp)
  /-- `ProcessOpReq` on the front of the queue -/
  | process
  /-- the spin loop ends, `DoOneOps` -/
  | handOver
  /-- the core finishes `OSA_ExecClass` on sub-op `i` of the `n`-th request it was given -/
  | exec (n i : ℕ) (core : Core)

def step (readStatFlag : Bool) (s : State) : Act → Option State
  | .arrive op => if s.alive then some { s with dealQueue := s.dealQueue ++ [op] } else none
  | .process =>
    match s.alive, s.waiting, s.dealQueue with
    | true, none, op :: rest =>
      match processOpReq readStatFlag op with
      | .accepted opreq => some { s with dealQueue := rest, waiting := some opreq }
      | .rejected _ _ => some { s with dealQueue := rest }
      | .threw => some { s with dealQueue := rest, alive := false }
    | _, _, _ => none
  | .handOver =>
    match s.alive, s.waiting with
    | true, some opreq =>
      -- `while (copyupFlag.load() == 1) usleep(50)`
      if s.copyupFlag = 1 then none
      else some { s with
        waiting := none
        copyupFlag := if opreq.exitsCopyUp then 1 else s.copyupFlag
        handed := s.handed ++ [{ opreq := { opreq with copyupFlag := opreq.exitsCopyUp } }] }
    | _, _ => none
  | .exec n i core =>
    match s.alive, s.handed[n]? with
    | true, some h =>
      if h.Runnable i then
        match osaExecClass core h.opreq i s.copyupFlag with
        | .returned _ flag => some { s with
            copyupFlag := flag
            handed := s.handed.set n { h with executed := i :: h.executed } }
        | .threw | .undefined => some { s with alive := false }
      else none
    | _, _ => none

/-- What a step can do. -/
inductive Moves (readStatFlag : Bool) (s : State) : Act → State → Prop
  | arrive (op : MOSDOp) :
      Moves readStatFlag s (.arrive op) { s with dealQueue := s.dealQueue ++ [op] }
  | accept {op : MOSDOp} {rest : List MOSDOp} {opreq : SaOpReq}
      (hqueue : s.dealQueue = op :: rest) (hreq : processOpReq readStatFlag op = .accepted opreq) :
      Moves readStatFlag s .process { s with dealQueue := rest, waiting := some opreq }
  | drop {op : MOSDOp} {rest : List MOSDOp} {alive : Bool} (hqueue : s.dealQueue = op :: rest) :
      Moves readStatFlag s .process { s with dealQueue := rest, alive := alive }
  | handOver {opreq : SaOpReq} (hwaiting : s.waiting = some opreq) (hflag : s.copyupFlag ≠ 1) :
      Moves readStatFlag s .handOver { s with
        waiting := none
        copyupFlag := if opreq.exitsCopyUp then 1 else s.copyupFlag
        handed := s.handed ++ [{ opreq := { opreq with copyupFlag := opreq.exitsCopyUp } }] }
  | exec {n i : ℕ} {core : Core} {h : Handed} {ret flag : ℤ} (hn : s.handed[n]? = some h)
      (hi : h.Runnable i) (hret : osaExecClass core h.opreq i s.copyupFlag = .returned ret flag) :
      Moves readStatFlag s (.exec n i core) { s with
        copyupFlag := flag
        handed := s.handed.set n { h with executed := i :: h.executed } }
  | crash {n i : ℕ} {core : Core} : Moves readStatFlag s (.exec n i core) { s with alive := false }

theorem moves_of_step {readStatFlag : Bool} {s t : State} {a : Act}
    (hstep : step readStatFlag s a = some t) : Moves readStatFlag s a t := by
  obtain ⟨dealQueue, waiting, copyupFlag, handed, alive⟩ := s
  cases alive with
  | false => cases a <;> simp [step] at hstep
  | true =>
    cases a with
    | arrive op =>
      cases hstep
      exact .arrive op
    | process =>
      cases waiting with
      | some opreq => simp [step] at hstep
      | none =>
        cases dealQueue with
        | nil => simp [step] at hstep
        | cons op rest =>
          simp only [step] at hstep
          cases hreq : processOpReq readStatFlag op with
          | accepted opreq =>
            rw [hreq] at hstep
            cases hstep
            exact .accept rfl hreq
          | rejected ret sent =>
            rw [hreq] at hstep
            cases hstep
            exact .drop rfl
          | threw =>
            -- nobody catches this: the process ends
            rw [hreq] at hstep
            cases hstep
            exact .drop rfl
    | handOver =>
      cases waiting with
      | none => simp [step] at hstep
      | some opreq =>
        by_cases hflag : copyupFlag = 1
        · simp [step, hflag] at hstep
        · simp only [step, if_neg hflag] at hstep
          cases hstep
          exact .handOver rfl hflag
    | exec n i core =>
      cases hn : handed[n]? with
      | none => simp [step, hn] at hstep
      | some h =>
        simp only [step, hn] at hstep
        split_ifs at hstep with hi
        cases hret : osaExecClass core h.opreq i copyupFlag with
        | returned ret flag =>
          rw [hret] at hstep
          cases hstep
          exact .exec hn hi hret
        | threw =>
          rw [hret] at hstep
          cases hstep
          exact .crash
        | undefined =>
          rw [hret] at hstep
          cases hstep
          exact .crash

/-! ## The barrier -/

/-- Every copyup of the request carries its whole payload, and there is at most one. -/
def Clean (op : MOSDOp) : Prop :=
  (∀ clientop ∈ op.ops, classified clientop = true → Complete clientop) ∧
    op.ops.countP classified ≤ 1

instance (op : MOSDOp) : Decidable (Clean op) := by
  unfold Clean
  infer_instance

/-- Only clean requests arrive. -/
def CleanArrivals (_ : State) : Act → Prop
  | .arrive op => Clean op
  | _ => True

/-- Every request the core was given is finished. -/
def AllFinished (s : State) : Prop := ∀ (n : ℕ) (h : Handed), s.handed[n]? = some h → h.Finished

instance (s : State) : Decidable (AllFinished s) :=
  decidable_of_iff (∀ h ∈ s.handed, h.Finished) <| by
    constructor
    · intro hfin n h hn
      exact hfin h (List.mem_of_getElem? hn)
    · intro hfin h hmem
      obtain ⟨n, hn⟩ := List.getElem?_of_mem hmem
      exact hfin n h hn

/-- The barrier in one state of the handler. -/
structure Barrier (s : State) : Prop where
  /-- on a copyup the core was given, every return of `OSA_ExecClass` leaves the flag at 0 -/
  cleared : ∀ {n i : ℕ} {h : Handed} {core : Core} {ret flag : ℤ}, s.handed[n]? = some h →
    h.IsCopyup i → osaExecClass core h.opreq i s.copyupFlag = .returned ret flag → flag = 0
  /-- once the copyups have been executed, the spin loop ends -/
  released : AllFinished s → s.copyupFlag = 0
  /-- a request is handed over only after the copyups of every earlier one -/
  ordered : ∀ {n : ℕ} {h : Handed}, s.handed[n]? = some h → n + 1 < s.handed.length → h.Finished

/-- What carries the barrier from step to step: the flag is up exactly while the last request
has a copyup to execute. -/
structure BarrierInv (s : State) : Prop where
  queued : ∀ op ∈ s.dealQueue, Clean op
  waiting : ∀ opreq, s.waiting = some opreq →
    Clean opreq.ptrMosdop ∧ opreq.exitsCopyUp = opreq.ptrMosdop.ops.any classified
  handed : ∀ (n : ℕ) (h : Handed), s.handed[n]? = some h → Clean h.opreq.ptrMosdop
  ordered : ∀ (n : ℕ) (h : Handed), s.handed[n]? = some h → n + 1 < s.handed.length → h.Finished
  lowered : AllFinished s → s.copyupFlag = 0
  raised : ¬ AllFinished s → s.copyupFlag = 1

/-- Two sub-ops of a list with at most one copyup cannot both be one. -/
theorem eq_of_countP_le_one {α : Type} {p : α → Bool} {l : List α} (hone : l.countP p ≤ 1)
    {i j : ℕ} {a b : α} (hi : l[i]? = some a) (ha : p a = true) (hj : l[j]? = some b)
    (hb : p b = true) : i = j := by
  induction l generalizing i j with
  | nil => simp at hi
  | cons x l ih =>
    -- a hit in the tail leaves no room for one at the head
    have htail : ∀ {k : ℕ} {c : α}, l[k]? = some c → p c = true → p x = false := by
      intro k c hk hc
      have hpos : 0 < l.countP p := List.countP_pos_iff.mpr ⟨c, List.mem_of_getElem? hk, hc⟩
      by_contra hx
      rw [List.countP_cons_of_pos (by simpa using hx)] at hone
      omega
    have hless : l.countP p ≤ 1 := by
      rw [List.countP_cons] at hone
      omega
    cases i with
    | zero =>
      obtain rfl : x = a := by simpa using hi
      cases j with
      | zero => rfl
      | succ j =>
        rw [List.getElem?_cons_succ] at hj
        simp [htail hj hb] at ha
    | succ i =>
      rw [List.getElem?_cons_succ] at hi
      cases j with
      | zero =>
        obtain rfl : x = b := by simpa using hj
        simp [htail hi ha] at hb
      | succ j =>
        rw [List.getElem?_cons_succ] at hj
        rw [ih hless hi hj]

section Barrier

variable {readStatFlag : Bool} {s t : State} {a : Act}

theorem BarrierInv.barrier (hinv : BarrierInv s) : Barrier s := by
  refine ⟨?_, hinv.lowered, fun hn hlt => hinv.ordered _ _ hn hlt⟩
  rintro n i h core ret flag hn ⟨clientop, hop, hcopyup⟩ hret
  have hcomplete := (hinv.handed n h hn).1 clientop (List.mem_of_getElem? hop) hcopyup
  exact osaExecClass_complete hop hcopyup hcomplete hret

theorem BarrierInv.init : BarrierInv {} := by
  refine ⟨by simp, by simp, by simp, by simp, fun _ => rfl, ?_⟩
  intro hnot
  exact absurd (fun n h hn => by simp at hn) hnot

/-- A request that has just been handed over is finished if it is not marked. -/
theorem finished_fresh_iff (opreq : SaOpReq) :
    Handed.Finished { opreq := opreq } ↔ opreq.ptrMosdop.ops.any classified = false := by
  constructor
  · intro hfin
    rw [List.any_eq_false]
    intro clientop hmem hcopyup
    obtain ⟨i, hi⟩ := List.getElem?_of_mem hmem
    exact List.not_mem_nil (hfin i ⟨clientop, hi, hcopyup⟩)
  · rintro hnone i ⟨clientop, hop, hcopyup⟩
    exact absurd hcopyup (List.any_eq_false.mp hnone clientop (List.mem_of_getElem? hop))

theorem BarrierInv.allFinished (hinv : BarrierInv s) (hflag : s.copyupFlag ≠ 1) :
    AllFinished s := by
  by_contra hnot
  exact hflag (hinv.raised hnot)

/-- **The hand-over.** The flag is down, so every earlier request is finished; it goes up with
a request that is not. -/
theorem BarrierInv.handOver (hinv : BarrierInv s) {opreq : SaOpReq}
    (hwaiting : s.waiting = some opreq) (hflag : s.copyupFlag ≠ 1) :
    BarrierInv { s with
      waiting := none
      copyupFlag := if opreq.exitsCopyUp then 1 else s.copyupFlag
      handed := s.handed ++ [{ opreq := { opreq with copyupFlag := opreq.exitsCopyUp } }] } := by
  obtain ⟨hclean, hmark⟩ := hinv.waiting opreq hwaiting
  have hall := hinv.allFinished hflag
  refine ⟨hinv.queued, by simp, ?_, ?_, ?_, ?_⟩
  · intro n h hn
    rcases getElem?_concat_cases hn with hold | ⟨-, rfl⟩
    · exact hinv.handed n h hold
    · exact hclean
  · intro n h hn hlt
    rcases getElem?_concat_cases hn with hold | ⟨rfl, -⟩
    · exact hall n h hold
    · simp at hlt
  · -- all are finished: the new one then has no copyup, and the flag was down before
    intro hfin
    have hnew := hfin s.handed.length _ List.getElem?_concat_length
    rw [finished_fresh_iff] at hnew
    simp only [hmark, hnew, Bool.false_eq_true, if_false]
    exact hinv.lowered hall
  · -- somebody is not finished, and that can only be the new one
    intro hnot
    have hnew : opreq.exitsCopyUp = true := by
      by_contra hunmarked
      apply hnot
      intro n h hn
      rcases getElem?_concat_cases hn with hold | ⟨-, rfl⟩
      · exact hall n h hold
      · rw [finished_fresh_iff]
        simpa [hmark] using hunmarked
    simp [hnew]

theorem Handed.finished_cons {h : Handed} {i : ℕ} (hfin : h.Finished) :
    Handed.Finished { h with executed := i :: h.executed } := by
  intro j hj
  exact List.mem_cons_of_mem i (hfin j hj)

/-- A call that is no copyup does not finish a request. -/
theorem Handed.finished_of_cons {h : Handed} {i : ℕ} (hother : ¬ h.IsCopyup i)
    (hfin : Handed.Finished { h with executed := i :: h.executed }) : h.Finished := by
  intro j hj
  rcases List.mem_cons.mp (hfin j hj) with rfl | hmem
  · exact absurd hj hother
  · exact hmem

/-- The one copyup of a clean request finishes it. -/
theorem Handed.finished_of_copyup {h : Handed} {i : ℕ} (hclean : Clean h.opreq.ptrMosdop)
    (hi : h.IsCopyup i) : Handed.Finished { h with executed := i :: h.executed } := by
  rintro j ⟨clientop', hop', hcopyup'⟩
  obtain ⟨clientop, hop, hcopyup⟩ := hi
  obtain rfl := eq_of_countP_le_one hclean.2 hop hcopyup hop' hcopyup'
  exact List.mem_cons_self

/-- What a call does to the request it belongs to and to the flag, with the other requests
left alone. -/
theorem BarrierInv.exec (hinv : BarrierInv s) {n i : ℕ} {core : Core} {h : Handed}
    {ret flag : ℤ} (hn : s.handed[n]? = some h) (hi : h.Runnable i)
    (hret : osaExecClass core h.opreq i s.copyupFlag = .returned ret flag) :
    BarrierInv { s with
      copyupFlag := flag
      handed := s.handed.set n { h with executed := i :: h.executed } } := by
  have hnlt : n < s.handed.length := (List.getElem?_eq_some_iff.mp hn).1
  have hclean := hinv.handed n h hn
  obtain ⟨clientop, hop, hcall⟩ : ∃ clientop, h.opreq.ptrMosdop.ops[i]? = some clientop ∧
      clientop.op.op = .call := by simpa using hi.1
  have hordered : ∀ (m : ℕ) (k : Handed),
      (s.handed.set n { h with executed := i :: h.executed })[m]? = some k →
      m + 1 < (s.handed.set n { h with executed := i :: h.executed }).length → k.Finished := by
    intro m k hm hlt
    rw [List.length_set] at hlt
    rcases getElem?_set_cases hm with ⟨rfl, rfl⟩ | ⟨-, hold⟩
    · exact Handed.finished_cons (hinv.ordered m h hn hlt)
    · exact hinv.ordered m k hold hlt
  have hhanded : ∀ (m : ℕ) (k : Handed),
      (s.handed.set n { h with executed := i :: h.executed })[m]? = some k →
      Clean k.opreq.ptrMosdop := by
    intro m k hm
    rcases getElem?_set_cases hm with ⟨-, rfl⟩ | ⟨-, hold⟩
    · exact hclean
    · exact hinv.handed m k hold
  cases hclass : classified clientop with
  | true =>
    -- a copyup: its request is the last one, and this call finishes it
    have hcopyup : h.IsCopyup i := ⟨clientop, hop, hclass⟩
    have hcomplete := hclean.1 clientop (List.mem_of_getElem? hop) hclass
    obtain rfl := osaExecClass_complete hop hclass hcomplete hret
    have hlast : ¬ n + 1 < s.handed.length := by
      intro hlt
      exact hi.2 (hinv.ordered n h hn hlt i hcopyup)
    have hall : AllFinished { s with
        copyupFlag := 0
        handed := s.handed.set n { h with executed := i :: h.executed } } := by
      intro m k hm
      rcases getElem?_set_cases hm with ⟨-, rfl⟩ | ⟨hmn, hold⟩
      · exact Handed.finished_of_copyup hclean hcopyup
      · have hmlt : m < s.handed.length := (List.getElem?_eq_some_iff.mp hold).1
        exact hinv.ordered m k hold (by omega)
    exact ⟨hinv.queued, hinv.waiting, hhanded, hordered, fun _ => rfl, absurd hall⟩
  | false =>
    have hother : ¬ h.IsCopyup i := by
      rintro ⟨clientop', hop', hclass'⟩
      obtain rfl := Option.some.inj (hop.symm.trans hop')
      simp [hclass] at hclass'
    obtain rfl := osaExecClass_other hop hcall hclass hret
    have hiff : AllFinished { s with
        handed := s.handed.set n { h with executed := i :: h.executed } } ↔ AllFinished s := by
      constructor
      · intro hfin m k hm
        by_cases hmn : m = n
        · subst hmn
          obtain rfl := Option.some.inj (hn.symm.trans hm)
          exact Handed.finished_of_cons hother (hfin m _ (List.getElem?_set_self hnlt))
        · exact hfin m k ((List.getElem?_set_ne (Ne.symm hmn)).trans hm)
      · intro hfin m k hm
        rcases getElem?_set_cases hm with ⟨-, rfl⟩ | ⟨-, hold⟩
        · exact Handed.finished_cons (hfin n h hn)
        · exact hfin m k hold
    refine ⟨hinv.queued, hinv.waiting, hhanded, hordered, ?_, ?_⟩
    · exact fun hfin => hinv.lowered (hiff.mp hfin)
    · exact fun hnot => hinv.raised fun hfin => hnot (hiff.mpr hfin)

theorem BarrierInv.step (hinv : BarrierInv s) (hok : CleanArrivals s a)
    (hmove : Moves readStatFlag s a t) : BarrierInv t := by
  cases hmove with
  | arrive op =>
    refine ⟨?_, hinv.waiting, hinv.handed, hinv.ordered, hinv.lowered, hinv.raised⟩
    intro op' hmem
    rcases List.mem_append.mp hmem with hold | hnew
    · exact hinv.queued op' hold
    · rw [List.mem_singleton.mp hnew]
      exact hok
  | accept hqueue hreq =>
    rename_i op rest opreq
    obtain ⟨hptr, hmark⟩ := processOpReq_exitsCopyUp hreq
    have hmem : ∀ op' ∈ op :: rest, Clean op' := by
      rw [← hqueue]
      exact hinv.queued
    refine ⟨fun op' hop' => hmem op' (List.mem_cons_of_mem op hop'), ?_, hinv.handed,
      hinv.ordered, hinv.lowered, hinv.raised⟩
    rintro opreq' hsome
    obtain rfl := Option.some.inj hsome
    rw [hptr]
    exact ⟨hmem op List.mem_cons_self, hmark⟩
  | drop hqueue =>
    refine ⟨?_, hinv.waiting, hinv.handed, hinv.ordered, hinv.lowered, hinv.raised⟩
    intro op' hop'
    apply hinv.queued
    rw [hqueue]
    exact List.mem_cons_of_mem _ hop'
  | handOver hwaiting hflag => exact hinv.handOver hwaiting hflag
  | exec hn hi hret => exact hinv.exec hn hi hret
  | crash =>
    exact ⟨hinv.queued, hinv.waiting, hinv.handed, hinv.ordered, hinv.lowered, hinv.raised⟩

/-- **The copyup barrier.** While only clean requests arrive, in every run of the handler and
the core every return of `OSA_ExecClass` on a copyup leaves the flag at 0, the handler is
released once the copyups have been executed, and no request is handed over before the copyups
of the earlier ones are finished. -/
theorem copyup_barrier (hreach : Reach (step readStatFlag) CleanArrivals {} s) : Barrier s := by
  have hinv : BarrierInv s := by
    apply hreach.invariant BarrierInv.init
    intro s a t hs hok hstep
    exact hs.step hok (moves_of_step hstep)
  exact hinv.barrier

end Barrier

/-! ## Where it breaks -/

/-- A call of `rbd.copyup` without data, announcing `indataLen` bytes of it. -/
def emptyCopyup (indataLen : UInt32) : OSDOp where
  op := { op := .call, classLen := 3, methodLen := 6, indataLen := indataLen }
  indata := ⟨rbdName ++ copyupName, by decide⟩

/-- A request on the object `rbd_data.5.0`. -/
def onObject (ops : List OSDOp) : MOSDOp where
  name := ascii ['r','b','d','_','d','a','t','a','.','5','.','0']
  ops := ops

/-- A core in which no object exists and every write succeeds. -/
def noObject : Core where
  cbFunc opreq := (if opreq.vecOps.map (·.opSubType) = [.stat] then -ENOENT else 0, [])

/-- A write behind the copyup in the same request, and one in the next request. -/
def oneCopyup : List Act :=
  [.arrive (onObject [emptyCopyup 0, { op := { op := .write } }]),
    .arrive (onObject [{ op := { op := .write } }]), .process, .handOver, .process,
    .exec 0 0 noObject, .handOver]

theorem copyup_barrier_one_copyup :
    ∃ s, Reach (step false) CleanArrivals {} s ∧ s.handed.length = 2 ∧ Barrier s := by
  obtain ⟨s, hs, hp⟩ := exists_reach_of_run (step false) CleanArrivals {} oneCopyup
    (fun s => decide (s.handed.length = 2)) (by decide) (by
      intro a ha s
      simp only [oneCopyup, List.mem_cons, List.not_mem_nil, or_false] at ha
      rcases ha with rfl | rfl | rfl | rfl | rfl | rfl | rfl <;> simp only [CleanArrivals] <;> decide)
  exact ⟨s, hs, of_decide_eq_true hp, copyup_barrier hs⟩

/-- The core executes a copyup that announces four bytes and carries none. -/
def cutCopyup : List Act :=
  [.arrive (onObject [emptyCopyup 4]), .process, .handOver, .exec 0 0 noObject]

/-- The handler waits with a write while the core executes the first of two copyups. -/
def twoCopyups : List Act :=
  [.arrive (onObject [emptyCopyup 0, emptyCopyup 0]), .arrive (onObject [{ op := { op := .write } }]),
    .process, .handOver, .process, .exec 0 0 noObject, .handOver]

/-- Both halves fail without the condition: everything is executed and the flag is up for good;
and the write is handed over before the second copyup. -/
theorem copyup_barrier_broken :
    (∃ s, Reach (step false) Free {} s ∧ AllFinished s ∧ s.copyupFlag = 1) ∧
    ∃ s h, Reach (step false) Free {} s ∧ s.handed[0]? = some h ∧ 1 < s.handed.length ∧
      ¬ h.Finished := by
  constructor
  · obtain ⟨s, hs, hp⟩ := exists_reach_of_run (step false) Free {} cutCopyup
      (fun s => decide (AllFinished s ∧ s.copyupFlag = 1)) (by decide) (fun _ _ _ => trivial)
    exact ⟨s, hs, of_decide_eq_true hp⟩
  · obtain ⟨s, hs, hp⟩ := exists_reach_of_run (step false) Free {} twoCopyups
      (fun s => s.handed[0]?.any fun h : Handed => decide (1 < s.handed.length ∧ ¬ h.Finished))
      (by decide) (fun _ _ _ => trivial)
    obtain ⟨h, hn, hbad⟩ := (Option.any_eq_true _ _).mp hp
    exact ⟨s, h, hs, hn, of_decide_eq_true hbad⟩

end GcAdaptor.Copyup
