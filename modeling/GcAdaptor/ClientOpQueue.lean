/-
The server's request queues: `ClientOpQueue` (`server_adaptor/client_op_queue.h`) with
`NetworkModule::EnqueueClientop`, `OpHandlerThread` and `StopThread`
(`server_adaptor/network_module.cpp`).

A dispatch thread locks the queue its object name hashes to, waits once on `cond` if the
queue is over its capacity, pushes the request, its timestamp and the start of its queueing
period onto three parallel queues and notifies `condOpReq`; it keeps the mutex to the end
of the call. The handler swaps the three queues with three of its own, releases the mutex
and works through them: it pops the timestamp itself, and `ProcessOpReq` pops the other
two. `StopThread` takes and releases each mutex, raises the flag, and notifies.

A call of `EnqueueClientop` is one entry of `calls`, and its position stands for the
`MOSDOp` it brings. Every push, every swap and every operation on a mutex or a condition
variable is a step. `enqueued` and `processed` record the order in which requests were
pushed and done with.
-/
import GcAdaptor.Interleave
import GcAdaptor.NetworkModule

set_option autoImplicit false

namespace GcAdaptor.ClientOpQueue

open GcAdaptor.Wire GcAdaptor.NetworkModule

/-! ## The state -/

/-- What `CreateWorkThread` fixes. `hash` is `std::hash<std::string>`. -/
structure Config where
  queueNum : ℕ
  queueNum_pos : 0 < queueNum
  queueMaxCapacity : ℕ
  hash : Bytes → UInt64

/-- The queue an object name goes to. -/
def Config.index (cfg : Config) (name : Bytes) : ℕ := (cfg.hash name).toNat % cfg.queueNum

/-- Where a call of `EnqueueClientop` is. -/
inductive CallPc
  /-- before `opReqLock.lock()` -/
  | lock
  /-- at `GetSize() > queueMaxCapacity` -/
  | size
  /-- in `cond.wait` -/
  | waiting
  /-- notified, before it has the mutex again -/
  | woken
  /-- in `EnQueue`: `reqQueue.push` -/
  | pushReq
  | pushTs
  | pushPeriod
  /-- `condOpReq.notify_all` -/
  | notify
  /-- `LimitWrite`, and the end of the call -/
  | limitWrite
  | returned
  deriving DecidableEq

/-- The thread has the queue's mutex. -/
def CallPc.holds : CallPc → Bool
  | .lock | .waiting | .woken | .returned => false
  | _ => true

structure Call where
  op : MOSDOp
  /-- `ts`, taken when the call begins -/
  ts : UInt64
  /-- `periodTs`, taken before `EnQueue` -/
  period : UInt64 := 0
  pc : CallPc := .lock

/-- A request with the values that went along with it. -/
structure Entry where
  op : ℕ
  ts : UInt64
  period : UInt64
  deriving DecidableEq

/-- Where an `OpHandlerThread` is. -/
inductive HandlerPc
  /-- before its first `lock` -/
  | start
  /-- `while (!finishThread[threadId])` -/
  | test
  /-- `if (!opDispatch->Empty())` -/
  | empty
  | swapReq
  | swapTs
  | swapPeriod
  /-- `cond.notify_all` -/
  | notifyCond
  | unlock
  /-- `while (!dealQueue.empty())` -/
  | dealEmpty
  /-- `new SaOpReq` -/
  | alloc
  /-- `dealTs.front(); dealTs.pop()` -/
  | popTs
  /-- `ProcessOpReq`, with the timestamp popped -/
  | process (ts : UInt64)
  /-- the `Get...Cas` calls and the wait for `copyupFlag` -/
  | getCas (e : Entry)
  | doOneOps (e : Entry)
  /-- before `lock` at the end of the loop body -/
  | relock
  /-- in `condOpReq.wait` -/
  | sleeping
  /-- notified, before it has the mutex again -/
  | woken
  | exited
  deriving DecidableEq

def HandlerPc.holds : HandlerPc → Bool
  | .test | .empty | .swapReq | .swapTs | .swapPeriod | .notifyCond | .unlock => true
  | _ => false

/-- Who has a mutex. -/
inductive Holder
  | handler
  | dispatch (k : ℕ)
  | stopper
  deriving DecidableEq

/-- A `ClientOpQueue` with the handler that serves it. -/
structure OpQueue where
  reqQueue : List ℕ := []
  tsQueue : List UInt64 := []
  period : List UInt64 := []
  lock : Option Holder := none
  pc : HandlerPc := .start
  dealQueue : List ℕ := []
  dealTs : List UInt64 := []
  periodTs : List UInt64 := []
  enqueued : List Entry := []
  processed : List Entry := []

/-- Where `StopThread` is. -/
inductive StopPc
  | idle
  | lock (i : ℕ)
  | unlock (i : ℕ)
  | setFlag (i : ℕ)
  | notify (i : ℕ)
  | join (i : ℕ)
  | done
  deriving DecidableEq

structure State where
  calls : List Call := []
  queue : ℕ → OpQueue := fun _ => {}
  finishThread : ℕ → Bool := fun _ => false
  stop : StopPc := .idle

def State.setCall (s : State) (k : ℕ) (c : Call) : State := { s with calls := s.calls.set k c }

def State.setQueue (s : State) (q : ℕ) (x : OpQueue) : State :=
  { s with queue := Function.update s.queue q x }

/-! ## Steps -/

inductive Act
  /-- a dispatch thread enters `EnqueueClientop`; `ts` is what the clock shows -/
  | call (op : MOSDOp) (ts : UInt64)
  /-- the next step of call `k`; `now` is what the clock shows -/
  | dispatch (k : ℕ) (now : UInt64)
  /-- a spurious wakeup from `cond.wait` -/
  | wakeCall (k : ℕ)
  /-- the next step of a handler outside `ProcessOpReq`; `ok` is the result of `new` -/
  | handler (q : ℕ) (ok : Bool)
  /-- `ProcessOpReq` -/
  | process (q : ℕ) (readStatFlag : Bool)
  /-- a spurious wakeup from `condOpReq.wait` -/
  | wakeHandler (q : ℕ)
  | stopBegin
  | stopper

/-- `condOpReq.notify_all` -/
def OpQueue.notify (x : OpQueue) : OpQueue :=
  { x with pc := if x.pc = .sleeping then .woken else x.pc }

/-- `EnqueueClientop` of call `k` on its queue. -/
def State.dispatch (cfg : Config) (s : State) (k : ℕ) (c : Call) (now : UInt64) : Option State :=
  let q := cfg.index c.op.name
  let x := s.queue q
  match c.pc with
  | .lock =>
    if x.lock = none then
      some ((s.setCall k { c with pc := .size }).setQueue q { x with lock := some (.dispatch k) })
    else none
  | .size =>
    -- `if`, not `while`: the capacity is looked at once
    if cfg.queueMaxCapacity < x.reqQueue.length then
      some ((s.setCall k { c with pc := .waiting }).setQueue q { x with lock := none })
    else some (s.setCall k { c with period := now, pc := .pushReq })
  | .waiting => none
  | .woken =>
    if x.lock = none then
      some ((s.setCall k { c with period := now, pc := .pushReq }).setQueue q
        { x with lock := some (.dispatch k) })
    else none
  | .pushReq =>
    some ((s.setCall k { c with pc := .pushTs }).setQueue q
      { x with
        reqQueue := x.reqQueue ++ [k]
        enqueued := x.enqueued ++ [⟨k, c.ts, c.period⟩] })
  | .pushTs =>
    some ((s.setCall k { c with pc := .pushPeriod }).setQueue q
      { x with tsQueue := x.tsQueue ++ [c.ts] })
  | .pushPeriod =>
    some ((s.setCall k { c with pc := .notify }).setQueue q
      { x with period := x.period ++ [c.period] })
  | .notify => some ((s.setCall k { c with pc := .limitWrite }).setQueue q x.notify)
  | .limitWrite =>
    -- the mutex goes with the call's `unique_lock`, after `LimitWrite`
    some ((s.setCall k { c with pc := .returned }).setQueue q { x with lock := none })
  | .returned => none

/-- `OpHandlerThread` outside `ProcessOpReq` and `cond.notify_all`. A pop of an empty queue
has no meaning and is not taken. -/
def OpQueue.handler (finish ok : Bool) (x : OpQueue) : Option OpQueue :=
  match x.pc with
  | .start | .relock | .woken =>
    if x.lock = none then some { x with lock := some .handler, pc := .test } else none
  | .test =>
    if finish then some { x with lock := none, pc := .exited } else some { x with pc := .empty }
  | .empty =>
    if x.reqQueue = [] then some { x with lock := none, pc := .sleeping }
    else some { x with pc := .swapReq }
  | .swapReq =>
    some { x with reqQueue := x.dealQueue, dealQueue := x.reqQueue, pc := .swapTs }
  | .swapTs => some { x with tsQueue := x.dealTs, dealTs := x.tsQueue, pc := .swapPeriod }
  | .swapPeriod =>
    some { x with period := x.periodTs, periodTs := x.period, pc := .notifyCond }
  | .unlock => some { x with lock := none, pc := .dealEmpty }
  | .dealEmpty => some { x with pc := if x.dealQueue = [] then .relock else .alloc }
  -- a failed `new` goes round the loop with nothing popped
  | .alloc => some { x with pc := if ok then .popTs else .dealEmpty }
  | .popTs =>
    match x.dealTs with
    | [] => none
    | ts :: dealTs => some { x with dealTs := dealTs, pc := .process ts }
  | .getCas e => some { x with pc := .doOneOps e }
  | .doOneOps e => some { x with processed := x.processed ++ [e], pc := .dealEmpty }
  | .notifyCond | .process _ | .sleeping | .exited => none

/-- `cond.notify_all` on queue `q`. -/
def Call.notified (cfg : Config) (q : ℕ) (c : Call) : Call :=
  { c with pc := if c.pc = .waiting ∧ cfg.index c.op.name = q then .woken else c.pc }

/-- `ProcessOpReq` on the front of the deal queues. An exception that leaves it is caught by
nobody and ends the process: there is no state after it. -/
def OpQueue.process (x : OpQueue) (ts : UInt64) (k : ℕ) (rest : List ℕ) (p : UInt64)
    (ps : List UInt64) : ProcessResult → Option OpQueue
  | .accepted _ => some { x with dealQueue := rest, periodTs := ps, pc := .getCas ⟨k, ts, p⟩ }
  | .rejected .. =>
    some { x with
      dealQueue := rest
      periodTs := ps
      processed := x.processed ++ [⟨k, ts, p⟩]
      pc := .dealEmpty }
  | .threw => none

/-- `StopThread` -/
def State.stopper (cfg : Config) (s : State) : Option State :=
  match s.stop with
  | .idle | .done => none
  | .lock i =>
    if (s.queue i).lock = none then
      some { s.setQueue i { s.queue i with lock := some .stopper } with stop := .unlock i }
    else none
  | .unlock i => some { s.setQueue i { s.queue i with lock := none } with stop := .setFlag i }
  -- the flag is raised with the mutex released again
  | .setFlag i =>
    some { s with
      finishThread := Function.update s.finishThread i true
      stop := if i + 1 < cfg.queueNum then .lock (i + 1) else .notify 0 }
  | .notify i =>
    some { s.setQueue i (s.queue i).notify with
      stop := if i + 1 < cfg.queueNum then .notify (i + 1) else .join 0 }
  | .join i =>
    if (s.queue i).pc = .exited then
      some { s with stop := if i + 1 < cfg.queueNum then .join (i + 1) else .done }
    else none

def step (cfg : Config) (s : State) : Act → Option State
  | .call op ts => some { s with calls := s.calls ++ [{ op := op, ts := ts }] }
  | .dispatch k now =>
    match s.calls[k]? with
    | none => none
    | some c => s.dispatch cfg k c now
  | .wakeCall k =>
    match s.calls[k]? with
    | none => none
    | some c => if c.pc = .waiting then some (s.setCall k { c with pc := .woken }) else none
  | .handler q ok =>
    if q < cfg.queueNum then
      -- `notify_all` reaches the calls, everything else only the queue
      if (s.queue q).pc = .notifyCond then
        some { s.setQueue q { s.queue q with pc := .unlock } with
          calls := s.calls.map (Call.notified cfg q) }
      else ((s.queue q).handler (s.finishThread q) ok).map (s.setQueue q)
    else none
  | .process q readStatFlag =>
    match (s.queue q).pc, (s.queue q).dealQueue, (s.queue q).periodTs with
    | .process ts, k :: rest, p :: ps =>
      match s.calls[k]? with
      | none => none
      | some c =>
        ((s.queue q).process ts k rest p ps (processOpReq readStatFlag c.op)).map (s.setQueue q)
    | _, _, _ => none
  | .wakeHandler q =>
    if (s.queue q).pc = .sleeping then
      some (s.setQueue q { s.queue q with pc := .woken })
    else none
  | .stopBegin => if s.stop = .idle then some { s with stop := .lock 0 } else none
  | .stopper => s.stopper cfg

/-! ## What a step can do -/

/-- One step of `EnqueueClientop`: call `k` goes from `c` to `d` and its queue from `x` to `y`. -/
inductive Enqueue (queueMaxCapacity k : ℕ) (now : UInt64) (c : Call) (x : OpQueue) :
    Call → OpQueue → Prop
  | lock (hpc : c.pc = .lock) (hfree : x.lock = none) :
      Enqueue queueMaxCapacity k now c x { c with pc := .size }
        { x with lock := some (.dispatch k) }
  | wait (hpc : c.pc = .size) (hsize : queueMaxCapacity < x.reqQueue.length) :
      Enqueue queueMaxCapacity k now c x { c with pc := .waiting } { x with lock := none }
  | pass (hpc : c.pc = .size) (hsize : x.reqQueue.length ≤ queueMaxCapacity) :
      Enqueue queueMaxCapacity k now c x { c with period := now, pc := .pushReq } x
  | relock (hpc : c.pc = .woken) (hfree : x.lock = none) :
      Enqueue queueMaxCapacity k now c x { c with period := now, pc := .pushReq }
        { x with lock := some (.dispatch k) }
  | pushReq (hpc : c.pc = .pushReq) :
      Enqueue queueMaxCapacity k now c x { c with pc := .pushTs }
        { x with
          reqQueue := x.reqQueue ++ [k]
          enqueued := x.enqueued ++ [⟨k, c.ts, c.period⟩] }
  | pushTs (hpc : c.pc = .pushTs) :
      Enqueue queueMaxCapacity k now c x { c with pc := .pushPeriod }
        { x with tsQueue := x.tsQueue ++ [c.ts] }
  | pushPeriod (hpc : c.pc = .pushPeriod) :
      Enqueue queueMaxCapacity k now c x { c with pc := .notify }
        { x with period := x.period ++ [c.period] }
  | notify (hpc : c.pc = .notify) :
      Enqueue queueMaxCapacity k now c x { c with pc := .limitWrite } x.notify
  | limitWrite (hpc : c.pc = .limitWrite) :
      Enqueue queueMaxCapacity k now c x { c with pc := .returned } { x with lock := none }

/-- One step of an `OpHandlerThread` on its queue, with `finish` the flag it may test. -/
inductive Handle (finish : Bool) (x : OpQueue) : OpQueue → Prop
  | lock (hpc : x.pc = .start ∨ x.pc = .relock ∨ x.pc = .woken) (hfree : x.lock = none) :
      Handle finish x { x with lock := some .handler, pc := .test }
  | finish (hpc : x.pc = .test) (hfinish : finish = true) :
      Handle finish x { x with lock := none, pc := .exited }
  | goOn (hpc : x.pc = .test) (hfinish : finish = false) : Handle finish x { x with pc := .empty }
  | sleep (hpc : x.pc = .empty) (hnil : x.reqQueue = []) :
      Handle finish x { x with lock := none, pc := .sleeping }
  | swap (hpc : x.pc = .empty) (hne : x.reqQueue ≠ []) : Handle finish x { x with pc := .swapReq }
  | swapReq (hpc : x.pc = .swapReq) :
      Handle finish x
        { x with reqQueue := x.dealQueue, dealQueue := x.reqQueue, pc := .swapTs }
  | swapTs (hpc : x.pc = .swapTs) :
      Handle finish x { x with tsQueue := x.dealTs, dealTs := x.tsQueue, pc := .swapPeriod }
  | swapPeriod (hpc : x.pc = .swapPeriod) :
      Handle finish x { x with period := x.periodTs, periodTs := x.period, pc := .notifyCond }
  | notifyCond (hpc : x.pc = .notifyCond) : Handle finish x { x with pc := .unlock }
  | unlock (hpc : x.pc = .unlock) : Handle finish x { x with lock := none, pc := .dealEmpty }
  | dealt (hpc : x.pc = .dealEmpty) (hnil : x.dealQueue = []) :
      Handle finish x { x with pc := .relock }
  | next (hpc : x.pc = .dealEmpty) (hne : x.dealQueue ≠ []) :
      Handle finish x { x with pc := .alloc }
  | retry (hpc : x.pc = .alloc) : Handle finish x { x with pc := .dealEmpty }
  | allocated (hpc : x.pc = .alloc) : Handle finish x { x with pc := .popTs }
  | popTs {ts : UInt64} {rest : List UInt64} (hpc : x.pc = .popTs) (hts : x.dealTs = ts :: rest) :
      Handle finish x { x with dealTs := rest, pc := .process ts }
  | accepted {ts p : UInt64} {k : ℕ} {rest : List ℕ} {ps : List UInt64}
      (hpc : x.pc = .process ts) (hdeal : x.dealQueue = k :: rest)
      (hperiod : x.periodTs = p :: ps) :
      Handle finish x { x with dealQueue := rest, periodTs := ps, pc := .getCas ⟨k, ts, p⟩ }
  | rejected {ts p : UInt64} {k : ℕ} {rest : List ℕ} {ps : List UInt64}
      (hpc : x.pc = .process ts) (hdeal : x.dealQueue = k :: rest)
      (hperiod : x.periodTs = p :: ps) :
      Handle finish x
        { x with
          dealQueue := rest
          periodTs := ps
          processed := x.processed ++ [⟨k, ts, p⟩]
          pc := .dealEmpty }
  | getCas {e : Entry} (hpc : x.pc = .getCas e) : Handle finish x { x with pc := .doOneOps e }
  | doOneOps {e : Entry} (hpc : x.pc = .doOneOps e) :
      Handle finish x { x with processed := x.processed ++ [e], pc := .dealEmpty }
  | woken (hpc : x.pc = .sleeping) : Handle finish x { x with pc := .woken }

/-- One step of `StopThread`. -/
inductive Stop (cfg : Config) (s : State) : State → Prop
  | lock {i : ℕ} (hs : s.stop = .lock i) (hfree : (s.queue i).lock = none) :
      Stop cfg s { s.setQueue i { s.queue i with lock := some .stopper } with stop := .unlock i }
  | unlock {i : ℕ} (hs : s.stop = .unlock i) :
      Stop cfg s { s.setQueue i { s.queue i with lock := none } with stop := .setFlag i }
  | setFlag {i : ℕ} (hs : s.stop = .setFlag i) :
      Stop cfg s
        { s with
          finishThread := Function.update s.finishThread i true
          stop := if i + 1 < cfg.queueNum then .lock (i + 1) else .notify 0 }
  | notify {i : ℕ} (hs : s.stop = .notify i) :
      Stop cfg s
        { s.setQueue i (s.queue i).notify with
          stop := if i + 1 < cfg.queueNum then .notify (i + 1) else .join 0 }
  | join {i : ℕ} (hs : s.stop = .join i) (hexited : (s.queue i).pc = .exited) :
      Stop cfg s { s with stop := if i + 1 < cfg.queueNum then .join (i + 1) else .done }

/-- Every step, with its guards. -/
inductive Step (cfg : Config) (s : State) : Act → State → Prop
  | call {op : MOSDOp} {ts : UInt64} :
      Step cfg s (.call op ts) { s with calls := s.calls ++ [{ op := op, ts := ts }] }
  | dispatch {k q : ℕ} {now : UInt64} {c d : Call} {y : OpQueue} (hk : s.calls[k]? = some c)
      (hq : q = cfg.index c.op.name)
      (h : Enqueue cfg.queueMaxCapacity k now c (s.queue q) d y) :
      Step cfg s (.dispatch k now) ((s.setCall k d).setQueue q y)
  | wakeCall {k : ℕ} {c : Call} (hk : s.calls[k]? = some c) (hpc : c.pc = .waiting) :
      Step cfg s (.wakeCall k) (s.setCall k { c with pc := .woken })
  | handler {q : ℕ} {ok : Bool} {y : OpQueue} (h : Handle (s.finishThread q) (s.queue q) y) :
      Step cfg s (.handler q ok) (s.setQueue q y)
  | notifyCond {q : ℕ} {ok : Bool} {y : OpQueue} (h : Handle (s.finishThread q) (s.queue q) y) :
      Step cfg s (.handler q ok)
        { s.setQueue q y with calls := s.calls.map (Call.notified cfg q) }
  | process {q : ℕ} {readStatFlag : Bool} {y : OpQueue}
      (h : Handle (s.finishThread q) (s.queue q) y) :
      Step cfg s (.process q readStatFlag) (s.setQueue q y)
  | wakeHandler {q : ℕ} {y : OpQueue} (h : Handle (s.finishThread q) (s.queue q) y) :
      Step cfg s (.wakeHandler q) (s.setQueue q y)
  | stopBegin (hidle : s.stop = .idle) : Step cfg s .stopBegin { s with stop := .lock 0 }
  | stopper {t : State} (h : s.stopper cfg = some t) : Step cfg s .stopper t

section Inversion

variable {cfg : Config} {s t : State} {x y : OpQueue}

theorem dispatch_cases {k : ℕ} {c : Call} {now : UInt64} (hk : s.calls[k]? = some c)
    (h : s.dispatch cfg k c now = some t) : Step cfg s (.dispatch k now) t := by
  unfold State.dispatch at h
  simp only at h
  cases hpc : c.pc with
  | lock =>
    simp only [hpc] at h
    split_ifs at h with hfree
    exact Option.some.inj h ▸ .dispatch hk rfl (.lock hpc hfree)
  | size =>
    simp only [hpc] at h
    split_ifs at h with hsize
    · exact Option.some.inj h ▸ .dispatch hk rfl (.wait hpc hsize)
    · -- the queue is left as it is
      have hstep : Step cfg s (.dispatch k now) _ :=
        .dispatch hk rfl (.pass hpc (not_lt.mp hsize))
      simp only [State.setQueue, State.setCall, Function.update_eq_self] at hstep
      exact Option.some.inj h ▸ hstep
  | waiting => simp [hpc] at h
  | woken =>
    simp only [hpc] at h
    split_ifs at h with hfree
    exact Option.some.inj h ▸ .dispatch hk rfl (.relock hpc hfree)
  | pushReq =>
    simp only [hpc] at h
    exact Option.some.inj h ▸ .dispatch hk rfl (.pushReq hpc)
  | pushTs =>
    simp only [hpc] at h
    exact Option.some.inj h ▸ .dispatch hk rfl (.pushTs hpc)
  | pushPeriod =>
    simp only [hpc] at h
    exact Option.some.inj h ▸ .dispatch hk rfl (.pushPeriod hpc)
  | notify =>
    simp only [hpc] at h
    exact Option.some.inj h ▸ .dispatch hk rfl (.notify hpc)
  | limitWrite =>
    simp only [hpc] at h
    exact Option.some.inj h ▸ .dispatch hk rfl (.limitWrite hpc)
  | returned => simp [hpc] at h

theorem handler_cases {finish ok : Bool} (h : x.handler finish ok = some y) :
    Handle finish x y := by
  unfold OpQueue.handler at h
  cases hpc : x.pc with
  | start | relock | woken =>
    simp only [hpc] at h
    split_ifs at h with hfree
    exact Option.some.inj h ▸ .lock (by simp [hpc]) hfree
  | test =>
    simp only [hpc] at h
    split_ifs at h with hfinish
    · exact Option.some.inj h ▸ .finish hpc hfinish
    · exact Option.some.inj h ▸ .goOn hpc (Bool.not_eq_true _ ▸ hfinish)
  | empty =>
    simp only [hpc] at h
    split_ifs at h with hnil
    · exact Option.some.inj h ▸ .sleep hpc hnil
    · exact Option.some.inj h ▸ .swap hpc hnil
  | swapReq =>
    simp only [hpc] at h
    exact Option.some.inj h ▸ .swapReq hpc
  | swapTs =>
    simp only [hpc] at h
    exact Option.some.inj h ▸ .swapTs hpc
  | swapPeriod =>
    simp only [hpc] at h
    exact Option.some.inj h ▸ .swapPeriod hpc
  | unlock =>
    simp only [hpc] at h
    exact Option.some.inj h ▸ .unlock hpc
  | dealEmpty =>
    simp only [hpc, Option.some.injEq] at h
    subst h
    split_ifs with hnil
    · exact .dealt hpc hnil
    · exact .next hpc hnil
  | alloc =>
    simp only [hpc, Option.some.injEq] at h
    subst h
    cases ok with
    | true => exact .allocated hpc
    | false => exact .retry hpc
  | popTs =>
    simp only [hpc] at h
    split at h
    · -- `front()` of an empty queue is no step
      simp at h
    · rename_i ts rest hts
      exact Option.some.inj h ▸ .popTs hpc hts
  | getCas e =>
    simp only [hpc] at h
    exact Option.some.inj h ▸ .getCas hpc
  | doOneOps e =>
    simp only [hpc] at h
    exact Option.some.inj h ▸ .doOneOps hpc
  | _ => simp [hpc] at h

theorem process_cases {finish : Bool} {ts p : UInt64} {k : ℕ} {rest : List ℕ} {ps : List UInt64}
    {r : ProcessResult} (hpc : x.pc = .process ts) (hdeal : x.dealQueue = k :: rest)
    (hperiod : x.periodTs = p :: ps) (h : x.process ts k rest p ps r = some y) :
    Handle finish x y := by
  cases r with
  | accepted _ => exact Option.some.inj h ▸ .accepted hpc hdeal hperiod
  | rejected _ _ => exact Option.some.inj h ▸ .rejected hpc hdeal hperiod
  | threw => simp [OpQueue.process] at h

theorem stopper_cases (h : s.stopper cfg = some t) : Stop cfg s t := by
  unfold State.stopper at h
  cases hs : s.stop with
  | idle => simp [hs] at h
  | done => simp [hs] at h
  | lock i =>
    simp only [hs] at h
    split_ifs at h with hfree
    exact Option.some.inj h ▸ .lock hs hfree
  | unlock i =>
    simp only [hs] at h
    exact Option.some.inj h ▸ .unlock hs
  | setFlag i =>
    simp only [hs] at h
    exact Option.some.inj h ▸ .setFlag hs
  | notify i =>
    simp only [hs] at h
    exact Option.some.inj h ▸ .notify hs
  | join i =>
    simp only [hs] at h
    rw [Option.ite_none_right_eq_some] at h
    exact Option.some.inj h.2 ▸ .join hs h.1

/-- **Inversion.** -/
theorem step_cases {a : Act} (h : step cfg s a = some t) : Step cfg s a t := by
  cases a with
  | call op ts => exact Option.some.inj h ▸ .call
  | dispatch k now =>
    simp only [step] at h
    cases hk : s.calls[k]? with
    | none => simp [hk] at h
    | some c =>
      rw [hk] at h
      exact dispatch_cases hk h
  | wakeCall k =>
    simp only [step] at h
    cases hk : s.calls[k]? with
    | none => simp [hk] at h
    | some c =>
      simp only [hk] at h
      split_ifs at h with hpc
      exact Option.some.inj h ▸ .wakeCall hk hpc
  | handler q ok =>
    simp only [step] at h
    split_ifs at h with hq hpc
    · exact Option.some.inj h ▸ .notifyCond (.notifyCond hpc)
    · obtain ⟨y, hy, rfl⟩ := Option.map_eq_some_iff.mp h
      exact .handler (handler_cases hy)
  | process q readStatFlag =>
    simp only [step] at h
    split at h
    · rename_i ts k rest p ps hpc hdeal hperiod
      cases hk : s.calls[k]? with
      | none => simp [hk] at h
      | some c =>
        rw [hk] at h
        obtain ⟨y, hy, rfl⟩ := Option.map_eq_some_iff.mp h
        exact .process (process_cases hpc hdeal hperiod hy)
    · simp at h
  | wakeHandler q =>
    simp only [step] at h
    split_ifs at h with hpc
    exact Option.some.inj h ▸ .wakeHandler (.woken hpc)
  | stopBegin =>
    simp only [step] at h
    split_ifs at h with hidle
    exact Option.some.inj h ▸ .stopBegin hidle
  | stopper => exact .stopper h

end Inversion

end GcAdaptor.ClientOpQueue
