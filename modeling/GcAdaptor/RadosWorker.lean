/-
The proxy's worker threads: `RadosWorker` and `RadosIOWorker`
(`ceph_proxy/RadosWorker.h`, `RadosWorker.cc`), the `Semaphore` they wait on
(`ceph_proxy/utils.h`) and `CephProxy::GetIoCtxWithClient`
(`ceph_proxy/CephProxy.cc`).

A caller of `RadosWorker::Queue` finds or creates the worker of its pool, puts
the request into the queue its object id hashes to and posts that queue's
semaphore. The handler of a queue waits, drains the queue and submits each
request through the client the proxy hands out. `Stop` raises the flag of one
worker after another, posts each of its semaphores once and joins its threads.

A call of `Queue` is one entry of `calls` and its position is the request's
name. Every access to shared memory is a step: the map lookups under
`ioworkersLock`, the queue operations under the queue's mutex, the two halves of
the semaphore, the test of the stop flag, `GetIoCtxWithClient` under the proxy's
mutex. `enqLog`, `ctxLog` and `handLog` record the order in which `Enqueue`,
`GetIoCtxWithClient` and the end of a request took effect.
-/
import GcAdaptor.Interleave
import GcAdaptor.LinkedQueue
import GcAdaptor.TwoLevelSem
import GcAdaptor.Wire

set_option autoImplicit false

namespace GcAdaptor.RadosWorker

open GcAdaptor.Wire GcAdaptor.Cxx GcAdaptor.Interleave GcAdaptor.LinkedQueue

/-! ## The state -/

/-- What is fixed when the proxy starts. `hash` is `std::hash<std::string>`. -/
structure Config where
  threadNum : ℕ
  threadNum_pos : 0 < threadNum
  hash : Bytes → UInt64
  /-- `clientNum` is `2 ^ clientBits`. -/
  clientBits : ℕ
  clientBits_lt : clientBits < 32

def Config.clientNum (cfg : Config) : ℕ := 2 ^ cfg.clientBits

/-- The queue an object id goes to. -/
def Config.index (cfg : Config) (objectId : Bytes) : ℕ :=
  (cfg.hash objectId).toUInt32.toNat % cfg.threadNum

/-- Handler `i` of worker `w`. -/
abbrev LaneId := ℕ × ℕ

/-- Where a call of `RadosWorker::Queue` is. -/
inductive CallPc
  | start
  | getIOWorker
  | createIOWorker
  /-- `new RequestCtx` -/
  | alloc (w : ℕ)
  | enqueue (w : ℕ)
  /-- `PostOne`: `count.fetch_add` -/
  | fetchAdd (l : LaneId)
  /-- `Sem::Post`: `++count` under the mutex -/
  | semPost (l : LaneId)
  /-- `cv.notify_one` -/
  | notify (l : LaneId)
  | returned (ret : ℤ)
  deriving DecidableEq

structure Call where
  poolId : ℤ
  objectId : Bytes
  pc : CallPc := .start

/-- Where a handler thread is. -/
inductive HandlerPc
  /-- `while (!ioworkerStop)` -/
  | test
  /-- `Wait`: `count.fetch_sub` -/
  | fetchSub
  /-- `Sem::Wait`, holding the mutex -/
  | semCheck
  /-- in `cv.wait` -/
  | asleep
  | dequeue
  /-- `GetIoCtxWithClient` for request `k` -/
  | getIoCtx (k : ℕ)
  /-- `RadosOperationAioOperate` for request `k` -/
  | aio (k client ioctx : ℕ)
  | exited
  deriving DecidableEq

/-- A queue, its semaphore and its handler. -/
structure Lane where
  queue : Fifo ℕ := .new
  count : ℤ := 0
  inner : ℕ := 0
  pc : HandlerPc := .test

/-- Where `RadosWorker::Stop` is: at worker `w`, with `rest` to come. -/
inductive StopPc
  | idle
  | setFlag (w : ℕ) (rest : List ℕ)
  | fetchAdd (w i : ℕ) (rest : List ℕ)
  | semPost (w i : ℕ) (rest : List ℕ)
  | notify (w i : ℕ) (rest : List ℕ)
  /-- `StopProc` -/
  | setFlagAgain (w : ℕ) (rest : List ℕ)
  | join (w i : ℕ) (rest : List ℕ)
  | delete (w : ℕ) (rest : List ℕ)
  | done
  deriving DecidableEq

/-- `Stop` is running, and holds `ioworkersLock` shared. -/
def StopPc.holdsLock : StopPc → Bool
  | .idle | .done => false
  | _ => true

/-- A finished call of `GetIoCtxWithClient`. -/
structure CtxEntry where
  call : ℕ
  client : ℕ
  ioctx : Option ℕ
  deriving DecidableEq

/-- How a request ended in its handler. -/
inductive Outcome
  /-- `fn(-ENOENT)`: there was no context -/
  | noIoCtx
  /-- `fn(ret)`: librados refused it -/
  | refused (client ioctx : ℕ) (ret : ℤ)
  /-- librados took it -/
  | accepted (client ioctx : ℕ)
  deriving DecidableEq

def Outcome.isAccepted : Outcome → Bool
  | .accepted .. => true
  | _ => false

structure Handed where
  call : ℕ
  lane : LaneId
  outcome : Outcome
  deriving DecidableEq

structure State where
  calls : List Call := []
  /-- the pool of every `RadosIOWorker` created so far, by its address -/
  workers : List ℤ := []
  ioWorkers : List (ℤ × ℕ) := []
  ioworkerStop : ℕ → Bool := fun _ => false
  deleted : ℕ → Bool := fun _ => false
  /-- fresh for every worker that does not exist yet -/
  lane : LaneId → Lane := fun _ => {}
  /-- `CephProxy::count` -/
  count : ℕ := 0
  pMap : List (ℤ × List (ℕ × ℕ)) := []
  stop : StopPc := .idle
  /-- the requests `Queue` had returned 0 for when `Stop` began -/
  stopSet : List ℕ := []
  enqLog : List (ℕ × LaneId) := []
  ctxLog : List CtxEntry := []
  handLog : List Handed := []

def State.setCall (s : State) (k : ℕ) (c : Call) : State := { s with calls := s.calls.set k c }

def State.setLane (s : State) (l : LaneId) (x : Lane) : State :=
  { s with lane := Function.update s.lane l x }

def ENOMEM : ℤ := 12

/-! ## Steps -/

inductive Act
  /-- a producer enters `RadosWorker::Queue` -/
  | call (poolId : ℤ) (objectId : Bytes)
  /-- the next step of call `k`; `ok` is the result of an allocation it makes -/
  | producer (k : ℕ) (ok : Bool)
  /-- the next step of a handler inside `OpHandler` and `Wait` -/
  | handler (l : LaneId)
  /-- a spurious wakeup -/
  | wake (l : LaneId)
  /-- `GetIoCtxWithClient`; `created` is what `RadosCreateIoCtx2` gives each client -/
  | getIoCtx (l : LaneId) (created : ℕ → Option ℕ)
  /-- `RadosOperationAioOperate` returns `ret` -/
  | aio (l : LaneId) (ret : ℤ)
  | stopBegin
  | stopper

/-- `notify_one` on a lane. -/
def Lane.notify (x : Lane) : Lane :=
  { x with pc := if x.pc = .asleep then .semCheck else x.pc }

/-- `RadosWorker::Queue` and `RadosIOWorker::Queue`. A step on a deleted worker has
no meaning and is not taken. -/
def State.producer (cfg : Config) (s : State) (k : ℕ) (c : Call) (ok : Bool) : Option State :=
  match c.pc with
  | .start =>
    some (s.setCall k { c with pc := if c.poolId < 0 then .returned (-1) else .getIOWorker })
  | .getIOWorker =>
    match s.ioWorkers.lookup c.poolId with
    | some w => some (s.setCall k { c with pc := .alloc w })
    | none => some (s.setCall k { c with pc := .createIOWorker })
  | .createIOWorker =>
    -- under the exclusive lock
    if s.stop.holdsLock then none
    else
      match s.ioWorkers.lookup c.poolId with
      -- another producer was here between the two lookups
      | some w => some (s.setCall k { c with pc := .alloc w })
      | none =>
        if ok then
          some { s.setCall k { c with pc := .alloc s.workers.length } with
            workers := s.workers ++ [c.poolId]
            ioWorkers := mapSet c.poolId s.workers.length s.ioWorkers }
        else some (s.setCall k { c with pc := .returned (-1) })
  | .alloc w =>
    some (s.setCall k { c with pc := if ok then .enqueue w else .returned (-ENOMEM) })
  | .enqueue w =>
    if s.deleted w then none
    else
      let l : LaneId := (w, cfg.index c.objectId)
      some { (s.setCall k { c with pc := .fetchAdd l }).setLane l
          { s.lane l with queue := (s.lane l).queue.enqueue k } with
        enqLog := s.enqLog ++ [(k, l)] }
  | .fetchAdd l =>
    if s.deleted l.1 then none
    else
      -- the caller goes on to the inner semaphore only if the count was negative
      some ((s.setCall k { c with
        pc := if (s.lane l).count < 0 then .semPost l else .returned 0 }).setLane l
          { s.lane l with count := int32 ((s.lane l).count + 1) })
  | .semPost l =>
    if s.deleted l.1 then none
    else
      some ((s.setCall k { c with pc := .notify l }).setLane l
        { s.lane l with inner := (s.lane l).inner + 1 })
  | .notify l =>
    if s.deleted l.1 then none
    else
      some ((s.setCall k { c with pc := .returned 0 }).setLane l (s.lane l).notify)
  | .returned _ => none

/-- `OpHandler` up to a dequeued request. -/
def Lane.handler (stopped : Bool) (x : Lane) : Option Lane :=
  match x.pc with
  | .test => some { x with pc := if stopped then .exited else .fetchSub }
  | .fetchSub =>
    some { x with
      count := int32 (x.count - 1)
      pc := if x.count < 1 then .semCheck else .dequeue }
  | .semCheck =>
    match x.inner with
    | 0 => some { x with pc := .asleep }
    | k + 1 => some { x with inner := k, pc := .dequeue }
  | .dequeue =>
    match x.queue.dequeue with
    -- the flag is looked at only when the queue was found empty
    | none => some { x with pc := .test }
    | some (k, q) => some { x with queue := q, pc := .getIoCtx k }
  | _ => none

/-- The thread exists. -/
def State.hasHandler (cfg : Config) (s : State) (l : LaneId) : Bool :=
  l.1 < s.workers.length && l.2 < cfg.threadNum

/-- `CephProxy::GetIoCtxWithClient`: the client, the context if there is one, and
the pool map after it. -/
def State.getIoCtxWithClient (cfg : Config) (s : State) (poolId : ℤ) (created : ℕ → Option ℕ) :
    ℕ × Option ℕ × List (ℤ × List (ℕ × ℕ)) :=
  -- `ioClientVec[cnt & vecMask]`: neither the pool nor the object plays a part
  let client := s.count &&& (cfg.clientNum - 1)
  match s.pMap.lookup poolId with
  | some tMap => (client, tMap.lookup client, s.pMap)
  | none =>
    match (List.range cfg.clientNum).mapM fun c => (created c).map fun ioctx => (c, ioctx) with
    -- one client without a context, and the pool gets none
    | none => (client, none, s.pMap)
    | some tMap => (client, tMap.lookup client, mapSet poolId tMap s.pMap)

/-- `GetIoCtxWithClient` in `OpHandler`, and the completion with `-ENOENT`. -/
def State.getIoCtx (cfg : Config) (s : State) (l : LaneId) (k : ℕ) (poolId : ℤ)
    (created : ℕ → Option ℕ) : State :=
  let r := s.getIoCtxWithClient cfg poolId created
  let s : State := { s with
    count := (s.count + 1) % 2 ^ 32
    pMap := r.2.2
    ctxLog := s.ctxLog ++ [⟨k, r.1, r.2.1⟩] }
  match r.2.1 with
  | none =>
    { s.setLane l { s.lane l with pc := .dequeue } with
      handLog := s.handLog ++ [⟨k, l, .noIoCtx⟩] }
  | some ioctx => s.setLane l { s.lane l with pc := .aio k r.1 ioctx }

/-- The end of a request in `OpHandler`. -/
def State.aio (s : State) (l : LaneId) (k client ioctx : ℕ) (ret : ℤ) : State :=
  { s.setLane l { s.lane l with pc := .dequeue } with
    handLog := s.handLog ++
      [⟨k, l, if ret < 0 then .refused client ioctx ret else .accepted client ioctx⟩] }

/-- The worker after `w` in `Stop`, or its end. -/
def nextWorker : List ℕ → StopPc
  | [] => .done
  | w :: rest => .setFlag w rest

/-- The next `PostOne` of `WaitForEmpty`. -/
def nextPost (cfg : Config) (w i : ℕ) (rest : List ℕ) : StopPc :=
  if i < cfg.threadNum then .fetchAdd w i rest else .setFlagAgain w rest

/-- The next `Join` of `StopProc`. -/
def nextJoin (cfg : Config) (w i : ℕ) (rest : List ℕ) : StopPc :=
  if i < cfg.threadNum then .join w i rest else .delete w rest

/-- `RadosWorker::Stop` with `WaitForEmpty` and `StopProc`. -/
def State.stopper (cfg : Config) (s : State) : Option State :=
  match s.stop with
  | .idle | .done => none
  | .setFlag w rest =>
    -- `WaitForEmpty` raises the flag first and does not look at the queues
    some { s with
      ioworkerStop := Function.update s.ioworkerStop w true
      stop := nextPost cfg w 0 rest }
  | .fetchAdd w i rest =>
    some { s.setLane (w, i) { s.lane (w, i) with count := int32 ((s.lane (w, i)).count + 1) } with
      stop := if (s.lane (w, i)).count < 0 then .semPost w i rest
        else nextPost cfg w (i + 1) rest }
  | .semPost w i rest =>
    some { s.setLane (w, i) { s.lane (w, i) with inner := (s.lane (w, i)).inner + 1 } with
      stop := .notify w i rest }
  | .notify w i rest =>
    some { s.setLane (w, i) (s.lane (w, i)).notify with stop := nextPost cfg w (i + 1) rest }
  | .setFlagAgain w rest =>
    some { s with
      ioworkerStop := Function.update s.ioworkerStop w true
      stop := nextJoin cfg w 0 rest }
  | .join w i rest =>
    if (s.lane (w, i)).pc = .exited then some { s with stop := nextJoin cfg w (i + 1) rest }
    else none
  | .delete w rest =>
    -- whatever is still in its queues goes with it
    some { s with
      deleted := Function.update s.deleted w true
      ioWorkers := if rest = [] then [] else s.ioWorkers
      stop := nextWorker rest }

/-- The requests `Queue` has returned 0 for. -/
def State.returnedIds (s : State) : List ℕ :=
  (List.range s.calls.length).filter fun k =>
    (s.calls[k]?).any fun c => decide (c.pc = .returned 0)

def step (cfg : Config) (s : State) : Act → Option State
  | .call poolId objectId =>
    some { s with calls := s.calls ++ [{ poolId := poolId, objectId := objectId }] }
  | .producer k ok =>
    match s.calls[k]? with
    | none => none
    | some c => s.producer cfg k c ok
  | .handler l =>
    if s.hasHandler cfg l then
      ((s.lane l).handler (s.ioworkerStop l.1)).map (s.setLane l)
    else none
  | .wake l =>
    if s.hasHandler cfg l && decide ((s.lane l).pc = .asleep) then
      some (s.setLane l { s.lane l with pc := .semCheck })
    else none
  | .getIoCtx l created =>
    match (s.lane l).pc with
    | .getIoCtx k =>
      match s.calls[k]? with
      | none => none
      | some c => some (s.getIoCtx cfg l k c.poolId created)
    | _ => none
  | .aio l ret =>
    match (s.lane l).pc with
    | .aio k client ioctx =>
      -- librados returns 0 or a negative error
      if ret ≤ 0 then some (s.aio l k client ioctx ret) else none
    | _ => none
  | .stopBegin =>
    if s.stop = .idle then
      some { s with stop := nextWorker (s.ioWorkers.map (·.2)), stopSet := s.returnedIds }
    else none
  | .stopper => s.stopper cfg

/-! ## What a step can do -/

/-- The steps of a call up to its `Enqueue` that change nothing else. -/
inductive Early (s : State) (c : Call) : CallPc → Prop
  | invalid (h : c.pc = .start) : Early s c (.returned (-1))
  | valid (h : c.pc = .start) : Early s c .getIOWorker
  | found {w : ℕ} (h : c.pc = .getIOWorker ∨ c.pc = .createIOWorker)
      (hw : s.ioWorkers.lookup c.poolId = some w) : Early s c (.alloc w)
  | missing (h : c.pc = .getIOWorker) : Early s c .createIOWorker
  | failed (h : c.pc = .createIOWorker) : Early s c (.returned (-1))
  | allocated {w : ℕ} (h : c.pc = .alloc w) : Early s c (.enqueue w)
  | noMemory {w : ℕ} (h : c.pc = .alloc w) : Early s c (.returned (-ENOMEM))

/-- Every step, with its guards. -/
inductive Step (cfg : Config) (s : State) : Act → State → Prop
  | call {poolId : ℤ} {objectId : Bytes} :
      Step cfg s (.call poolId objectId)
        { s with calls := s.calls ++ [{ poolId := poolId, objectId := objectId }] }
  | early {k : ℕ} {c : Call} {ok : Bool} {pc : CallPc} (hk : s.calls[k]? = some c)
      (h : Early s c pc) : Step cfg s (.producer k ok) (s.setCall k { c with pc := pc })
  | create {k : ℕ} {c : Call} {ok : Bool} (hk : s.calls[k]? = some c)
      (hpc : c.pc = .createIOWorker) (hlock : s.stop.holdsLock = false)
      (hnone : s.ioWorkers.lookup c.poolId = none) :
      Step cfg s (.producer k ok)
        { s.setCall k { c with pc := .alloc s.workers.length } with
          workers := s.workers ++ [c.poolId]
          ioWorkers := mapSet c.poolId s.workers.length s.ioWorkers }
  | enqueue {k : ℕ} {c : Call} {ok : Bool} {w : ℕ} {l : LaneId} (hk : s.calls[k]? = some c)
      (hpc : c.pc = .enqueue w) (hl : l = (w, cfg.index c.objectId))
      (hdel : s.deleted w = false) :
      Step cfg s (.producer k ok)
        { (s.setCall k { c with pc := .fetchAdd l }).setLane l
            { s.lane l with queue := (s.lane l).queue.enqueue k } with
          enqLog := s.enqLog ++ [(k, l)] }
  | fetchAdd {k : ℕ} {c : Call} {ok : Bool} {l : LaneId} (hk : s.calls[k]? = some c)
      (hpc : c.pc = .fetchAdd l) :
      Step cfg s (.producer k ok)
        ((s.setCall k { c with
          pc := if (s.lane l).count < 0 then .semPost l else .returned 0 }).setLane l
            { s.lane l with count := int32 ((s.lane l).count + 1) })
  | semPost {k : ℕ} {c : Call} {ok : Bool} {l : LaneId} (hk : s.calls[k]? = some c)
      (hpc : c.pc = .semPost l) :
      Step cfg s (.producer k ok)
        ((s.setCall k { c with pc := .notify l }).setLane l
          { s.lane l with inner := (s.lane l).inner + 1 })
  | notify {k : ℕ} {c : Call} {ok : Bool} {l : LaneId} (hk : s.calls[k]? = some c)
      (hpc : c.pc = .notify l) :
      Step cfg s (.producer k ok)
        ((s.setCall k { c with pc := .returned 0 }).setLane l (s.lane l).notify)
  | handler {l : LaneId} {x : Lane} (hl : s.hasHandler cfg l = true)
      (hx : (s.lane l).handler (s.ioworkerStop l.1) = some x) :
      Step cfg s (.handler l) (s.setLane l x)
  | wake {l : LaneId} (hpc : (s.lane l).pc = .asleep) :
      Step cfg s (.wake l) (s.setLane l { s.lane l with pc := .semCheck })
  | getIoCtx {l : LaneId} {created : ℕ → Option ℕ} {k : ℕ} {c : Call}
      (hpc : (s.lane l).pc = .getIoCtx k) (hk : s.calls[k]? = some c) :
      Step cfg s (.getIoCtx l created) (s.getIoCtx cfg l k c.poolId created)
  | aio {l : LaneId} {ret : ℤ} {k client ioctx : ℕ} (hpc : (s.lane l).pc = .aio k client ioctx) :
      Step cfg s (.aio l ret) (s.aio l k client ioctx ret)
  | stopBegin (hidle : s.stop = .idle) :
      Step cfg s .stopBegin
        { s with stop := nextWorker (s.ioWorkers.map (·.2)), stopSet := s.returnedIds }
  | stopper {t : State} (h : s.stopper cfg = some t) : Step cfg s .stopper t

theorem producer_cases {cfg : Config} {s t : State} {k : ℕ} {c : Call} {ok : Bool}
    (hk : s.calls[k]? = some c) (h : s.producer cfg k c ok = some t) :
    Step cfg s (.producer k ok) t := by
  cases hpc : c.pc with
  | start =>
    simp only [State.producer, hpc, Option.some.injEq] at h
    subst h
    split_ifs
    · exact .early hk (.invalid hpc)
    · exact .early hk (.valid hpc)
  | getIOWorker =>
    simp only [State.producer, hpc] at h
    cases hw : s.ioWorkers.lookup c.poolId with
    | none =>
      simp only [hw, Option.some.injEq] at h
      exact h ▸ .early hk (.missing hpc)
    | some w =>
      simp only [hw, Option.some.injEq] at h
      exact h ▸ .early hk (.found (.inl hpc) hw)
  | createIOWorker =>
    -- under the mutex the map is looked at again
    by_cases hlock : s.stop.holdsLock = true
    · simp [State.producer, hpc, hlock] at h
    · rw [Bool.not_eq_true] at hlock
      cases hw : s.ioWorkers.lookup c.poolId with
      | some w =>
        simp only [State.producer, hpc, hlock, hw, Bool.false_eq_true, if_false,
          Option.some.injEq] at h
        exact h ▸ .early hk (.found (.inr hpc) hw)
      | none =>
        simp only [State.producer, hpc, hlock, hw, Bool.false_eq_true, if_false] at h
        split_ifs at h
        · exact Option.some.inj h ▸ .create hk hpc hlock hw
        · exact Option.some.inj h ▸ .early hk (.failed hpc)
  | alloc w =>
    simp only [State.producer, hpc, Option.some.injEq] at h
    subst h
    split_ifs
    · exact .early hk (.allocated hpc)
    · exact .early hk (.noMemory hpc)
  | enqueue w =>
    simp only [State.producer, hpc] at h
    split_ifs at h with hdel
    exact Option.some.inj h ▸ .enqueue hk hpc rfl (by simpa using hdel)
  | fetchAdd l =>
    by_cases hdel : s.deleted l.1 = true
    · simp [State.producer, hpc, hdel] at h
    · simp only [State.producer, hpc, hdel, Bool.false_eq_true, if_false] at h
      exact Option.some.inj h ▸ .fetchAdd hk hpc
  | semPost l =>
    simp only [State.producer, hpc] at h
    split_ifs at h
    exact Option.some.inj h ▸ .semPost hk hpc
  | notify l =>
    simp only [State.producer, hpc] at h
    split_ifs at h
    exact Option.some.inj h ▸ .notify hk hpc
  | returned ret => simp [State.producer, hpc] at h

/-- **Inversion.** -/
theorem step_cases {cfg : Config} {s t : State} {a : Act} (h : step cfg s a = some t) :
    Step cfg s a t := by
  cases a with
  | call poolId objectId => exact Option.some.inj h ▸ .call
  | producer k ok =>
    simp only [step] at h
    cases hk : s.calls[k]? with
    | none => simp [hk] at h
    | some c =>
      rw [hk] at h
      exact producer_cases hk h
  | handler l =>
    simp only [step] at h
    split_ifs at h with hl
    obtain ⟨x, hx, rfl⟩ := Option.map_eq_some_iff.mp h
    exact .handler hl hx
  | wake l =>
    simp only [step] at h
    split_ifs at h with hl
    simp only [Bool.and_eq_true, decide_eq_true_eq] at hl
    exact Option.some.inj h ▸ .wake hl.2
  | getIoCtx l created =>
    simp only [step] at h
    cases hpc : (s.lane l).pc with
    | getIoCtx k =>
      simp only [hpc] at h
      cases hk : s.calls[k]? with
      | none => simp [hk] at h
      | some c =>
        simp only [hk, Option.some.injEq] at h
        exact h ▸ .getIoCtx hpc hk
    | _ => simp [hpc] at h
  | aio l ret =>
    simp only [step] at h
    cases hpc : (s.lane l).pc with
    | aio k client ioctx =>
      simp only [hpc] at h
      split_ifs at h
      exact Option.some.inj h ▸ .aio hpc
    | _ => simp [hpc] at h
  | stopBegin =>
    simp only [step] at h
    split_ifs at h with hidle
    exact Option.some.inj h ▸ .stopBegin hidle
  | stopper => exact .stopper h

end GcAdaptor.RadosWorker
