/-
The librados client the RBD calls share: `RadosInit`, `FastInitRados` and `RadosShutdown`
(`ceph_proxy/RbdWrapper.cc`).

Every RBD call is `RadosInit`, some use of the client, `RadosShutdown`. `RadosInit` takes the
lock twice: once to join a client that is there, and again, after a second look, to set one up.
Setting up can fail at every call, and the client is then shut down under the lock.

One step is one critical section, so what is between two steps is what another thread can see.
`shutdowns` records, for each `client.shutdown()`, how many other calls use the client.
`client_counted` is the invariant: `ref` is the number of calls that use the client, and it is
there exactly while there are some.
-/
import GcAdaptor.Interleave

set_option autoImplicit false

namespace GcAdaptor.RadosInit

open GcAdaptor.Interleave

/-! ## The calls -/

def RADOS_CONNECT_RETRY : ℕ := 5

/-- What a call of librados or of the configuration returns: zero or an error. -/
structure Ret where
  val : ℤ
  nonpos : val ≤ 0

/-- `init` sets up and `connect` connects the client. `ref` is an `int` and at most the number of
threads of the process. -/
structure ProxyCtx where
  initFlag : Bool := false
  ref : ℤ := 0
  connected : Bool := false

/-- What the calls of the second critical section return. `cephx` is whether `conf_get` reads
that word. -/
structure InitResults where
  init : Ret
  cephConfPath : Ret
  cephKeyringPath : Ret
  confReadFile : Ret
  confGet : Ret
  cephx : Bool
  keyring : Ret
  connect : ℕ → Ret

/-- What a critical section returns, leaves, and whether it has called `client.shutdown()`. -/
structure Section where
  ret : ℤ
  ctx : ProxyCtx
  shutdown : Bool := false

/-- The results of `conf_set` are only logged here. -/
def fastInitRados (ctx : ProxyCtx) : ProxyCtx :=
  if ctx.initFlag then { ctx with ref := ctx.ref + 1 } else ctx

def getCephPath (r : InitResults) : ℤ :=
  if r.cephConfPath.val ≠ 0 then r.cephConfPath.val
  else if r.cephKeyringPath.val ≠ 0 then r.cephKeyringPath.val
  else 0

/-- The loop of `connect`, with `left` tries to go. -/
def connectLoop (connect : ℕ → Ret) : ℕ → ℕ → ℤ → ℤ
  | 0, _, ret => ret
  | left + 1, retryCount, _ =>
    let ret := (connect retryCount).val
    if ret < 0 then connectLoop connect left (retryCount + 1) ret else ret

/-- `gProxyCtx.client.shutdown(); return ret;` -/
def shutdownClient (ret : ℤ) (ctx : ProxyCtx) : Section :=
  { ret := ret, ctx := { ctx with connected := false }, shutdown := true }

/-- The first critical section of `RadosInit`; it returns nothing where the second follows. -/
def radosInitFirst (ctx : ProxyCtx) : Option Section :=
  if ctx.initFlag then some { ret := 0, ctx := fastInitRados ctx } else none

/-- The end of the second critical section: `conf_set` for every entry, and `connect`. -/
def connectClient (r : InitResults) (confSet : List Ret) (ctx : ProxyCtx) : Section :=
  match confSet.find? (·.val < 0) with
  | some ret => shutdownClient ret.val ctx
  | none =>
    let ret := connectLoop r.connect RADOS_CONNECT_RETRY 0 0
    if ret < 0 then shutdownClient ret ctx
    else { ret := 0, ctx := { initFlag := true, ref := 0 + 1, connected := true } }

/-- The second critical section. `confSet` has the results for `conf_map`, in order. -/
def radosInitSecond (r : InitResults) (confSet : List Ret) (ctx : ProxyCtx) : Section :=
  if ctx.initFlag then { ret := 0, ctx := fastInitRados ctx }
  else if r.init.val ≠ 0 then { ret := r.init.val, ctx := ctx }
  else if getCephPath r ≠ 0 then shutdownClient (getCephPath r) ctx
  else if r.confReadFile.val ≠ 0 then shutdownClient r.confReadFile.val ctx
  else if r.confGet.val ≠ 0 then shutdownClient r.confGet.val ctx
  else if r.cephx ∧ r.keyring.val < 0 then shutdownClient r.keyring.val ctx
  else connectClient r confSet ctx

def radosShutdown (ctx : ProxyCtx) : Section :=
  let ctx := { ctx with ref := ctx.ref - 1 }
  if ctx.ref = 0 then
    { ret := 0, ctx := { ctx with connected := false, initFlag := false }, shutdown := true }
  else { ret := 0, ctx := ctx }

/-! ## The threads -/

/-- Where a thread is: in no RBD call, between the critical sections of `RadosInit`, or between
`RadosInit` and `RadosShutdown`. -/
inductive Phase
  | idle | between | using
  deriving DecidableEq

structure Proxy where
  ctx : ProxyCtx := {}
  threads : List Phase
  shutdowns : List ℕ := []

inductive Event
  | initFirst (i : ℕ)
  | initSecond (i : ℕ) (r : InitResults) (confSet : List Ret)
  | shutdown (i : ℕ)

def Phase.users : Phase → ℕ
  | .using => 1
  | _ => 0

/-- Thread `i` leaves a critical section for `phase`. -/
def leave (s : Proxy) (i : ℕ) (sec : Section) (phase : Phase) : Proxy where
  ctx := sec.ctx
  threads := s.threads.set i phase
  shutdowns :=
    if sec.shutdown then s.shutdowns ++ [total Phase.users (s.threads.set i .idle)]
    else s.shutdowns

def step (s : Proxy) : Event → Option Proxy
  | .initFirst i =>
    if s.threads[i]? = some .idle then
      match radosInitFirst s.ctx with
      | some sec => some (leave s i sec .using)
      | none => some { s with threads := s.threads.set i .between }
    else none
  | .initSecond i r confSet =>
    if s.threads[i]? = some .between then
      let sec := radosInitSecond r confSet s.ctx
      -- the caller goes on unless `ret < 0`
      some (leave s i sec (if sec.ret < 0 then .idle else .using))
    else none
  | .shutdown i =>
    if s.threads[i]? = some .using then some (leave s i (radosShutdown s.ctx) .idle) else none

/-- `n` threads and no client. -/
def start (n : ℕ) : Proxy := { threads := List.replicate n .idle }

/-! ## What a critical section does -/

theorem getCephPath_nonpos (r : InitResults) : getCephPath r ≤ 0 := by
  unfold getCephPath
  split_ifs
  · exact r.cephConfPath.nonpos
  · exact r.cephKeyringPath.nonpos
  · exact le_rfl

section Sections

variable {r : InitResults} {confSet : List Ret} {ctx : ProxyCtx}

/-- Without a client a critical section of `RadosInit` sets one up and counts its caller, or
fails and leaves none. -/
def SetsUp (ctx : ProxyCtx) (sec : Section) : Prop :=
  sec.ret < 0 ∧ sec.ctx = ctx ∨
    sec = { ret := 0, ctx := { initFlag := true, ref := 1, connected := true } }

theorem setsUp_shutdownClient (hconn : ctx.connected = false) {ret : ℤ} (h : ret < 0) :
    SetsUp ctx (shutdownClient ret ctx) := by
  refine .inl ⟨h, ?_⟩
  rw [shutdownClient, ← hconn]

theorem setsUp_connectClient (hconn : ctx.connected = false) :
    SetsUp ctx (connectClient r confSet ctx) := by
  unfold connectClient
  split
  · rename_i ret hfind
    have hret := List.find?_some hfind
    exact setsUp_shutdownClient hconn (of_decide_eq_true hret)
  · simp only
    split_ifs with hneg
    · exact setsUp_shutdownClient hconn hneg
    · exact .inr rfl

theorem setsUp_radosInitSecond (hflag : ctx.initFlag = false) (hconn : ctx.connected = false) :
    SetsUp ctx (radosInitSecond r confSet ctx) := by
  have hneg (x : Ret) (h : x.val ≠ 0) : x.val < 0 := lt_of_le_of_ne x.nonpos h
  unfold radosInitSecond
  rw [if_neg (by simp [hflag])]
  split_ifs with hinit hpath hread hget hkeyring
  · exact .inl ⟨hneg _ hinit, rfl⟩
  · exact setsUp_shutdownClient hconn (lt_of_le_of_ne (getCephPath_nonpos r) hpath)
  · exact setsUp_shutdownClient hconn (hneg _ hread)
  · exact setsUp_shutdownClient hconn (hneg _ hget)
  · exact setsUp_shutdownClient hconn hkeyring.2
  · exact setsUp_connectClient hconn

end Sections

/-! ## The invariant -/

/-- `ref` counts the calls that use the client, the client is there while there are some, and
none was shut down under another call. -/
structure Counted (s : Proxy) : Prop where
  ref_eq : s.ctx.ref = total Phase.users s.threads
  flag_iff : s.ctx.initFlag = true ↔ 0 < s.ctx.ref
  connected_eq : s.ctx.connected = s.ctx.initFlag
  quiet : ∀ n ∈ s.shutdowns, n = 0

section Run

variable {s t : Proxy} {e : Event} {i : ℕ} {phase : Phase} {sec : Section}

theorem Counted.start (n : ℕ) : Counted (start n) where
  ref_eq := by
    rw [total_eq_zero]
    · rfl
    · intro x hx
      rw [List.eq_of_mem_replicate hx]
      rfl
  flag_iff := by simp [RadosInit.start]
  connected_eq := rfl
  quiet := by simp [RadosInit.start]

/-- How the number of users changes where thread `i` moves. -/
theorem users_leave (h : s.threads[i]? = some phase) (sec : Section) (next : Phase) :
    total Phase.users (leave s i sec next).threads + phase.users =
      total Phase.users s.threads + next.users :=
  total_set h

/-- The calls other than that of thread `i`. -/
theorem users_others (h : s.threads[i]? = some phase) :
    total Phase.users (s.threads.set i .idle) + phase.users = total Phase.users s.threads :=
  total_set h

/-- A critical section that keeps the count keeps the invariant, if it shuts the client down
under no other call. -/
theorem Counted.leave (h : Counted s) (hi : s.threads[i]? = some phase) {next : Phase}
    (href : sec.ctx.ref + phase.users = s.ctx.ref + next.users)
    (hflag : sec.ctx.initFlag = true ↔ 0 < sec.ctx.ref)
    (hconn : sec.ctx.connected = sec.ctx.initFlag)
    (hquiet : sec.shutdown = true → total Phase.users s.threads = phase.users) :
    Counted (leave s i sec next) := by
  have husers := users_leave hi sec next
  have hothers := users_others hi
  have hcount := h.ref_eq
  refine ⟨?_, hflag, hconn, ?_⟩
  · show sec.ctx.ref = _
    omega
  · intro n hn
    unfold RadosInit.leave at hn
    simp only at hn
    split_ifs at hn with hshut
    · have := hquiet hshut
      rcases List.mem_append.mp hn with hn | hn
      · exact h.quiet n hn
      · rw [List.mem_singleton.mp hn]
        omega
    · exact h.quiet n hn

/-- A call joins the client that is there. -/
theorem Counted.join (h : Counted s) (hi : s.threads[i]? = some phase) (hphase : phase.users = 0)
    (hflag : s.ctx.initFlag = true) :
    Counted (RadosInit.leave s i { ret := 0, ctx := fastInitRados s.ctx } .using) := by
  have hpos := h.flag_iff.mp hflag
  refine h.leave hi ?_ ?_ ?_ (by simp)
  all_goals simp only [fastInitRados, if_pos hflag]
  · rw [hphase]
    simp [Phase.users]
  · exact iff_of_true hflag (by omega)
  · exact h.connected_eq

theorem Counted.ref_nonneg (h : Counted s) : 0 ≤ s.ctx.ref := by
  rw [h.ref_eq]
  exact Int.natCast_nonneg _

/-- There is no client, so no call uses one, and the second critical section sets one up or
fails. -/
theorem Counted.setUp (h : Counted s) (hi : s.threads[i]? = some .between)
    (hflag : s.ctx.initFlag = false) (hsec : SetsUp s.ctx sec) :
    Counted (RadosInit.leave s i sec (if sec.ret < 0 then .idle else .using)) := by
  have hzero : s.ctx.ref = 0 := by
    have hpos : ¬ 0 < s.ctx.ref := by
      rw [← h.flag_iff, hflag]
      simp
    have := h.ref_nonneg
    omega
  have hcount := h.ref_eq
  rcases hsec with ⟨hret, hctx⟩ | rfl
  · rw [if_pos hret]
    refine h.leave hi ?_ ?_ ?_ ?_
    · rw [hctx]
      rfl
    · rw [hctx]
      exact h.flag_iff
    · rw [hctx]
      exact h.connected_eq
    · intro _
      show _ = 0
      omega
  · rw [if_neg (lt_irrefl _)]
    refine h.leave hi ?_ (by simp) rfl (by simp)
    rw [hzero]
    rfl

/-- The last call shuts the client down. -/
theorem Counted.shutdown (h : Counted s) (hi : s.threads[i]? = some .using) :
    Counted (RadosInit.leave s i (radosShutdown s.ctx) .idle) := by
  have hcount := h.ref_eq
  have hothers := users_others hi
  have husers : Phase.users .using = 1 := rfl
  unfold radosShutdown
  simp only
  split_ifs with hlast
  · refine h.leave hi ?_ ?_ rfl ?_
    · simp [Phase.users]
    · simp [hlast]
    · intro _
      omega
  · have hflag : s.ctx.initFlag = true := h.flag_iff.mpr (by omega)
    refine h.leave hi ?_ ?_ h.connected_eq (by simp)
    · simp [Phase.users]
    · exact iff_of_true hflag (show 0 < s.ctx.ref - 1 by omega)

theorem Counted.step (h : Counted s) (hs : step s e = some t) : Counted t := by
  cases e with
  | initFirst i =>
    simp only [RadosInit.step] at hs
    split_ifs at hs with hi
    unfold radosInitFirst at hs
    split_ifs at hs with hflag
    · cases hs
      exact h.join hi rfl hflag
    · cases hs
      refine ⟨?_, h.flag_iff, h.connected_eq, h.quiet⟩
      have hsame : total Phase.users (s.threads.set i .between) = total Phase.users s.threads :=
        total_set_eq hi rfl
      show s.ctx.ref = total Phase.users (s.threads.set i .between)
      rw [hsame, h.ref_eq]
  | initSecond i r confSet =>
    by_cases hi : s.threads[i]? = some .between
    swap
    · rw [RadosInit.step, if_neg hi] at hs
      cases hs
    rw [RadosInit.step, if_pos hi] at hs
    cases hs
    -- another thread may have set the client up since the first look at the flag
    cases hflag : s.ctx.initFlag with
    | true =>
      have hfast : radosInitSecond r confSet s.ctx = { ret := 0, ctx := fastInitRados s.ctx } := by
        rw [radosInitSecond, if_pos hflag]
      rw [hfast, if_neg (lt_irrefl _)]
      exact h.join hi rfl hflag
    | false =>
      exact h.setUp hi hflag (setsUp_radosInitSecond hflag (h.connected_eq.trans hflag))
  | shutdown i =>
    simp only [RadosInit.step] at hs
    split_ifs at hs with hi
    cases hs
    exact h.shutdown hi

end Run

/-- Every call succeeds, and `connect` as given. -/
def connecting (connect : Ret) : InitResults where
  init := ⟨0, le_rfl⟩
  cephConfPath := ⟨0, le_rfl⟩
  cephKeyringPath := ⟨0, le_rfl⟩
  confReadFile := ⟨0, le_rfl⟩
  confGet := ⟨0, le_rfl⟩
  cephx := true
  keyring := ⟨0, le_rfl⟩
  connect _ := connect

/-- Two threads find no client; the first one cannot connect, the second one can, and the first
one joins it in a second call and stays when the second one leaves. -/
def twoCalls : List Event :=
  [.initFirst 0, .initFirst 1, .initSecond 0 (connecting ⟨-110, by decide⟩) [],
    .initSecond 1 (connecting ⟨0, le_rfl⟩) [⟨0, le_rfl⟩], .initFirst 0, .shutdown 1]

end GcAdaptor.RadosInit
