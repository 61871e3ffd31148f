/-
Telling CCM about the pools: `ProxyMsgr::RegisterPoolNotifyFn` and `PoolChangeNotify`
(`ceph_proxy/CephMsgr.cc`), `ClusterManagerAdaptor` (`ceph_proxy/CcmAdaptor.cc`).

The dispatcher handles one OSD map after the other and tells CCM the pools behind each. Threads
that register a function tell it the pools, too. Everybody takes a snapshot of the pools under the
lock of the map, and reports it without any lock.
-/
import GcAdaptor.OsdMap

set_option autoImplicit false

namespace GcAdaptor.PoolNotify

open GcAdaptor.Interleave GcAdaptor.OsdMap

/-! ## The threads -/

/-- Where a thread is in `PoolChangeNotify`. A snapshot has the number of the map it is of. -/
inductive Pc
  | snapshot
  | report (version : ℕ) (pools : List ℕ)
  | returned (ret : ℤ)

/-- A call of a registered function. The dispatcher is `none`. -/
structure Report where
  who : Option ℕ
  fn : ℕ
  version : ℕ
  pools : List ℕ

/-- `version` counts the maps `handle_osd_map` has taken; `registered` is how many reports there
were when `fn` was registered. -/
structure State (Map : Type) where
  msgr : ProxyMsgr Map
  version : ℕ := 0
  fn : Option ℕ := none
  dispatcher : Pc := .returned 0
  calls : List Pc := []
  told : List Report := []
  registered : ℕ := 0

/-- A pool with a number beyond 32 bits is skipped. -/
def createdPools (pools : List ℤ) : List ℕ :=
  (pools.filter (· ≤ 2 ^ 32 - 1)).map fun poolId => (poolId % 2 ^ 32).toNat

section Steps

variable {Map Full Inc : Type} (ops : MapOps Map Full Inc) (fsid : ℕ) (getPools : Map → List ℤ)

def State.pools (s : State Map) : List ℕ := createdPools (getPools s.msgr.osdmap)

/-- `none` is a null pointer. -/
def registerPoolCreateReportFn (fn : Option ℕ) (s : State Map) : ℤ × State Map :=
  match fn, s.fn with
  | none, _ => (0, { s with fn := none })
  | some _, some _ => (-1, s)
  | some f, none => (0, { s with fn := some f, registered := s.told.length })

/-- `allocated` is whether `malloc` succeeds, `rc` what the function returns. -/
def reportCreatePool (who : Option ℕ) (version : ℕ) (pools : List ℕ) (allocated : Bool) (rc : ℤ)
    (s : State Map) : ℤ × State Map :=
  if pools ≠ [] ∧ !allocated then (-1, s)
  else
    match s.fn with
    | none => (0, s)
    | some f => (if rc ≠ 0 then -1 else 0, { s with told := s.told ++ [⟨who, f, version, pools⟩] })

def State.pc (s : State Map) : Option ℕ → Option Pc
  | none => some s.dispatcher
  | some i => s.calls[i]?

def State.setPc (s : State Map) (pc : Pc) : Option ℕ → State Map
  | none => { s with dispatcher := pc }
  | some i => { s with calls := s.calls.set i pc }

inductive Label (Full Inc : Type)
  | osdMap (m : MOSDMap Full Inc)
  | register (fn : Option ℕ)
  | snapshot (who : Option ℕ)
  | report (who : Option ℕ) (allocated : Bool) (rc : ℤ)

/-- `handle_osd_map` is done with the message, or has it in the map. -/
def Ignored (m : MOSDMap Full Inc) (s : State Map) : Prop :=
  m.fsid ≠ fsid ∨ m.last ≤ ops.getEpoch s.msgr.osdmap

instance (m : MOSDMap Full Inc) (s : State Map) : Decidable (Ignored ops fsid m s) :=
  inferInstanceAs (Decidable (_ ∨ _))

def step (s : State Map) : Label Full Inc → Option (State Map)
  | .osdMap m =>
    match s.dispatcher, handleOsdMap ops m fsid s.msgr with
    | .returned _, some msgr =>
      if Ignored ops fsid m s then some { s with msgr := msgr }
      else some { s with msgr := msgr, version := s.version + 1, dispatcher := .snapshot }
    | _, _ => none
  | .register fn =>
    let (ret, s) := registerPoolCreateReportFn fn s
    some { s with calls := s.calls ++ [if ret ≠ 0 then .returned (-1) else .snapshot] }
  | .snapshot who =>
    match s.pc who with
    | some .snapshot => some (s.setPc (.report s.version (s.pools getPools)) who)
    | _ => none
  | .report who allocated rc =>
    match s.pc who with
    | some (.report version pools) =>
      let (ret, s) := reportCreatePool who version pools allocated rc s
      some (s.setPc (.returned (if ret ≠ 0 then -1 else 0)) who)
    | _ => none

/-- No report is lost for want of memory. -/
def Allocates (_ : State Map) : Label Full Inc → Prop
  | .report _ allocated _ => allocated = true
  | _ => True

def Pc.Returned : Pc → Prop
  | .returned _ => True
  | _ => False

instance : DecidablePred Pc.Returned
  | .snapshot => isFalse nofun
  | .report _ _ => isFalse nofun
  | .returned _ => isTrue trivial

/-- Nobody is on the way. -/
def AtRest (s : State Map) : Prop := s.dispatcher.Returned ∧ ∀ pc ∈ s.calls, pc.Returned

instance (s : State Map) : Decidable (AtRest s) := inferInstanceAs (Decidable (_ ∧ _))

end Steps

section Run

variable {Map Full Inc : Type} {ops : MapOps Map Full Inc} {fsid : ℕ} {getPools : Map → List ℤ}
variable {s t : State Map} {a : Label Full Inc} {who who' : Option ℕ} {pc : Pc}

/-! ## What a step does -/

/-- The steps, where every report finds memory. -/
inductive Moves (getPools : Map → List ℤ) (s : State Map) : Label Full Inc → State Map → Prop
  | ignored (m : MOSDMap Full Inc) (msgr : ProxyMsgr Map) (hmap : msgr.osdmap = s.msgr.osdmap) :
      Moves getPools s (.osdMap m) { s with msgr := msgr }
  | taken (m : MOSDMap Full Inc) (msgr : ProxyMsgr Map) (hrest : s.dispatcher.Returned) :
      Moves getPools s (.osdMap m)
        { s with msgr := msgr, version := s.version + 1, dispatcher := .snapshot }
  | refused (f : ℕ) (hfn : s.fn.isSome) :
      Moves getPools s (.register (some f)) { s with calls := s.calls ++ [.returned (-1)] }
  | unregistered :
      Moves getPools s (.register none) { s with fn := none, calls := s.calls ++ [.snapshot] }
  | registered (f : ℕ) (hfn : s.fn = none) :
      Moves getPools s (.register (some f)) { s with
        fn := some f, registered := s.told.length, calls := s.calls ++ [.snapshot] }
  | snapshot (who : Option ℕ) (hpc : s.pc who = some .snapshot) :
      Moves getPools s (.snapshot who)
        (s.setPc (.report s.version (s.pools getPools)) who)
  | unheard (who : Option ℕ) (rc : ℤ) (version : ℕ) (pools : List ℕ) (ret : ℤ)
      (hpc : s.pc who = some (.report version pools)) (hfn : s.fn = none) :
      Moves getPools s (.report who true rc) (s.setPc (.returned ret) who)
  | told (who : Option ℕ) (rc : ℤ) (f version : ℕ) (pools : List ℕ) (ret : ℤ)
      (hpc : s.pc who = some (.report version pools)) (hfn : s.fn = some f) :
      Moves getPools s (.report who true rc)
        (State.setPc { s with told := s.told ++ [⟨who, f, version, pools⟩] } (.returned ret) who)

theorem osdmap_of_ignored {m : MOSDMap Full Inc} {msgr : ProxyMsgr Map} (h : Ignored ops fsid m s)
    (hm : handleOsdMap ops m fsid s.msgr = some msgr) : msgr.osdmap = s.msgr.osdmap := by
  unfold handleOsdMap at hm
  split_ifs at hm with hfsid hlast hzero
  · rw [← Option.some.inj hm]
  · rw [← Option.some.inj hm]
    exact (resubscribe_same ops s.msgr).1
  · exact absurd h (not_or.mpr ⟨not_not.mpr (not_not.mp hfsid), hlast⟩)
  · exact absurd h (not_or.mpr ⟨not_not.mpr (not_not.mp hfsid), hlast⟩)

theorem moves_of_step (ha : Allocates s a) (h : step ops fsid getPools s a = some t) :
    Moves getPools s a t := by
  cases a with
  | osdMap m =>
    simp only [step] at h
    split at h
    · rename_i ret msgr hdispatcher hm
      split_ifs at h with hignored
      · rw [← Option.some.inj h]
        exact .ignored m msgr (osdmap_of_ignored hignored hm)
      · rw [← Option.some.inj h]
        refine .taken m msgr ?_
        rw [hdispatcher]
        trivial
    · cases h
  | register fn =>
    rcases fn with - | f
    · rw [← Option.some.inj h]
      exact .unregistered
    rcases hfn : s.fn with - | g
    · have hreg : registerPoolCreateReportFn (some f) s =
          (0, { s with fn := some f, registered := s.told.length }) := by
        simp only [registerPoolCreateReportFn, hfn]
      simp only [step, hreg] at h
      rw [← Option.some.inj h]
      exact .registered f hfn
    · have hreg : registerPoolCreateReportFn (some f) s = (-1, s) := by
        simp only [registerPoolCreateReportFn, hfn]
      simp only [step, hreg] at h
      rw [← Option.some.inj h]
      exact .refused f (by rw [hfn]; rfl)
  | snapshot who =>
    simp only [step] at h
    split at h
    · rename_i hpc
      rw [← Option.some.inj h]
      exact .snapshot who hpc
    · cases h
  | report who allocated rc =>
    obtain rfl : allocated = true := ha
    simp only [step] at h
    split at h
    · rename_i version pools hpc
      rcases hfn : s.fn with - | f
      · have hreport : reportCreatePool who version pools true rc s = (0, s) := by
          simp [reportCreatePool, hfn]
        simp only [hreport] at h
        rw [← Option.some.inj h]
        exact .unheard who rc version pools _ hpc hfn
      · have hreport : reportCreatePool who version pools true rc s = (if rc ≠ 0 then -1 else 0,
            { s with told := s.told ++ [⟨who, f, version, pools⟩] }) := by
          simp [reportCreatePool, hfn]
        simp only [hreport] at h
        rw [← Option.some.inj h]
        exact .told who rc f version pools _ hpc hfn
    · cases h

/-! ## Who has been told what -/

@[simp] theorem version_setPc : (s.setPc pc who).version = s.version := by cases who <;> rfl

@[simp] theorem fn_setPc : (s.setPc pc who).fn = s.fn := by cases who <;> rfl

@[simp] theorem told_setPc : (s.setPc pc who).told = s.told := by cases who <;> rfl

@[simp] theorem registered_setPc : (s.setPc pc who).registered = s.registered := by
  cases who <;> rfl

@[simp] theorem pools_setPc : (s.setPc pc who).pools getPools = s.pools getPools := by
  cases who <;> rfl

theorem pc_setPc_self {x : Pc} (h : s.pc who = some x) : (s.setPc pc who).pc who = some pc := by
  cases who with
  | none => rfl
  | some i => exact List.getElem?_set_self (List.getElem?_eq_some_iff.mp h).1

theorem pc_setPc_of_ne (h : who' ≠ who) : (s.setPc pc who).pc who' = s.pc who' := by
  cases who with
  | none =>
    cases who' with
    | none => exact absurd rfl h
    | some i => rfl
  | some i =>
    cases who' with
    | none => rfl
    | some j => exact List.getElem?_set_ne fun hij => h (congrArg some hij.symm)

theorem pc_setPc_cases {x : Pc} (h : (s.setPc pc who).pc who' = some x) :
    x = pc ∨ s.pc who' = some x := by
  by_cases hwho : who' = who
  · subst hwho
    cases who' with
    | none => exact .inl (Option.some.inj h).symm
    | some i =>
      rcases getElem?_set_cases h with ⟨-, rfl⟩ | ⟨-, h⟩
      · exact .inl rfl
      · exact .inr h
  · rw [pc_setPc_of_ne hwho] at h
    exact .inr h

/-- The function has been told the pools of the map that is there. -/
def Told (s : State Map) : Prop := ∃ r ∈ s.told.drop s.registered, r.version = s.version

/-- A thread that will report the pools of map `version`. -/
def Pc.Coming (version : ℕ) : Pc → Prop
  | .snapshot => True
  | .report v _ => v = version
  | .returned _ => False

/-- What holds in every state: what has been reported, and what is about to be, is the pools of the
map it is of; and a registered function has been told the pools there are, or will be. -/
structure Inv (getPools : Map → List ℤ) (s : State Map) : Prop where
  dispatcher : ∀ {v ps}, s.dispatcher = .report v ps → v = s.version
  current : ∀ {who v ps}, s.pc who = some (.report v ps) →
    v ≤ s.version ∧ (v = s.version → ps = s.pools getPools)
  told : ∀ r ∈ s.told, r.version ≤ s.version ∧ (r.version = s.version → r.pools = s.pools getPools)
  registered : s.registered ≤ s.told.length
  since : ∀ {f}, s.fn = some f → ∀ r ∈ s.told.drop s.registered, r.fn = f
  due : s.fn.isSome → Told s ∨ ∃ who pc, s.pc who = some pc ∧ pc.Coming s.version

theorem Inv.init : Inv getPools { msgr := { osdmap := ops.empty } } where
  dispatcher h := nomatch h
  current {who v ps} h := by
    cases who with
    | none => cases h
    | some i => cases h
  told := by simp
  registered := le_rfl
  since h := nomatch h
  due h := nomatch h

/-- A call that joins. -/
theorem Inv.join (hi : Inv getPools s) {fn : Option ℕ} {registered : ℕ}
    (hpc : ∀ v ps, pc ≠ .report v ps) (hregistered : registered ≤ s.told.length)
    (hsince : ∀ f, fn = some f → ∀ r ∈ s.told.drop registered, r.fn = f)
    (hdue : fn.isSome → pc = .snapshot ∨ fn = s.fn ∧ registered = s.registered) :
    Inv getPools { s with fn := fn, registered := registered, calls := s.calls ++ [pc] } where
  dispatcher := hi.dispatcher
  current {who v ps} h := by
    cases who with
    | none => exact hi.current (show s.pc none = some (.report v ps) from h)
    | some i =>
      rcases getElem?_concat_cases h with h | ⟨-, rfl⟩
      · exact hi.current (show s.pc (some i) = some (.report v ps) from h)
      · exact absurd rfl (hpc v ps)
  told := hi.told
  registered := hregistered
  since {f} h := hsince f h
  due h := by
    rcases hdue h with rfl | ⟨rfl, rfl⟩
    · exact .inr ⟨some s.calls.length, .snapshot, List.getElem?_concat_length, trivial⟩
    · rcases hi.due h with h | ⟨who, pc', h, hcoming⟩
      · exact .inl h
      · refine .inr ⟨who, pc', ?_, hcoming⟩
        cases who with
        | none => exact h
        | some i => exact getElem?_append_of_some h

/-- A thread that goes on. It was not the one to report, or it still is, or that is done. -/
theorem Inv.setPc (hi : Inv getPools s) {old : Pc} (hold : s.pc who = some old)
    (hnew : ∀ v ps, pc = .report v ps → v = s.version ∧ ps = s.pools getPools)
    (hdue : s.fn.isSome → Told s ∨ pc.Coming s.version ∨ ¬ old.Coming s.version) :
    Inv getPools (s.setPc pc who) := by
  constructor
  · intro v ps h
    rw [version_setPc]
    have hnone : (s.setPc pc who).pc none = some (.report v ps) := congrArg some h
    rcases pc_setPc_cases hnone with rfl | hsame
    · exact (hnew v ps rfl).1
    · exact hi.dispatcher (Option.some.inj hsame)
  · intro who' v ps h
    rw [version_setPc, pools_setPc]
    rcases pc_setPc_cases h with rfl | hsame
    · obtain ⟨rfl, rfl⟩ := hnew v ps rfl
      exact ⟨le_rfl, fun _ => rfl⟩
    · exact hi.current hsame
  · simpa using hi.told
  · simpa using hi.registered
  · simpa using @hi.since
  · rw [fn_setPc, version_setPc]
    intro hfn
    have htold : Told (s.setPc pc who) ↔ Told s := by simp [Told]
    rw [htold]
    rcases hdue hfn with h | hcoming | hnot
    · exact .inl h
    · exact .inr ⟨who, pc, pc_setPc_self hold, hcoming⟩
    · refine (hi.due hfn).imp_right ?_
      rintro ⟨who', pc', hpc', hcoming⟩
      have hne : who' ≠ who := by
        rintro rfl
        obtain rfl := Option.some.inj (hold.symm.trans hpc')
        exact hnot hcoming
      exact ⟨who', pc', by rwa [pc_setPc_of_ne hne], hcoming⟩

/-- The registered function hears of a snapshot. -/
theorem Inv.tell (hi : Inv getPools s) {f version : ℕ} {pools : List ℕ}
    (hpc : s.pc who = some (.report version pools)) (hfn : s.fn = some f) :
    Inv getPools { s with told := s.told ++ [⟨who, f, version, pools⟩] } := by
  have hdrop (r : Report) : (s.told ++ [r]).drop s.registered = s.told.drop s.registered ++ [r] :=
    List.drop_append_of_le_length hi.registered
  refine ⟨hi.dispatcher, hi.current, ?_, ?_, ?_, fun h => ?_⟩
  · intro r hr
    rcases List.mem_append.mp hr with hr | hr
    · exact hi.told r hr
    · rw [List.mem_singleton.mp hr]
      exact hi.current hpc
  · exact hi.registered.trans (by simp)
  · intro g hg r hr
    obtain rfl : f = g := Option.some.inj (hfn.symm.trans hg)
    rw [hdrop] at hr
    rcases List.mem_append.mp hr with hr | hr
    · exact hi.since hfn r hr
    · rw [List.mem_singleton.mp hr]
  · refine (hi.due h).imp ?_ id
    rintro ⟨r, hr, hversion⟩
    refine ⟨r, ?_, hversion⟩
    rw [hdrop]
    exact List.mem_append_left _ hr

theorem Inv.step (hi : Inv getPools s) (h : Moves getPools s a t) : Inv getPools t := by
  cases h with
  | ignored m msgr hmap =>
    have hpools : State.pools getPools { s with msgr := msgr } = s.pools getPools := by
      rw [State.pools, hmap, State.pools]
    have hpc (who : Option ℕ) : State.pc { s with msgr := msgr } who = s.pc who := by
      cases who <;> rfl
    refine ⟨hi.dispatcher, fun h => ?_, ?_, hi.registered, hi.since, fun h => ?_⟩
    · rw [hpools]
      exact hi.current ((hpc _).symm.trans h)
    · rw [hpools]
      exact hi.told
    · simp only [hpc]
      exact hi.due h
  | taken m msgr hrest =>
    -- what has been told, and what is on the way, is older than the new map
    have hnew {v : ℕ} {P : Prop} (h : v ≤ s.version) :
        v ≤ s.version + 1 ∧ (v = s.version + 1 → P) :=
      ⟨Nat.le_succ_of_le h, fun heq => absurd heq (Nat.ne_of_lt (Nat.lt_succ_of_le h))⟩
    constructor
    · exact fun {v ps} h => nomatch h
    · intro who v ps h
      cases who with
      | none => cases h
      | some i =>
        have hcall : s.pc (some i) = some (.report v ps) := h
        exact hnew (hi.current hcall).1
    · exact fun r hr => hnew (hi.told r hr).1
    · exact hi.registered
    · exact hi.since
    · exact fun _ => .inr ⟨none, .snapshot, rfl, trivial⟩
  | refused f hfn =>
    exact hi.join (fun _ _ => nofun) hi.registered (fun _ => hi.since) fun _ => .inr ⟨rfl, rfl⟩
  | unregistered =>
    exact hi.join (fun _ _ => nofun) hi.registered (fun _ => nofun) fun _ => .inl rfl
  | registered f hfn =>
    refine hi.join (fun _ _ => nofun) le_rfl (fun _ _ => ?_) fun _ => .inl rfl
    rw [List.drop_length]
    simp
  | snapshot who hpc =>
    refine hi.setPc hpc (fun v ps h => ?_) fun _ => .inr (.inl rfl)
    obtain ⟨rfl, rfl⟩ := Pc.report.inj h
    exact ⟨rfl, rfl⟩
  | unheard who rc version pools ret hpc hfn =>
    refine hi.setPc hpc (fun _ _ => nofun) fun h => ?_
    rw [hfn] at h
    cases h
  | told who rc f version pools ret hpc hfn =>
    have hpc' : State.pc { s with told := s.told ++ [⟨who, f, version, pools⟩] } who =
        some (.report version pools) := by
      rw [← hpc]
      cases who <;> rfl
    refine (hi.tell hpc hfn).setPc hpc' (fun _ _ => nofun) fun _ => ?_
    by_cases hversion : version = s.version
    · refine .inl ⟨⟨who, f, version, pools⟩, ?_, hversion⟩
      show _ ∈ (s.told ++ _).drop s.registered
      rw [List.drop_append_of_le_length hi.registered]
      exact List.mem_append_right _ (List.mem_singleton_self _)
    · exact .inr (.inr hversion)

theorem inv_of_reach
    (h : Reach (step ops fsid getPools) Allocates { msgr := { osdmap := ops.empty } } s) :
    Inv getPools s :=
  h.invariant .init fun _ _ _ hi hok hstep => hi.step (moves_of_step hok hstep)

end Run

/-- A map of `n` OSDs has the pools below `n`. -/
def poolsBelow (x : ℕ × ℕ) : List ℤ := (List.range x.2).map fun i => (i : ℤ)

/-- A function is registered; before its caller reports, a first map comes and is reported. -/
def overtaken : List (Label (ℕ × ℕ) (ℕ × ℕ)) :=
  [.register (some 5), .snapshot (some 0), .osdMap (growingMsg 7 [3] [] 1 3), .snapshot none,
    .report none true 0, .report (some 0) true 0]

section Run

variable {Map Full Inc : Type} {ops : MapOps Map Full Inc} {fsid : ℕ} {getPools : Map → List ℤ}
variable {s t : State Map} {a : Label Full Inc} {who : Option ℕ}

/-! ## Who has been told last -/

/-- While the dispatcher is at rest, the last that was reported to the registered function is the
map there is. -/
def UpToDate (s : State Map) : Prop :=
  s.fn.isSome → s.dispatcher.Returned →
    ∀ r, (s.told.drop s.registered).getLast? = some r → r.version = s.version

/-- A call that reports to a function has a snapshot of the map there is, or the dispatcher will
report after it. -/
def Timely (s : State Map) : Label Full Inc → Prop
  | .report (some i) _ _ =>
    s.fn.isSome → s.dispatcher.Returned → ∀ v ps, s.calls[i]? = some (.report v ps) → v = s.version
  | _ => True

theorem upToDate_tell (hi : Inv getPools s) {r : Report} (hfn : s.fn.isSome) (ret : ℤ) :
    UpToDate (State.setPc { s with told := s.told ++ [r] } (.returned ret) who) ↔
      ((State.setPc s (.returned ret) who).dispatcher.Returned → r.version = s.version) := by
  have hlast : ((s.told ++ [r]).drop s.registered).getLast? = some r := by
    rw [List.drop_append_of_le_length hi.registered, List.getLast?_concat]
  have hdispatcher : (State.setPc { s with told := s.told ++ [r] } (.returned ret) who).dispatcher =
      (State.setPc s (.returned ret) who).dispatcher := by
    cases who <;> rfl
  simp only [UpToDate, fn_setPc, told_setPc, registered_setPc, version_setPc, hlast, hdispatcher,
    hfn, Option.some.injEq, forall_true_left, forall_eq']

theorem upToDate_step (hi : Inv getPools s) (hq : UpToDate s) (h : Moves getPools s a t) :
    UpToDate t ↔ Timely s a := by
  cases h with
  | ignored m msgr hmap => exact iff_of_true hq trivial
  | taken m msgr hrest => exact iff_of_true (fun _ hreturned => nomatch hreturned) trivial
  | refused f hfn => exact iff_of_true hq trivial
  | unregistered => exact iff_of_true (fun hnone => nomatch hnone) trivial
  | registered f hfn =>
    refine iff_of_true (fun _ _ r hr => ?_) trivial
    rw [List.drop_length] at hr
    cases hr
  | snapshot who hpc =>
    refine iff_of_true ?_ trivial
    cases who with
    | none => exact fun _ hreturned => nomatch hreturned
    | some i => exact hq
  | unheard who rc version pools ret hpc hfn =>
    have hnone : ¬ s.fn.isSome := by rw [hfn]; exact nofun
    refine iff_of_true (fun h => ?_) ?_
    · rw [fn_setPc] at h
      exact absurd h hnone
    · cases who with
      | none => trivial
      | some i => exact fun h => absurd h hnone
  | told who rc f version pools ret hpc hfn =>
    have hsome : s.fn.isSome := by rw [hfn]; rfl
    rw [upToDate_tell hi hsome]
    cases who with
    | none =>
      -- the dispatcher's own snapshot: no map has come since
      exact iff_of_true (fun _ => hi.dispatcher (Option.some.inj hpc)) trivial
    | some i =>
      refine ⟨fun h _ hreturned v ps hv => ?_,
        fun h hreturned => h hsome hreturned version pools hpc⟩
      obtain ⟨rfl, -⟩ := Pc.report.inj (Option.some.inj (hpc.symm.trans hv))
      exact h hreturned

end Run

end GcAdaptor.PoolNotify
