/-
The OSD map the proxy holds: `ProxyMsgr::handle_osd_map`, `InitOsdMap`, `UpdateOSDMap` and
`RenewOSDMap` (`ceph_proxy/CephMsgr.cc`).

A message carries full maps and increments of some epochs, the oldest epoch the monitor still
has, and its own last epoch. `UpdateOSDMap` walks from the epoch after the one it holds to the
last one: it applies an increment to its predecessor, replaces the map by a full one, asks
again for what is missing, or skips to the oldest epoch by assigning the loop variable.

`OSDMap` and the messages are Ceph's own: `MapOps` is what the code calls of the one, and
`Drawn` is what a message of the cluster's history promises. Epochs are 32-bit words and every
step on them wraps; the loop is run on fuel and proved to end. `osdmap_tracks_history` is about
the maps, `subscription_outstanding` about the requests for more.
-/
import GcAdaptor.Cxx
import GcAdaptor.Interleave

set_option autoImplicit false

namespace GcAdaptor.OsdMap

open GcAdaptor.Cxx GcAdaptor.Interleave

/-! ## Maps and messages -/

/-- What `ProxyMsgr` calls of `OSDMap`. `decode` fills a map that is there; `paused` is
`test_flag(CEPH_OSDMAP_PAUSERD) || test_flag(CEPH_OSDMAP_PAUSEWR)`. -/
structure MapOps (Map Full Inc : Type) where
  /-- `new OSDMap` -/
  empty : Map
  getEpoch : Map → ℕ
  decode : Map → Full → Map
  applyIncremental : Map → Inc → Map
  paused : Map → Bool

/-- `MOSDMap`; `oldest` and `last` are what `get_oldest()` and `get_last()` return. -/
structure MOSDMap (Full Inc : Type) where
  fsid : ℕ
  maps : ℕ → Option Full
  incrementalMaps : ℕ → Option Inc
  oldest : ℕ
  last : ℕ

/-- Calls of the monitor client: `sub_want` with its flag, followed by `renew_subs`, and
`sub_got`. -/
inductive SubCall
  | want (epoch : ℕ) (onetime : Bool)
  | got (epoch : ℕ)
  deriving DecidableEq

/-- `applied` records each increment with the map it was applied to. -/
structure ProxyMsgr (Map : Type) where
  osdmap : Map
  needSubContinuous : Bool := true
  subs : List SubCall := []
  applied : List (Map × ℕ) := []

section Handlers

variable {Map Full Inc : Type} (ops : MapOps Map Full Inc) (m : MOSDMap Full Inc)

def renewOSDMap (e : ℕ) (s : ProxyMsgr Map) : ProxyMsgr Map :=
  let needSubOnce := !(s.needSubContinuous || ops.paused s.osdmap)
  { s with subs := s.subs ++ [.want e needSubOnce] }

/-- `osdmap->get_epoch() ? osdmap->get_epoch() + 1 : 0` -/
def nextEpoch (s : ProxyMsgr Map) : ℕ :=
  if ops.getEpoch s.osdmap = 0 then 0 else add32 (ops.getEpoch s.osdmap) 1

/-- `if (!needSubContinuous) { needSubContinuous = true; RenewOSDMap(..); }` -/
def resubscribe (s : ProxyMsgr Map) : ProxyMsgr Map :=
  if s.needSubContinuous then s
  else
    let s := { s with needSubContinuous := true }
    renewOSDMap ops (nextEpoch ops s) s

/-- The loop of `UpdateOSDMap` at epoch `e`; `none` out of fuel. The flag is set where it ends
by missing maps. -/
def updateLoop : ℕ → ℕ → ProxyMsgr Map → Option (Bool × ProxyMsgr Map)
  | 0, _, _ => none
  | fuel + 1, e, s =>
    if e ≤ m.last then
      match if e = add32 (ops.getEpoch s.osdmap) 1 then m.incrementalMaps e else none,
        m.maps e with
      | some inc, _ =>
        updateLoop fuel (add32 e 1)
          { s with
            osdmap := ops.applyIncremental s.osdmap inc
            applied := s.applied ++ [(s.osdmap, e)] }
      | none, some bl =>
        updateLoop fuel (add32 e 1) { s with osdmap := ops.decode ops.empty bl }
      | none, none =>
        if m.oldest ≤ e then some (true, s)
        -- `e = m->get_oldest() - 1; continue`, and the loop's own `e++`
        else updateLoop fuel (add32 (sub32 m.oldest 1) 1) s
    else some (false, s)

/-- More iterations than there are epochs. -/
def updateFuel : ℕ := 2 ^ 32

def updateOSDMap (s : ProxyMsgr Map) : Option (ProxyMsgr Map) :=
  (updateLoop ops m updateFuel (add32 (ops.getEpoch s.osdmap) 1) s).map fun
    | (true, s) =>
      let s := { s with needSubContinuous := false }
      renewOSDMap ops (nextEpoch ops s) s
    | (false, s) => resubscribe ops s

def initOsdMap (s : ProxyMsgr Map) : ProxyMsgr Map :=
  match m.maps m.last with
  | some bl => resubscribe ops { s with osdmap := ops.decode s.osdmap bl }
  | none => renewOSDMap ops 0 { s with needSubContinuous := false }

def subGot (s : ProxyMsgr Map) : ProxyMsgr Map :=
  { s with subs := s.subs ++ [.got (ops.getEpoch s.osdmap)] }

/-- `fsid` is that of the cluster the proxy is connected to. -/
def handleOsdMap (fsid : ℕ) (s : ProxyMsgr Map) : Option (ProxyMsgr Map) :=
  if m.fsid ≠ fsid then some s
  else if m.last ≤ ops.getEpoch s.osdmap then some (subGot ops (resubscribe ops s))
  else if ops.getEpoch s.osdmap = 0 then some (subGot ops (initOsdMap ops m s))
  else (updateOSDMap ops m s).map (subGot ops)

end Handlers

/-! ## One history -/

/-- `M e` is the map of epoch `e`. -/
structure History {Map Full Inc : Type} (ops : MapOps Map Full Inc) (M : ℕ → Map) : Prop where
  empty_epoch : ops.getEpoch ops.empty = 0
  epoch_eq : ∀ e, ops.getEpoch (M e) = e

/-- A message of the history: what it carries for an epoch is that epoch's, its last epoch is
one it carries, and none is before the oldest. -/
structure Drawn {Map Full Inc : Type} (ops : MapOps Map Full Inc) (M : ℕ → Map)
    (m : MOSDMap Full Inc) : Prop where
  full : ∀ {e bl}, m.maps e = some bl → ∀ old, ops.decode old bl = M e
  inc : ∀ {e x}, m.incrementalMaps e = some x → 0 < e ∧ ops.applyIncremental (M (e - 1)) x = M e
  oldest_le : ∀ {e}, (m.maps e).isSome ∨ (m.incrementalMaps e).isSome → m.oldest ≤ e
  last_carried : m.last ≠ 0 → (m.maps m.last).isSome ∨ (m.incrementalMaps m.last).isSome
  last_lt : m.last < 2 ^ 32 - 1

/-- What holds of the proxy after every message. -/
structure Tracks {Map Full Inc : Type} (ops : MapOps Map Full Inc) (M : ℕ → Map)
    (s : ProxyMsgr Map) : Prop where
  held : s.osdmap = ops.empty ∨ s.osdmap = M (ops.getEpoch s.osdmap)
  epoch_lt : ops.getEpoch s.osdmap < 2 ^ 32 - 1
  applied : ∀ p ∈ s.applied, 0 < p.2 ∧ p.1 = M (p.2 - 1)

section Run

variable {Map Full Inc : Type} {ops : MapOps Map Full Inc} {M : ℕ → Map} {m : MOSDMap Full Inc}
variable {s t : ProxyMsgr Map}

theorem Tracks.init (hM : History ops M) : Tracks ops M { osdmap := ops.empty } where
  held := .inl rfl
  epoch_lt := by
    rw [hM.empty_epoch]
    decide
  applied := by simp

/-- The bookkeeping of subscriptions does not touch the map. -/
theorem Tracks.congr (h : Tracks ops M s) (hmap : t.osdmap = s.osdmap)
    (happ : t.applied = s.applied) : Tracks ops M t := by
  constructor
  · rw [hmap]
    exact h.held
  · rw [hmap]
    exact h.epoch_lt
  · rw [happ]
    exact h.applied

theorem resubscribe_same (ops : MapOps Map Full Inc) (s : ProxyMsgr Map) :
    (resubscribe ops s).osdmap = s.osdmap ∧ (resubscribe ops s).applied = s.applied := by
  unfold resubscribe renewOSDMap
  split_ifs <;> exact ⟨rfl, rfl⟩

/-- A map of the history in place of the one held. -/
theorem Tracks.replace (hM : History ops M) (h : Tracks ops M s) {e : ℕ} (he : e < 2 ^ 32 - 1)
    (hmap : t.osdmap = M e) (happ : t.applied = s.applied) : Tracks ops M t := by
  constructor
  · right
    rw [hmap, hM.epoch_eq]
  · rw [hmap, hM.epoch_eq]
    exact he
  · rw [happ]
    exact h.applied

/-- **The loop of `UpdateOSDMap`.** At epoch `e` the map held is one before `e`, and right
before it unless the loop has skipped to an epoch the message carries. It ends within the
epochs that are left, at the last one unless maps are missing. -/
theorem updateLoop_spec (hM : History ops M) (hm : Drawn ops M m) (fuel : ℕ) {e : ℕ}
    (h : Tracks ops M s) (hheld : s.osdmap = M (ops.getEpoch s.osdmap))
    (hlt : ops.getEpoch s.osdmap < e) (hle : e ≤ m.last + 1)
    (hnext : e = ops.getEpoch s.osdmap + 1 ∨ e ≤ m.last) (hfuel : m.last + 1 - e < fuel) :
    ∃ missing t, updateLoop ops m fuel e s = some (missing, t) ∧ Tracks ops M t ∧
      ops.getEpoch s.osdmap ≤ ops.getEpoch t.osdmap ∧ t.subs = s.subs ∧
      (missing = false → ops.getEpoch t.osdmap = m.last) := by
  have hlast := hm.last_lt
  induction fuel generalizing e s with
  | zero => omega
  | succ fuel ih =>
    by_cases hel : e ≤ m.last
    · have hepoch : add32 (ops.getEpoch s.osdmap) 1 = ops.getEpoch s.osdmap + 1 :=
        add32_of_lt (by omega)
      have hsucc : add32 e 1 = e + 1 := add32_of_lt (by omega)
      -- what the first two branches share: the map of epoch `e`, and on to `e + 1`
      have hstep : ∀ t : ProxyMsgr Map, t.osdmap = M e → Tracks ops M t → t.subs = s.subs →
          ∃ missing u, updateLoop ops m fuel (add32 e 1) t = some (missing, u) ∧
            Tracks ops M u ∧ ops.getEpoch s.osdmap ≤ ops.getEpoch u.osdmap ∧ u.subs = s.subs ∧
            (missing = false → ops.getEpoch u.osdmap = m.last) := by
        intro t hmap ht hsubs
        have hte : ops.getEpoch t.osdmap = e := by rw [hmap, hM.epoch_eq]
        rw [hsucc]
        obtain ⟨missing, u, hu, htracks, hmono, hsame, hend⟩ := ih (e := e + 1) ht
          (by rw [hte, hmap]) (by omega) (by omega) (.inl (by omega)) (by omega)
        exact ⟨missing, u, hu, htracks, by omega, hsame.trans hsubs, hend⟩
      rw [updateLoop, if_pos hel, hepoch]
      split
      · rename_i inc hinc
        split_ifs at hinc with heq
        obtain ⟨hpos, happly⟩ := hm.inc hinc
        have hpred : s.osdmap = M (e - 1) := by
          rw [hheld, heq]
          rfl
        refine hstep _ ?_ ?_ rfl
        · rw [← happly, ← hpred]
        · refine ⟨.inr ?_, ?_, ?_⟩
          · show ops.applyIncremental s.osdmap inc = M (ops.getEpoch _)
            rw [hpred, happly, hM.epoch_eq]
          · show ops.getEpoch (ops.applyIncremental s.osdmap inc) < 2 ^ 32 - 1
            rw [hpred, happly, hM.epoch_eq]
            omega
          · intro p hp
            rcases List.mem_append.mp hp with hp | hp
            · exact h.applied p hp
            · rw [List.mem_singleton.mp hp]
              exact ⟨hpos, hpred⟩
      · rename_i bl _ hfull
        have hmap := hm.full hfull ops.empty
        exact hstep _ hmap (h.replace hM (by omega) hmap rfl) rfl
      · split_ifs with hold
        · exact ⟨true, s, rfl, h, le_rfl, rfl, by simp⟩
        · -- skip: the message carries its last epoch, so the oldest one is within it
          have hcarried : m.oldest ≤ m.last := hm.oldest_le (hm.last_carried (by omega))
          have hskip : add32 (sub32 m.oldest 1) 1 = m.oldest := by
            rw [sub32_of_le (by omega) (by omega), add32_of_lt (by omega)]
            omega
          rw [hskip]
          exact ih h hheld (by omega) (by omega) (.inr hcarried) (by omega)
    · rw [updateLoop, if_neg hel]
      exact ⟨false, s, rfl, h, le_rfl, rfl, fun _ => by omega⟩

/-- `UpdateOSDMap` ends at the last epoch of the message, or with a request for what is
missing. -/
theorem updateOSDMap_spec (hM : History ops M) (hm : Drawn ops M m) (h : Tracks ops M s)
    (hpos : ops.getEpoch s.osdmap ≠ 0) (hlt : ops.getEpoch s.osdmap < m.last) :
    ∃ t, updateOSDMap ops m s = some t ∧ Tracks ops M t ∧
      ops.getEpoch s.osdmap ≤ ops.getEpoch t.osdmap ∧
      (ops.getEpoch t.osdmap = m.last ∨ t.needSubContinuous = false ∧
        ∃ once, t.subs = s.subs ++ [.want (nextEpoch ops t) once]) := by
  -- the map held is not the empty one, so it is one of the history
  have hheld : s.osdmap = M (ops.getEpoch s.osdmap) := by
    rcases h.held with hempty | hheld
    · rw [hempty, hM.empty_epoch] at hpos
      exact absurd rfl hpos
    · exact hheld
  have hlast := hm.last_lt
  have hstart : add32 (ops.getEpoch s.osdmap) 1 = ops.getEpoch s.osdmap + 1 :=
    add32_of_lt (by omega)
  obtain ⟨missing, t, hloop, ht, hmono, hsubs, hend⟩ := updateLoop_spec hM hm updateFuel h hheld
    (Nat.lt_succ_self _) (by omega) (.inl rfl) (by rw [updateFuel]; omega)
  rw [updateOSDMap, hstart, hloop]
  cases missing with
  | true =>
    refine ⟨_, rfl, ht.congr rfl rfl, hmono, .inr ⟨rfl, !(false || ops.paused t.osdmap), ?_⟩⟩
    rw [← hsubs]
    rfl
  | false =>
    obtain ⟨hmap, happ⟩ := resubscribe_same ops t
    refine ⟨_, rfl, ht.congr hmap happ, ?_, .inl ?_⟩
    · rw [hmap]
      exact hmono
    · rw [hmap]
      exact hend rfl

/-- **One message.** -/
theorem handleOsdMap_spec (hM : History ops M) (fsid : ℕ) (hm : m.fsid = fsid → Drawn ops M m)
    (h : Tracks ops M s) :
    ∃ t, handleOsdMap ops m fsid s = some t ∧ Tracks ops M t ∧
      ops.getEpoch s.osdmap ≤ ops.getEpoch t.osdmap := by
  obtain ⟨hmap, happ⟩ := resubscribe_same ops s
  unfold handleOsdMap
  split_ifs with hfsid hstale hzero
  · exact ⟨s, rfl, h, le_rfl⟩
  · refine ⟨_, rfl, h.congr hmap happ, ?_⟩
    show _ ≤ ops.getEpoch (resubscribe ops s).osdmap
    rw [hmap]
  · refine ⟨_, rfl, ?_, by omega⟩
    have hdrawn := hm (not_not.mp hfsid)
    unfold initOsdMap
    split
    · rename_i bl hfull
      obtain ⟨hmap', happ'⟩ :=
        resubscribe_same ops { s with osdmap := ops.decode s.osdmap bl }
      exact h.replace hM hdrawn.last_lt (hmap'.trans (hdrawn.full hfull _)) happ'
    · exact h.congr rfl rfl
  · have hdrawn := hm (not_not.mp hfsid)
    obtain ⟨t, ht, htracks, hmono, -⟩ := updateOSDMap_spec hM hdrawn h hzero (not_le.mp hstale)
    rw [ht]
    exact ⟨_, rfl, htracks.congr rfl rfl, hmono⟩

/-- Messages of the cluster are drawn from the history; others are arbitrary. -/
def FromHistory (ops : MapOps Map Full Inc) (M : ℕ → Map) (fsid : ℕ) (_ : ProxyMsgr Map)
    (m : MOSDMap Full Inc) : Prop :=
  m.fsid = fsid → Drawn ops M m

end Run

/-- Maps that know their epoch and their number of OSDs. A full map is written out, an
increment says how many OSDs it adds. -/
def sizeOps : MapOps (ℕ × ℕ) (ℕ × ℕ) (ℕ × ℕ) where
  empty := (0, 0)
  getEpoch := Prod.fst
  decode _ bl := bl
  applyIncremental x inc := (inc.1, x.2 + inc.2)
  paused _ := false

/-- Every epoch adds one OSD. -/
def growing (e : ℕ) : ℕ × ℕ := (e, e)

/-- A message with full maps of the epochs `full` and increments of the epochs `incs`. -/
def growingMsg (fsid : ℕ) (full incs : List ℕ) (oldest last : ℕ) : MOSDMap (ℕ × ℕ) (ℕ × ℕ) where
  fsid := fsid
  maps e := if e ∈ full then some (e, e) else none
  incrementalMaps e := if e ∈ incs then some (e, 1) else none
  oldest := oldest
  last := last

theorem drawn_growingMsg {fsid oldest last : ℕ} {full incs : List ℕ} (hpos : ∀ e ∈ incs, 0 < e)
    (hold : ∀ e ∈ full ++ incs, oldest ≤ e) (hlast : last ∈ full ++ incs)
    (hlt : last < 2 ^ 32 - 1) : Drawn sizeOps growing (growingMsg fsid full incs oldest last) where
  full := by
    intro e bl hbl old
    simp only [growingMsg, Option.ite_none_right_eq_some, Option.some.injEq] at hbl
    exact hbl.2.symm
  inc := by
    intro e x hx
    simp only [growingMsg, Option.ite_none_right_eq_some, Option.some.injEq] at hx
    obtain ⟨hmem, rfl⟩ := hx
    have := hpos e hmem
    refine ⟨this, ?_⟩
    simp only [sizeOps, growing, Prod.mk.injEq, true_and]
    omega
  oldest_le := by
    intro e he
    apply hold
    simpa [growingMsg, apply_ite Option.isSome] using he
  last_carried _ := by simpa [growingMsg, apply_ite Option.isSome] using hlast
  last_lt := hlt

/-- A full map, two increments, a message of another cluster, and a skip over a hole. -/
def growingMsgs : List (MOSDMap (ℕ × ℕ) (ℕ × ℕ)) :=
  [growingMsg 7 [3] [] 1 3, growingMsg 7 [] [4, 5] 1 5, growingMsg 8 [] [6] 1 6,
    growingMsg 7 [9] [10] 9 10]

section Subscriptions

variable {Map Full Inc : Type} {ops : MapOps Map Full Inc} {m : MOSDMap Full Inc}
variable {s t : ProxyMsgr Map}

/-- The subscriptions among the calls: where each one starts, and whether it is for once. -/
def wants (calls : List SubCall) : List (ℕ × Bool) :=
  calls.filterMap fun
    | .want e onetime => some (e, onetime)
    | .got _ => none

/-- The proxy before its first message: `sub_want("osdmap", 0, 0)` has been called. The
constructor sets the flag, and nothing below depends on it. -/
def atStart (ops : MapOps Map Full Inc) (needSubContinuous : Bool) : ProxyMsgr Map where
  osdmap := ops.empty
  needSubContinuous := needSubContinuous
  subs := [.want 0 false]

/-- From `s` to `t` there is no renewal, and the flag stays set, or there is one of the epoch
after the map of `t`, for once unless the flag of `t` is set or its map is paused. -/
def Renews (ops : MapOps Map Full Inc) (s t : ProxyMsgr Map) : Prop :=
  wants t.subs = wants s.subs ∧ s.needSubContinuous = true ∧ t.needSubContinuous = true ∨
    wants t.subs = wants s.subs ++
      [(nextEpoch ops t, !(t.needSubContinuous || ops.paused t.osdmap))]

theorem wants_want (calls : List SubCall) (e : ℕ) (onetime : Bool) :
    wants (calls ++ [.want e onetime]) = wants calls ++ [(e, onetime)] := by
  rw [wants, List.filterMap_append]
  rfl

theorem wants_got (calls : List SubCall) (e : ℕ) : wants (calls ++ [.got e]) = wants calls := by
  rw [wants, List.filterMap_append]
  exact List.append_nil _

theorem renews_renewOSDMap (hsubs : t.subs = s.subs) :
    Renews ops s (renewOSDMap ops (nextEpoch ops t) t) := by
  right
  rw [renewOSDMap, wants_want, hsubs]
  rfl

theorem renews_resubscribe (hsubs : t.subs = s.subs)
    (hflag : t.needSubContinuous = s.needSubContinuous) : Renews ops s (resubscribe ops t) := by
  unfold resubscribe
  split_ifs with hset
  · left
    exact ⟨congrArg wants hsubs, hflag.symm.trans hset, hset⟩
  · exact renews_renewOSDMap hsubs

theorem Renews.subGot (h : Renews ops s t) : Renews ops s (subGot ops t) := by
  rw [Renews, OsdMap.subGot, wants_got]
  exact h

/-- The loop asks for nothing: what follows it does. -/
theorem updateLoop_same (fuel : ℕ) {e : ℕ} {missing : Bool}
    (h : updateLoop ops m fuel e s = some (missing, t)) :
    t.subs = s.subs ∧ t.needSubContinuous = s.needSubContinuous := by
  induction fuel generalizing e s with
  | zero => cases h
  | succ fuel ih =>
    by_cases hle : e ≤ m.last
    · rw [updateLoop, if_pos hle] at h
      split at h
      · have hrest := ih h
        exact hrest
      · have hrest := ih h
        exact hrest
      · split_ifs at h with hold
        · cases h
          exact ⟨rfl, rfl⟩
        · exact ih h
    · rw [updateLoop, if_neg hle] at h
      cases h
      exact ⟨rfl, rfl⟩

theorem renews_updateOSDMap (h : updateOSDMap ops m s = some t) : Renews ops s t := by
  obtain ⟨⟨missing, u⟩, hloop, rfl⟩ := Option.map_eq_some_iff.mp h
  obtain ⟨hsubs, hflag⟩ := updateLoop_same _ hloop
  cases missing with
  | true => exact renews_renewOSDMap hsubs
  | false => exact renews_resubscribe hsubs hflag

/-- The first map: without it `RenewOSDMap(0)` asks for what the empty map would ask for. -/
theorem renews_initOsdMap (hzero : ops.getEpoch s.osdmap = 0) :
    Renews ops s (initOsdMap ops m s) := by
  unfold initOsdMap
  split
  · exact renews_resubscribe rfl rfl
  · have hnext : nextEpoch ops { s with needSubContinuous := false } = 0 := if_pos hzero
    rw [← hnext]
    exact renews_renewOSDMap rfl

theorem renews_handleOsdMap {fsid : ℕ} (hfsid : m.fsid = fsid)
    (h : handleOsdMap ops m fsid s = some t) : Renews ops s t := by
  unfold handleOsdMap at h
  split_ifs at h with hother hstale hzero
  · exact absurd hfsid hother
  · cases h
    exact (renews_resubscribe rfl rfl).subGot
  · cases h
    exact (renews_initOsdMap hzero).subGot
  · obtain ⟨u, hu, rfl⟩ := Option.map_eq_some_iff.mp h
    exact (renews_updateOSDMap hu).subGot

/-- The loop ends: every turn takes it on, by one epoch or to the oldest one. -/
theorem updateLoop_isSome (hold : m.oldest < 2 ^ 32) (hlast : m.last < 2 ^ 32 - 1) (fuel : ℕ)
    {e : ℕ} (hfuel : m.last + 1 - e < fuel) : (updateLoop ops m fuel e s).isSome := by
  induction fuel generalizing e s with
  | zero => omega
  | succ fuel ih =>
    by_cases hle : e ≤ m.last
    · have hsucc : add32 e 1 = e + 1 := add32_of_lt (by omega)
      rw [updateLoop, if_pos hle]
      split
      · exact ih (by omega)
      · exact ih (by omega)
      · split_ifs with hbefore
        · rfl
        · have hskip : add32 (sub32 m.oldest 1) 1 = m.oldest := by
            rw [sub32_of_le (by omega) (by omega), add32_of_lt (by omega)]
            omega
          rw [hskip]
          exact ih (by omega)
    · rw [updateLoop, if_neg hle]
      rfl

theorem handleOsdMap_isSome (fsid : ℕ) (hold : m.oldest < 2 ^ 32) (hlast : m.last < 2 ^ 32 - 1) :
    (handleOsdMap ops m fsid s).isSome := by
  have hfuel (e : ℕ) : m.last + 1 - e < updateFuel := by
    rw [updateFuel]
    omega
  unfold handleOsdMap
  split_ifs
  · rfl
  · rfl
  · rfl
  · rw [Option.isSome_map, updateOSDMap, Option.isSome_map]
    exact updateLoop_isSome hold hlast _ (hfuel _)

/-- The last subscription is a continuous one. -/
def LastContinuous (s : ProxyMsgr Map) : Prop := ∃ e, (wants s.subs).getLast? = some (e, false)

theorem lastContinuous_of_renews (h : Renews ops s t)
    (hs : s.needSubContinuous = true → LastContinuous s)
    (hflag : t.needSubContinuous = true) : LastContinuous t := by
  rcases h with ⟨hsame, hset, -⟩ | hnew
  · obtain ⟨e, he⟩ := hs hset
    exact ⟨e, by rw [hsame, he]⟩
  · refine ⟨nextEpoch ops t, ?_⟩
    rw [hnew, hflag]
    simp

theorem nextEpoch_le (ops : MapOps Map Full Inc) (s : ProxyMsgr Map) :
    nextEpoch ops s ≤ ops.getEpoch s.osdmap + 1 := by
  unfold nextEpoch add32
  split_ifs
  · omega
  · exact Nat.mod_le _ _

/-- **Subscriptions.** Over every run a message that finds the flag clear makes exactly one
renewal; a renewal starts right behind the map held, so it skips nothing; while the flag is
set the last subscription is a continuous one, and a message that leaves it clear has made a
renewal. Every message is handled that does not carry the last epoch there is. -/
theorem subscription_outstanding (ops : MapOps Map Full Inc) (fsid : ℕ) (needSubContinuous : Bool)
    (h : Reach (fun s m => handleOsdMap ops m fsid s) Free (atStart ops needSubContinuous) s) :
    (s.needSubContinuous = true → LastContinuous s) ∧
    ∀ m, m.fsid = fsid →
      (m.oldest < 2 ^ 32 → m.last < 2 ^ 32 - 1 → (handleOsdMap ops m fsid s).isSome) ∧
      ∀ t, handleOsdMap ops m fsid s = some t →
        ∃ new, wants t.subs = wants s.subs ++ new ∧
          (s.needSubContinuous = false → new.length = 1) ∧
          (∀ w ∈ new, w.1 = nextEpoch ops t ∧ w.1 ≤ ops.getEpoch t.osdmap + 1) ∧
          (t.needSubContinuous = true → LastContinuous t) ∧
          (t.needSubContinuous = false → new.length = 1) := by
  have hinv : s.needSubContinuous = true → LastContinuous s := by
    have hstart : LastContinuous (atStart ops needSubContinuous) := ⟨0, rfl⟩
    refine h.invariant (I := fun s => s.needSubContinuous = true → LastContinuous s)
      (fun _ => hstart) ?_
    intro s m t hs _ hstep
    by_cases hfsid : m.fsid = fsid
    · exact lastContinuous_of_renews (renews_handleOsdMap hfsid hstep) hs
    · rw [handleOsdMap, if_pos hfsid] at hstep
      cases hstep
      exact hs
  refine ⟨hinv, ?_⟩
  intro m hfsid
  refine ⟨handleOsdMap_isSome fsid, ?_⟩
  intro t ht
  have hrenews := renews_handleOsdMap hfsid ht
  have hlast := lastContinuous_of_renews hrenews hinv
  -- a message makes no renewal only where the flag was and stays set
  rcases hrenews with ⟨hsame, hset, hset'⟩ | hnew
  · refine ⟨[], by rw [hsame, List.append_nil], ?_, by simp, hlast, ?_⟩
    · intro hclear
      rw [hset] at hclear
      cases hclear
    · intro hclear
      rw [hset'] at hclear
      cases hclear
  · refine ⟨_, hnew, fun _ => rfl, ?_, hlast, fun _ => rfl⟩
    intro w hw
    rw [List.mem_singleton.mp hw]
    exact ⟨rfl, nextEpoch_le ops t⟩

end Subscriptions

/-- The first message finds the flag clear and sets it; the second one misses epoch 5. -/
theorem subscription_outstanding_missing :
    ∃ s, Reach (fun s m => handleOsdMap sizeOps m 7 s) Free (atStart sizeOps false) s ∧
      s.needSubContinuous = true ∧ LastContinuous s ∧
      (handleOsdMap sizeOps (growingMsg 7 [] [4, 6] 1 6) 7 s).isSome := by
  obtain ⟨s, hs, hp⟩ := exists_reach_of_run (fun s m => handleOsdMap sizeOps m 7 s) Free
    (atStart sizeOps false) [growingMsg 7 [3] [] 1 3] (fun s => s.needSubContinuous) (by decide)
    (by simp [Free])
  obtain ⟨hlast, hnext⟩ := subscription_outstanding sizeOps 7 false hs
  exact ⟨s, hs, hp, hlast hp, (hnext (growingMsg 7 [] [4, 6] 1 6) rfl).1 (by decide) (by decide)⟩

end GcAdaptor.OsdMap
