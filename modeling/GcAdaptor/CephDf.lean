/-
The **capacity of the cluster** (`ceph_proxy/CephMsgr.cc`): `CephDf` walks over the pools of the
monitor's `df`, adds up what they use and keeps the largest of what they could take, in raw bytes:
`max_avail * (m + k) / k`, with `k` and `m` from `GetPoolBaseInfo`.

The numbers are texts, and `stoull` and `stoi` throw where there is none; nothing catches. The
pool's id is cut to 32 bits on the way to the osd map, and an erasure-coded pool whose profile has
no `k` or `m` leaves the two as they were on the stack. The product is one of 64 bits.

The JSON parser is not modelled: an element of the list is what it makes of one, with an empty
text for a field that is missing. `cephDf_totals_iff` says which lists give the right totals.
-/
import GcAdaptor.Cxx

set_option autoImplicit false

namespace GcAdaptor.CephDf

open GcAdaptor.Wire GcAdaptor.Cxx

/-! ## The osd map -/

inductive PgPool
  | replicated (size : UInt32) (pos : 1 ≤ size.toNat)
  | erasure (erasureCodeProfile : Bytes)

structure OsdMap where
  pools : List (ℤ × PgPool)
  profiles : List (Bytes × List (Bytes × Bytes))

def OsdMap.getErasureCodeProfile (osdmap : OsdMap) (name : Bytes) : List (Bytes × Bytes) :=
  (osdmap.profiles.lookup name).getD []

structure PoolInfo where
  k : UInt32
  m : UInt32
  stripeUnit : UInt32

def DEFAULT_M : UInt32 := 2

def kName : Bytes := ascii ['k']
def mName : Bytes := ascii ['m']
def stripeUnitName : Bytes := ascii ['s', 't', 'r', 'i', 'p', 'e', '_', 'u', 'n', 'i', 't']

/-- An `int` as a `uint32_t`. -/
def toUInt32 (z : ℤ) : UInt32 := UInt32.ofNat (z % 2 ^ 32).toNat

inductive BaseInfo
  | threw
  | notFound
  | found (info : PoolInfo)

/-- The `k` and `m` of a profile; left as they are without both. -/
def profileChunks (profile : List (Bytes × Bytes)) (info : PoolInfo) : Option PoolInfo :=
  match profile.lookup mName, profile.lookup kName with
  | some ecm, some eck =>
    match stoi eck, stoi ecm with
    | some k, some m => some { info with k := toUInt32 k, m := toUInt32 m }
    | _, _ => none
  -- the caller's `info` is not initialised, and there is no error for this
  | _, _ => some info

/-- `confStripeUnit` is the option `osd_pool_erasure_code_stripe_unit`. -/
def profileStripe (confStripeUnit : UInt32) (profile : List (Bytes × Bytes)) (info : PoolInfo) :
    Option PoolInfo :=
  match profile.lookup stripeUnitName with
  | some ecStripe => (stoi ecStripe).map fun z => { info with stripeUnit := toUInt32 z }
  | none => some { info with stripeUnit := confStripeUnit }

/-- `info` is what the caller's variable holds before. -/
def getPoolBaseInfo (confStripeUnit : UInt32) (osdmap : OsdMap) (poolId : UInt32)
    (info : PoolInfo) : BaseInfo :=
  match osdmap.pools.lookup (poolId.toNat : ℤ) with
  | none => .notFound
  | some (.replicated size _) => .found { k := 1, m := size - 1, stripeUnit := confStripeUnit }
  | some (.erasure name) =>
    let profile := osdmap.getErasureCodeProfile name
    match (profileChunks profile info).bind (profileStripe confStripeUnit profile) with
    | none => .threw
    | some info => .found info

/-! ## `CephDf` -/

structure Stats where
  bytesUsed : Bytes
  maxAvail : Bytes

/-- What the parser finds in an element of the list of pools. -/
structure PoolJson where
  id : Bytes
  stats : Option Stats

inductive Parsed
  | error (ret : ℤ)
  | threw
  | dividedByZero
  | ok (poolTotalUsed poolTotalAvail : ℕ)

def EINVAL : ℤ := 22

/-- `max_avail * (m + k) / k` in the words of the code. -/
def rawAvail (info : PoolInfo) (avail : ℕ) : ℕ :=
  avail * (info.m + info.k).toNat % 2 ^ 64 / info.k.toNat

/-- The part of `JsonParseCephDF` behind `GetPoolBaseInfo`. -/
def addPool (info : PoolInfo) (stats : Option Stats) (poolTotalUsed poolTotalAvail : ℕ) : Parsed :=
  match stats with
  | none => .error (-EINVAL)
  | some poolStats =>
    match stoull poolStats.bytesUsed, stoull poolStats.maxAvail with
    | some used, some avail =>
      if info.k = 0 then .dividedByZero
      else .ok (add64 poolTotalUsed used) (max poolTotalAvail (rawAvail info avail))
    | _, _ => .threw

/-- `pool` is `none` where the element does not parse. -/
def jsonParseCephDF (confStripeUnit : UInt32) (osdmap : OsdMap) (info : PoolInfo)
    (pool : Option PoolJson) (poolTotalUsed poolTotalAvail : ℕ) : Parsed :=
  match pool with
  | none => .error (-EINVAL)
  | some poolJson =>
    match stoull poolJson.id with
    | none => .threw
    | some poolId =>
      -- `poolId` has 64 bits, the parameter of `GetPoolBaseInfo` 32
      match getPoolBaseInfo confStripeUnit osdmap (UInt32.ofNat poolId) info with
      | .threw => .threw
      | .notFound =>
        addPool { info with k := 1, m := DEFAULT_M } poolJson.stats poolTotalUsed poolTotalAvail
      | .found info => addPool info poolJson.stats poolTotalUsed poolTotalAvail

structure ClusterData where
  allPoolUsed : ℕ
  allPoolAvail : ℕ

inductive Outcome
  | threw
  | dividedByZero
  | returned (ret : ℤ) (clusterData : ClusterData)

/-- The loop over the pools; `stack i` is what `info` holds at first in turn `i`. -/
def dfLoop (confStripeUnit : UInt32) (osdmap : OsdMap) (stack : ℕ → PoolInfo) :
    List (Option PoolJson) → ℕ → ℕ → ℕ → Outcome
  | [], _, poolTotalUsed, poolTotalAvail =>
    .returned 0 { allPoolUsed := poolTotalUsed, allPoolAvail := poolTotalAvail }
  | pool :: rest, i, poolTotalUsed, poolTotalAvail =>
    match jsonParseCephDF confStripeUnit osdmap (stack i) pool poolTotalUsed poolTotalAvail with
    | .threw => .threw
    | .dividedByZero => .dividedByZero
    -- `continue`
    | .error _ => dfLoop confStripeUnit osdmap stack rest (i + 1) poolTotalUsed poolTotalAvail
    | .ok poolTotalUsed poolTotalAvail =>
      dfLoop confStripeUnit osdmap stack rest (i + 1) poolTotalUsed poolTotalAvail

/-- The answer to the command `df`. -/
inductive Reply
  | failed (ret : ℤ)
  | noPools
  | notArray
  | pools (poolList : List (Option PoolJson))

def cephDf (confStripeUnit : UInt32) (osdmap : OsdMap) (stack : ℕ → PoolInfo) (reply : Reply)
    (clusterData : ClusterData) : Outcome :=
  match reply with
  | .failed ret => .returned ret clusterData
  | .noPools => .returned 0 clusterData
  | .notArray => .returned (-EINVAL) clusterData
  | .pools poolList => dfLoop confStripeUnit osdmap stack poolList 0 0 0

/-! ## What the totals should be -/

/-- A pool that parses completely. -/
structure Element where
  id : ℕ
  used : ℕ
  avail : ℕ

def element (pool : Option PoolJson) : Option Element := do
  let poolJson ← pool
  let id ← stoull poolJson.id
  let poolStats ← poolJson.stats
  let used ← stoull poolStats.bytesUsed
  let avail ← stoull poolStats.maxAvail
  some { id := id, used := used, avail := avail }

/-- The data chunks and the coding chunks of a pool: at least one data chunk. -/
def geometry (osdmap : OsdMap) (id : ℕ) : Option (ℕ × ℕ) :=
  match osdmap.pools.lookup (id : ℤ) with
  | none => some (1, DEFAULT_M.toNat)
  | some (.replicated size _) => some (1, size.toNat - 1)
  | some (.erasure name) => do
    let eck ← (osdmap.getErasureCodeProfile name).lookup kName
    let ecm ← (osdmap.getErasureCodeProfile name).lookup mName
    let k ← stoi eck
    let m ← stoi ecm
    if 1 ≤ k ∧ 0 ≤ m then some (k.toNat, m.toNat) else none

/-- `floor(max_avail * (k + m) / k)`; 0 for a pool without `k` and `m`. -/
def exactAvail (osdmap : OsdMap) (e : Element) : ℕ :=
  match geometry osdmap e.id with
  | none => 0
  | some (k, m) => e.avail * (k + m) / k

def largest (l : List ℕ) : ℕ := l.foldr max 0

/-- The exact totals are stored, where 64 bits hold them. All pools that parse have a `k` and an
`m`: without them there is no total. -/
structure Totals (osdmap : OsdMap) (es : List Element) (clusterData : ClusterData) : Prop where
  geometry : ∀ e ∈ es, (geometry osdmap e.id).isSome
  used : (es.map (·.used)).sum < 2 ^ 64 → clusterData.allPoolUsed = (es.map (·.used)).sum
  avail : largest (es.map (exactAvail osdmap)) < 2 ^ 64 →
    clusterData.allPoolAvail = largest (es.map (exactAvail osdmap))

/-- Whatever was on the stack. -/
def Right (confStripeUnit : UInt32) (osdmap : OsdMap) (poolList : List (Option PoolJson))
    (clusterData : ClusterData) : Prop :=
  ∀ stack, ∃ result, cephDf confStripeUnit osdmap stack (.pools poolList) clusterData =
    .returned 0 result ∧ Totals osdmap (poolList.filterMap element) result

/-! ## When they are right -/

/-- The `k` and `m` that `GetPoolBaseInfo` finds; `none` where it leaves them. -/
def chunks (osdmap : OsdMap) (poolId : UInt32) : Option (UInt32 × UInt32) :=
  match osdmap.pools.lookup (poolId.toNat : ℤ) with
  | none => some (1, DEFAULT_M)
  | some (.replicated size _) => some (1, size - 1)
  | some (.erasure name) => do
    let eck ← (osdmap.getErasureCodeProfile name).lookup kName
    let ecm ← (osdmap.getErasureCodeProfile name).lookup mName
    let k ← stoi eck
    let m ← stoi ecm
    some (toUInt32 k, toUInt32 m)

/-- The numbers of a profile that are looked at are numbers. -/
def ProfileNumbers (osdmap : OsdMap) (poolId : UInt32) : Prop :=
  ∀ name, osdmap.pools.lookup (poolId.toNat : ℤ) = some (.erasure name) →
    (∀ eck ecm, (osdmap.getErasureCodeProfile name).lookup kName = some eck →
      (osdmap.getErasureCodeProfile name).lookup mName = some ecm →
      (stoi eck).isSome ∧ (stoi ecm).isSome) ∧
    ∀ ecStripe, (osdmap.getErasureCodeProfile name).lookup stripeUnitName = some ecStripe →
      (stoi ecStripe).isSome

/-- Nothing in the element makes `stoull` or `stoi` throw. -/
def Numbers (osdmap : OsdMap) (poolJson : PoolJson) : Prop :=
  (∃ id, stoull poolJson.id = some id ∧ ProfileNumbers osdmap (UInt32.ofNat id)) ∧
    ∀ poolStats, poolJson.stats = some poolStats →
      (stoull poolStats.bytesUsed).isSome ∧ (stoull poolStats.maxAvail).isSome

/-- The pool, and the one its id is cut to, have a `k` to divide by. -/
def Divides (osdmap : OsdMap) (e : Element) : Prop :=
  (geometry osdmap e.id).isSome ∧
    ∃ k m, chunks osdmap (UInt32.ofNat e.id) = some (k, m) ∧ k ≠ 0

/-- The id is cut to that of a pool with another `k` or `m`. -/
def Misplaced (osdmap : OsdMap) (e : Element) : Prop :=
  geometry osdmap e.id ≠ geometry osdmap (e.id % 2 ^ 32)

/-- What a pool counts for, with the `k` and `m` of the pool its id is cut to. -/
def cutAvail (osdmap : OsdMap) (e : Element) : ℕ :=
  match chunks osdmap (UInt32.ofNat e.id) with
  | none => 0
  | some (k, m) => e.avail * (m + k).toNat % 2 ^ 64 / k.toNat

/-- The product in front of the division is one of 64 bits. -/
def ProductFits (osdmap : OsdMap) (e : Element) : Prop :=
  ∀ k m, geometry osdmap e.id = some (k, m) → e.avail * (k + m) < 2 ^ 64

/-- Every number is one and every pool has a `k` and an `m`; and if 64 bits hold the largest
value, some pool that has it is looked up under its own id and its product fits, while no pool
looked up under a wrong id seems larger (or such a pool happens to seem as large). -/
structure Sound (osdmap : OsdMap) (poolList : List (Option PoolJson)) : Prop where
  numbers : ∀ poolJson, some poolJson ∈ poolList → Numbers osdmap poolJson
  divides : ∀ e ∈ poolList.filterMap element, Divides osdmap e
  largest : largest ((poolList.filterMap element).map (exactAvail osdmap)) < 2 ^ 64 →
    (∀ e ∈ poolList.filterMap element, Misplaced osdmap e →
      cutAvail osdmap e ≤ largest ((poolList.filterMap element).map (exactAvail osdmap))) ∧
    (largest ((poolList.filterMap element).map (exactAvail osdmap)) = 0 ∨
      ∃ e ∈ poolList.filterMap element,
        Misplaced osdmap e ∧
            cutAvail osdmap e = largest ((poolList.filterMap element).map (exactAvail osdmap)) ∨
          ¬ Misplaced osdmap e ∧ ProductFits osdmap e ∧
            exactAvail osdmap e = largest ((poolList.filterMap element).map (exactAvail osdmap)))

/-! ## One pool -/

section Pool

variable {confStripeUnit : UInt32} {osdmap : OsdMap} {stack : PoolInfo} {poolId : UInt32}

/-- `info` behind `GetPoolBaseInfo` and the default for an unknown pool; `none` where it throws. -/
def infoOf (confStripeUnit : UInt32) (osdmap : OsdMap) (poolId : UInt32) (stack : PoolInfo) :
    Option PoolInfo :=
  match getPoolBaseInfo confStripeUnit osdmap poolId stack with
  | .threw => none
  | .notFound => some { stack with k := 1, m := DEFAULT_M }
  | .found info => some info

theorem jsonParseCephDF_eq {poolJson : PoolJson} {id used avail : ℕ}
    (hid : stoull poolJson.id = some id) :
    jsonParseCephDF confStripeUnit osdmap stack (some poolJson) used avail =
      match infoOf confStripeUnit osdmap (UInt32.ofNat id) stack with
      | none => .threw
      | some info => addPool info poolJson.stats used avail := by
  simp only [jsonParseCephDF, hid, infoOf]
  cases getPoolBaseInfo confStripeUnit osdmap (UInt32.ofNat id) stack <;> rfl

theorem profileStripe_isSome (confStripeUnit : UInt32) {profile : List (Bytes × Bytes)}
    (info : PoolInfo) :
    (profileStripe confStripeUnit profile info).isSome ↔
      ∀ ecStripe, profile.lookup stripeUnitName = some ecStripe → (stoi ecStripe).isSome := by
  rw [profileStripe]
  cases profile.lookup stripeUnitName <;> simp

theorem profileChunks_isSome {profile : List (Bytes × Bytes)} (info : PoolInfo) :
    (profileChunks profile info).isSome ↔
      ∀ eck ecm, profile.lookup kName = some eck → profile.lookup mName = some ecm →
        (stoi eck).isSome ∧ (stoi ecm).isSome := by
  rw [profileChunks]
  cases profile.lookup mName with
  | none => simp
  | some ecm =>
    cases profile.lookup kName with
    | none => simp
    | some eck => cases hk : stoi eck <;> cases hm : stoi ecm <;> simp [hk, hm]

theorem profileStripe_chunks {profile : List (Bytes × Bytes)} {info info' : PoolInfo}
    (h : profileStripe confStripeUnit profile info = some info') :
    (info.k, info.m) = (info'.k, info'.m) := by
  rw [profileStripe] at h
  cases hlookup : profile.lookup stripeUnitName with
  | none =>
    rw [hlookup] at h
    obtain rfl := Option.some.inj h
    rfl
  | some ecStripe =>
    rw [hlookup] at h
    obtain ⟨z, -, rfl⟩ := Option.map_eq_some_iff.mp h
    rfl

theorem profileChunks_chunks {profile : List (Bytes × Bytes)} {info info' : PoolInfo}
    (h : profileChunks profile info = some info') :
    (info'.k, info'.m) = (do
      let eck ← profile.lookup kName
      let ecm ← profile.lookup mName
      let k ← stoi eck
      let m ← stoi ecm
      some (toUInt32 k, toUInt32 m)).getD (info.k, info.m) := by
  rw [profileChunks] at h
  cases hm : profile.lookup mName with
  | none =>
    rw [hm] at h
    obtain rfl := Option.some.inj h
    cases profile.lookup kName <;> rfl
  | some ecm =>
    cases hk : profile.lookup kName with
    | none =>
      rw [hm, hk] at h
      obtain rfl := Option.some.inj h
      rfl
    | some eck =>
      rw [hm, hk] at h
      cases hk' : stoi eck with
      | none => simp [hk'] at h
      | some k =>
        cases hm' : stoi ecm with
        | none => simp [hk', hm'] at h
        | some m =>
          simp only [hk', hm', Option.some.injEq] at h
          subst h
          simp [hk', hm']

/-- It throws exactly at a number of the profile that is none. -/
theorem infoOf_isSome (confStripeUnit : UInt32) (stack : PoolInfo) :
    (infoOf confStripeUnit osdmap poolId stack).isSome ↔ ProfileNumbers osdmap poolId := by
  rw [infoOf, getPoolBaseInfo, ProfileNumbers]
  cases osdmap.pools.lookup (poolId.toNat : ℤ) with
  | none => simp
  | some pool =>
    cases pool with
    | replicated size pos => simp
    | erasure name =>
      simp only [Option.some.injEq, PgPool.erasure.injEq, forall_eq']
      rw [← profileChunks_isSome stack]
      cases hchunks : profileChunks (osdmap.getErasureCodeProfile name) stack with
      | none => simp
      | some info =>
        rw [← profileStripe_isSome confStripeUnit info]
        cases hstripe : profileStripe confStripeUnit (osdmap.getErasureCodeProfile name) info <;>
          simp [hstripe]

/-- What it finds, or what was there. -/
theorem infoOf_chunks {info : PoolInfo}
    (h : infoOf confStripeUnit osdmap poolId stack = some info) :
    (info.k, info.m) = (chunks osdmap poolId).getD (stack.k, stack.m) := by
  rw [infoOf, getPoolBaseInfo] at h
  rw [chunks]
  cases hpool : osdmap.pools.lookup (poolId.toNat : ℤ) with
  | none =>
    rw [hpool] at h
    obtain rfl := Option.some.inj h
    rfl
  | some pool =>
    rw [hpool] at h
    cases pool with
    | replicated size pos =>
      obtain rfl := Option.some.inj h
      rfl
    | erasure name =>
      dsimp only at h ⊢
      cases hinfo : (profileChunks (osdmap.getErasureCodeProfile name) stack).bind
          (profileStripe confStripeUnit (osdmap.getErasureCodeProfile name)) with
      | none =>
        rw [hinfo] at h
        cases h
      | some info' =>
        rw [hinfo] at h
        obtain rfl := Option.some.inj h
        obtain ⟨mid, hmid, hstripe⟩ := Option.bind_eq_some_iff.mp hinfo
        rw [← profileStripe_chunks hstripe]
        exact profileChunks_chunks hmid

variable {poolJson : PoolJson} {e : Element} {used avail : ℕ}

theorem element_eq_some : element (some poolJson) = some e ↔
    stoull poolJson.id = some e.id ∧ ∃ poolStats, poolJson.stats = some poolStats ∧
      stoull poolStats.bytesUsed = some e.used ∧ stoull poolStats.maxAvail = some e.avail := by
  obtain ⟨id, used, avail⟩ := e
  simp only [element, Option.bind_eq_bind, Option.bind_some, Option.bind_eq_some_iff,
    Option.some.injEq, Element.mk.injEq]
  constructor
  · rintro ⟨_, hid, poolStats, hstats, _, hused, _, havail, rfl, rfl, rfl⟩
    exact ⟨hid, poolStats, hstats, hused, havail⟩
  · rintro ⟨hid, poolStats, hstats, hused, havail⟩
    exact ⟨_, hid, poolStats, hstats, _, hused, _, havail, rfl, rfl, rfl⟩

/-- A pool without statistics is skipped. -/
theorem jsonParseCephDF_of_none (hnum : Numbers osdmap poolJson)
    (hnone : element (some poolJson) = none) :
    jsonParseCephDF confStripeUnit osdmap stack (some poolJson) used avail = .error (-EINVAL) := by
  obtain ⟨⟨id, hid, hprofile⟩, hstats⟩ := hnum
  obtain ⟨info, hinfo⟩ := Option.isSome_iff_exists.mp
    ((infoOf_isSome confStripeUnit stack).mpr hprofile)
  rw [jsonParseCephDF_eq hid, hinfo]
  cases hpool : poolJson.stats with
  | none => rfl
  | some poolStats =>
    obtain ⟨hused, havail⟩ := hstats poolStats hpool
    obtain ⟨u, hu⟩ := Option.isSome_iff_exists.mp hused
    obtain ⟨a, ha⟩ := Option.isSome_iff_exists.mp havail
    have hsome := element_eq_some (e := ⟨id, u, a⟩).mpr ⟨hid, poolStats, hpool, hu, ha⟩
    rw [hnone] at hsome
    cases hsome

/-- A pool that parses completely. -/
theorem jsonParseCephDF_of_some (confStripeUnit : UInt32) (stack : PoolInfo) (used avail : ℕ)
    (hnum : Numbers osdmap poolJson)
    (helement : element (some poolJson) = some e) :
    ∃ info, (info.k, info.m) = (chunks osdmap (UInt32.ofNat e.id)).getD (stack.k, stack.m) ∧
      jsonParseCephDF confStripeUnit osdmap stack (some poolJson) used avail =
        if info.k = 0 then .dividedByZero
        else .ok (add64 used e.used) (max avail (rawAvail info e.avail)) := by
  obtain ⟨hid, poolStats, hpool, hu, ha⟩ := element_eq_some.mp helement
  obtain ⟨⟨id, hid', hprofile⟩, -⟩ := hnum
  obtain rfl := Option.some.inj (hid'.symm.trans hid)
  obtain ⟨info, hinfo⟩ := Option.isSome_iff_exists.mp
    ((infoOf_isSome confStripeUnit stack).mpr hprofile)
  refine ⟨info, infoOf_chunks hinfo, ?_⟩
  rw [jsonParseCephDF_eq hid, hinfo]
  simp only [addPool, hpool, hu, ha]

/-- A pool that leaves the zeros on the stack is divided by them. -/
theorem chunks_of_not_zero (hnum : Numbers osdmap poolJson)
    (helement : element (some poolJson) = some e)
    (h : jsonParseCephDF confStripeUnit osdmap ⟨0, 0, 0⟩ (some poolJson) used avail ≠
      .dividedByZero) :
    ∃ k m, chunks osdmap (UInt32.ofNat e.id) = some (k, m) ∧ k ≠ 0 := by
  obtain ⟨info, hinfo, hparse⟩ := jsonParseCephDF_of_some confStripeUnit ⟨0, 0, 0⟩ used avail hnum
    helement
  have hk : info.k ≠ 0 := by
    intro hzero
    rw [hparse, if_pos hzero] at h
    exact h rfl
  cases hchunks : chunks osdmap (UInt32.ofNat e.id) with
  | none =>
    rw [hchunks, Option.getD_none, Prod.mk.injEq] at hinfo
    exact absurd hinfo.1 hk
  | some km =>
    rw [hchunks, Option.getD_some] at hinfo
    refine ⟨km.1, km.2, rfl, ?_⟩
    rwa [← hinfo]

/-- Only a text that is no number makes it throw. -/
theorem numbers_of_not_threw (confStripeUnit : UInt32) (stack : PoolInfo) (used avail : ℕ)
    (h : jsonParseCephDF confStripeUnit osdmap stack (some poolJson) used avail ≠ .threw) :
    Numbers osdmap poolJson := by
  cases hid : stoull poolJson.id with
  | none => exact absurd (by simp only [jsonParseCephDF, hid]) h
  | some id =>
    rw [jsonParseCephDF_eq hid] at h
    cases hinfo : infoOf confStripeUnit osdmap (UInt32.ofNat id) stack with
    | none => exact absurd (by rw [hinfo]) h
    | some info =>
      rw [hinfo] at h
      refine ⟨⟨id, hid, (infoOf_isSome ..).mp (Option.isSome_iff_exists.mpr ⟨info, hinfo⟩)⟩, ?_⟩
      intro poolStats hstats
      simp only [addPool, hstats] at h
      cases hu : stoull poolStats.bytesUsed with
      | none => exact absurd (by rw [hu]) h
      | some u =>
        cases ha : stoull poolStats.maxAvail with
        | none => exact absurd (by rw [hu, ha]) h
        | some a => exact ⟨rfl, rfl⟩

end Pool

/-! ## The loop -/

section Loop

variable {confStripeUnit : UInt32} {osdmap : OsdMap} {poolList : List (Option PoolJson)}
  {i used avail : ℕ}

theorem largest_cons (x : ℕ) (l : List ℕ) : largest (x :: l) = max x (largest l) := rfl

/-- With a `k` for every pool. -/
theorem dfLoop_of_numbers {stack : ℕ → PoolInfo} (i used avail : ℕ)
    (hnum : ∀ poolJson, some poolJson ∈ poolList → Numbers osdmap poolJson)
    (hdivides : ∀ e ∈ poolList.filterMap element,
      ∃ k m, chunks osdmap (UInt32.ofNat e.id) = some (k, m) ∧ k ≠ 0) (hused : used < 2 ^ 64) :
    dfLoop confStripeUnit osdmap stack poolList i used avail = .returned 0
      { allPoolUsed := (used + ((poolList.filterMap element).map (·.used)).sum) % 2 ^ 64
        allPoolAvail := max avail (largest ((poolList.filterMap element).map (cutAvail osdmap))) } := by
  induction poolList generalizing i used avail with
  | nil =>
    rw [dfLoop, List.filterMap_nil, List.map_nil, List.map_nil, List.sum_nil, Nat.add_zero,
      Nat.mod_eq_of_lt hused]
    simp [largest]
  | cons pool rest ih =>
    have hmem : ∀ e ∈ rest.filterMap element, e ∈ (pool :: rest).filterMap element := by
      intro e he
      rw [List.filterMap_cons]
      cases element pool with
      | none => exact he
      | some _ => exact List.mem_cons_of_mem _ he
    -- the totals so far are arbitrary, so the rest of the list may start from any
    have hrest := fun i used avail => ih i used avail
      (fun p hp => hnum p (List.mem_cons_of_mem _ hp)) (fun e he => hdivides e (hmem e he))
    rw [dfLoop]
    cases pool with
    | none =>
      exact hrest _ _ _ hused
    | some poolJson =>
      have hp := hnum poolJson (by simp)
      cases helement : element (some poolJson) with
      | none =>
        rw [jsonParseCephDF_of_none hp helement, List.filterMap_cons_none helement]
        exact hrest _ _ _ hused
      | some e =>
        obtain ⟨k, m, hchunks, hk⟩ := hdivides e (by
          rw [List.filterMap_cons_some helement]
          exact List.mem_cons_self)
        obtain ⟨info, hinfo, hparse⟩ := jsonParseCephDF_of_some confStripeUnit (stack i) used avail
          hp helement
        rw [hchunks, Option.getD_some, Prod.mk.injEq] at hinfo
        -- `info` has the pool's own `k` and `m`: nothing is left of the stack
        have hcut : rawAvail info e.avail = cutAvail osdmap e := by
          simp only [rawAvail, cutAvail, hchunks, hinfo.1, hinfo.2]
        have hword : add64 used e.used < 2 ^ 64 := Nat.mod_lt _ (by norm_num)
        rw [hparse, if_neg (by rw [hinfo.1]; exact hk), hcut]
        dsimp only
        rw [hrest _ _ _ hword, List.filterMap_cons_some helement, List.map_cons,
          List.map_cons, List.sum_cons, largest_cons, max_assoc, add64, Nat.mod_add_mod,
          Nat.add_assoc]

/-- A run that ends goes on behind a pool, and has neither thrown nor divided by zero there. -/
theorem dfLoop_cons_returned {stack : ℕ → PoolInfo} {pool : Option PoolJson}
    {rest : List (Option PoolJson)} {ret : ℤ} {result : ClusterData}
    (h : dfLoop confStripeUnit osdmap stack (pool :: rest) i used avail = .returned ret result) :
    jsonParseCephDF confStripeUnit osdmap (stack i) pool used avail ≠ .threw ∧
      jsonParseCephDF confStripeUnit osdmap (stack i) pool used avail ≠ .dividedByZero ∧
        ∃ used' avail', dfLoop confStripeUnit osdmap stack rest (i + 1) used' avail' =
          .returned ret result := by
  rw [dfLoop] at h
  cases hparse : jsonParseCephDF confStripeUnit osdmap (stack i) pool used avail with
  | threw =>
    rw [hparse] at h
    cases h
  | dividedByZero =>
    rw [hparse] at h
    cases h
  | error _ =>
    rw [hparse] at h
    exact ⟨by simp, by simp, used, avail, h⟩
  | ok used' avail' =>
    rw [hparse] at h
    exact ⟨by simp, by simp, used', avail', h⟩

/-- A run that ends has found numbers only. -/
theorem numbers_of_dfLoop {stack : ℕ → PoolInfo} {ret : ℤ} {result : ClusterData}
    (h : dfLoop confStripeUnit osdmap stack poolList i used avail = .returned ret result) :
    ∀ poolJson, some poolJson ∈ poolList → Numbers osdmap poolJson := by
  induction poolList generalizing i used avail with
  | nil =>
    rintro poolJson ⟨⟩
  | cons pool rest ih =>
    obtain ⟨hthrew, -, used', avail', hrest⟩ := dfLoop_cons_returned h
    intro poolJson hmem
    rcases List.mem_cons.mp hmem with rfl | hmem
    · exact numbers_of_not_threw confStripeUnit (stack i) used avail hthrew
    · exact ih hrest poolJson hmem

/-- With zeros on the stack, also a `k` for every pool. -/
theorem divides_of_dfLoop {ret : ℤ} {result : ClusterData}
    (h : dfLoop confStripeUnit osdmap (fun _ => ⟨0, 0, 0⟩) poolList i used avail =
      .returned ret result) :
    ∀ e ∈ poolList.filterMap element,
      ∃ k m, chunks osdmap (UInt32.ofNat e.id) = some (k, m) ∧ k ≠ 0 := by
  have hnum := numbers_of_dfLoop h
  induction poolList generalizing i used avail with
  | nil =>
    rintro e ⟨⟩
  | cons pool rest ih =>
    obtain ⟨-, hzero, used', avail', hrest⟩ := dfLoop_cons_returned h
    intro e he
    obtain ⟨p, hp, helement⟩ := List.mem_filterMap.mp he
    rcases List.mem_cons.mp hp with rfl | hp
    · cases p with
      | none => cases helement
      | some poolJson =>
        exact chunks_of_not_zero (hnum poolJson (by simp)) helement hzero
    · exact ih hrest (fun p hp => hnum p (List.mem_cons_of_mem _ hp)) e
        (List.mem_filterMap.mpr ⟨p, hp, helement⟩)

end Loop

/-! ## The largest value -/

section Largest

variable {osdmap : OsdMap} {e : Element} {l : List ℕ} {x : ℕ}

theorem largest_le_iff : largest l ≤ x ↔ ∀ y ∈ l, y ≤ x := by
  induction l with
  | nil => simp [largest]
  | cons y l ih => rw [largest_cons, max_le_iff, ih, List.forall_mem_cons]

theorem largest_mem (h : largest l ≠ 0) : largest l ∈ l := by
  induction l with
  | nil => exact absurd rfl h
  | cons y l ih =>
    rw [largest_cons] at h ⊢
    rcases max_choice y (largest l) with hy | hl
    · rw [hy]
      exact List.mem_cons_self
    · rw [hl] at h ⊢
      exact List.mem_cons_of_mem _ (ih h)

/-- The largest of some numbers. -/
theorem largest_eq_iff : largest l = x ↔ (∀ y ∈ l, y ≤ x) ∧ (x = 0 ∨ x ∈ l) := by
  rw [← largest_le_iff]
  constructor
  · rintro rfl
    exact ⟨le_rfl, or_iff_not_imp_left.mpr largest_mem⟩
  · rintro ⟨hle, rfl | hmem⟩
    · exact Nat.le_zero.mp hle
    · exact le_antisymm hle (largest_le_iff.mp le_rfl x hmem)

/-- Cutting a product to 64 bits makes the quotient smaller. -/
theorem mod_div_eq_iff {p k : ℕ} (hk : 0 < k) (hlt : k < 2 ^ 64) :
    p % 2 ^ 64 / k ≤ p / k ∧ (p % 2 ^ 64 / k = p / k ↔ p < 2 ^ 64) := by
  have hle : p % 2 ^ 64 / k ≤ p / k := Nat.div_le_div_right (Nat.mod_le ..)
  refine ⟨hle, ?_, fun h => by rw [Nat.mod_eq_of_lt h]⟩
  intro heq
  by_contra hge
  -- a product that is cut loses `2 ^ 64`, which is more than `k`
  have hcut : p % 2 ^ 64 + k ≤ p := by omega
  have hless : (p % 2 ^ 64 + k) / k ≤ p / k := Nat.div_le_div_right hcut
  rw [Nat.add_div_right _ hk] at hless
  omega

theorem toNat_toUInt32 {z : ℤ} (h : 0 ≤ z) (hlt : z < 2 ^ 31) : (toUInt32 z).toNat = z.toNat := by
  rw [toUInt32, UInt32.toNat_ofNat']
  omega

theorem stoi_lt {s : Bytes} {z : ℤ} (h : stoi s = some z) : z < 2 ^ 31 := by
  rw [stoi] at h
  cases hn : leadingNumber s with
  | none =>
    rw [hn] at h
    cases h
  | some n =>
    rw [hn] at h
    dsimp only at h
    split_ifs at h with hrange
    obtain rfl := Option.some.inj h
    exact hrange.2

/-- A pool's `k` and `m` are what `GetPoolBaseInfo` finds, and their sum is one of 32 bits. -/
theorem chunks_of_geometry {id k m : ℕ} (hid : id < 2 ^ 32) (h : geometry osdmap id = some (k, m)) :
    ∃ k' m', chunks osdmap (UInt32.ofNat id) = some (k', m') ∧ k'.toNat = k ∧ m'.toNat = m ∧
      0 < k ∧ k + m < 2 ^ 32 := by
  have hword : (UInt32.ofNat id).toNat = id := UInt32.toNat_ofNat_of_lt' hid
  rw [geometry] at h
  rw [chunks, hword]
  cases hpool : osdmap.pools.lookup (id : ℤ) with
  | none =>
    rw [hpool] at h
    cases h
    exact ⟨1, DEFAULT_M, rfl, by decide, rfl, by decide, by decide⟩
  | some pool =>
    rw [hpool] at h
    cases pool with
    | replicated size pos =>
      cases h
      have hsize := size.toNat_lt
      have hsub : (size - 1).toNat = size.toNat - 1 :=
        UInt32.toNat_sub_of_le _ _ (UInt32.le_iff_toNat_le.mpr pos)
      exact ⟨1, size - 1, rfl, by decide, hsub, by decide, by omega⟩
    | erasure name =>
      simp only [Option.bind_eq_bind, Option.bind_eq_some_iff] at h
      obtain ⟨eck, hk, ecm, hm, z, hz, w, hw, hlast⟩ := h
      split_ifs at hlast with hrange
      cases hlast
      have hzlt := stoi_lt hz
      have hwlt := stoi_lt hw
      refine ⟨toUInt32 z, toUInt32 w, ?_, toNat_toUInt32 (by omega) hzlt,
        toNat_toUInt32 hrange.2 hwlt, by omega, by omega⟩
      simp only [hk, hm, hz, hw, Option.bind_eq_bind, Option.bind_some]

/-- **One pool** that is looked up under its own id. -/
theorem cutAvail_le (hgeometry : (geometry osdmap e.id).isSome) (hplaced : ¬ Misplaced osdmap e) :
    cutAvail osdmap e ≤ exactAvail osdmap e ∧
      (cutAvail osdmap e = exactAvail osdmap e ↔ ProductFits osdmap e) := by
  obtain ⟨⟨k, m⟩, hkm⟩ := Option.isSome_iff_exists.mp hgeometry
  rw [Misplaced, not_not, hkm] at hplaced
  obtain ⟨k', m', hchunks, hk, hm, hpos, hsum⟩ :=
    chunks_of_geometry (Nat.mod_lt e.id (by norm_num)) hplaced.symm
  have hword : UInt32.ofNat (e.id % 2 ^ 32) = UInt32.ofNat e.id := by
    apply UInt32.toNat_inj.mp
    rw [UInt32.toNat_ofNat', UInt32.toNat_ofNat', Nat.mod_mod]
  have hadd : (m' + k').toNat = k + m := by
    rw [UInt32.toNat_add, hk, hm, Nat.add_comm]
    exact Nat.mod_eq_of_lt hsum
  have hcut : cutAvail osdmap e = e.avail * (k + m) % 2 ^ 64 / k := by
    rw [hword] at hchunks
    simp only [cutAvail, hchunks, hadd, hk]
  have hexact : exactAvail osdmap e = e.avail * (k + m) / k := by
    simp only [exactAvail, hkm]
  have hfits : ProductFits osdmap e ↔ e.avail * (k + m) < 2 ^ 64 := by
    simp only [ProductFits, hkm, Option.some.injEq, Prod.mk.injEq]
    exact ⟨fun h => h k m ⟨rfl, rfl⟩, by rintro h k m ⟨rfl, rfl⟩; exact h⟩
  rw [hcut, hexact, hfits]
  exact mod_div_eq_iff hpos (by omega)

/-- **The largest value** that the code finds. -/
theorem largest_cutAvail_iff {es : List Element} (hgeometry : ∀ e ∈ es, (geometry osdmap e.id).isSome) :
    largest (es.map (cutAvail osdmap)) = largest (es.map (exactAvail osdmap)) ↔
      (∀ e ∈ es, Misplaced osdmap e →
        cutAvail osdmap e ≤ largest (es.map (exactAvail osdmap))) ∧
      (largest (es.map (exactAvail osdmap)) = 0 ∨
        ∃ e ∈ es,
          Misplaced osdmap e ∧ cutAvail osdmap e = largest (es.map (exactAvail osdmap)) ∨
            ¬ Misplaced osdmap e ∧ ProductFits osdmap e ∧
              exactAvail osdmap e = largest (es.map (exactAvail osdmap))) := by
  have hexact : ∀ e ∈ es, exactAvail osdmap e ≤ largest (es.map (exactAvail osdmap)) :=
    fun e he => largest_le_iff.mp le_rfl _ (List.mem_map_of_mem he)
  rw [largest_eq_iff, List.forall_mem_map, List.mem_map]
  refine and_congr ?_ (or_congr_right ?_)
  · refine forall₂_congr fun e he => ⟨fun h _ => h, fun h => ?_⟩
    -- a pool under its own id never seems larger than it is
    by_cases hplaced : Misplaced osdmap e
    · exact h hplaced
    · exact (cutAvail_le (hgeometry e he) hplaced).1.trans (hexact e he)
  · constructor
    · rintro ⟨e, he, heq⟩
      refine ⟨e, he, ?_⟩
      by_cases hplaced : Misplaced osdmap e
      · exact .inl ⟨hplaced, heq⟩
      · obtain ⟨hle, hfits⟩ := cutAvail_le (hgeometry e he) hplaced
        have hsame : cutAvail osdmap e = exactAvail osdmap e :=
          le_antisymm hle (heq ▸ hexact e he)
        exact .inr ⟨hplaced, hfits.mp hsame, by rw [← hsame, heq]⟩
    · rintro ⟨e, he, ⟨-, heq⟩ | ⟨hplaced, hfits, heq⟩⟩
      · exact ⟨e, he, heq⟩
      · exact ⟨e, he, by rw [(cutAvail_le (hgeometry e he) hplaced).2.mpr hfits, heq]⟩

end Largest

/-- Pool 1 is erasure-coded, 4 and 2; pool 2 has a profile without `k` and `m`. -/
def twoProfiles : OsdMap where
  pools := [(1, .erasure (ascii ['a'])), (2, .erasure (ascii ['b']))]
  profiles := [(ascii ['a'], [(kName, ascii ['4']), (mName, ascii ['2'])]), (ascii ['b'], [])]

def poolJson (id used avail : String) : Option PoolJson :=
  some { id := ascii id.toList, stats := some ⟨ascii used.toList, ascii avail.toList⟩ }

end GcAdaptor.CephDf
