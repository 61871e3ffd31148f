/-
The **views of the cluster** the proxy hands out as C arrays: `CephProxyGetOSDMap` and
`CephProxyGetPGMap` (`ceph_proxy/CephProxyInterface.cc`).

The OSD view lists each IP once. A first pass counts the OSDs and gives an IP its index the first
time it is seen, a second one copies the IPs to their places, a third one writes the OSDs with the
indices of their IPs. `Interned` is what the first pass keeps: the IPs in the order they were seen,
and a map that is a permutation of that list with its positions.

A PG's row starts with its own length, so its OSDs are shifted by one. The rows are counted in an
`int`, although `num` has 64 bits and the OSDs are counted in a `uint32_t`.
-/
import Mathlib.Data.List.Dedup
import GcAdaptor.Cxx

set_option autoImplicit false

namespace GcAdaptor.ClusterViews

open GcAdaptor.Wire GcAdaptor.Cxx

/-! ## The maps and the views -/

/-- `std::map<uint32_t, β>`. -/
structure UInt32Map (β : Type) where
  entries : List (UInt32 × β)
  ascending : entries.Pairwise fun p q => p.1 < q.1

/-- Weight and IP of an OSD. -/
abbrev Osd := ℤ × Bytes

/-- Arrays are the elements they were allocated with. `ip` holds what the texts are as C strings. -/
structure OSDStat where
  num : ℕ := 0
  osdId : List (Option UInt32) := []
  weight : List (Option ℤ) := []
  ipIndex : List (Option ℕ) := []
  ip : List (Option Bytes) := []
  ipListLength : ℕ := 0

structure PGLocation where
  num : ℕ := 0
  pg : List (Option UInt32) := []
  osd : List (Option (List (Option ℤ))) := []

def EINVAL : ℤ := 22

/-! ## `CephProxyGetOSDMap` -/

/-- An OSD in the first pass. -/
def countOsd (s : OSDStat × List (Bytes × ℕ)) (osdIter : UInt32 × Osd) :
    OSDStat × List (Bytes × ℕ) :=
  let stat := { s.1 with num := add64 s.1.num 1 }
  match s.2.lookup osdIter.2.2 with
  | some _ => (stat, s.2)
  | none =>
    -- the index is the length before it grows
    ({ stat with ipListLength := add32 stat.ipListLength 1 },
      mapSet osdIter.2.2 stat.ipListLength s.2)

/-- The second pass; `strcpy` stops at a NUL. -/
def copyIps (ipMap : List (Bytes × ℕ)) (ip : List (Option Bytes)) : Option (List (Option Bytes)) :=
  ipMap.foldlM (fun ip ipIter => write ip ipIter.2 (cStr ipIter.1)) ip

/-- The third pass. `ipMap[..]` would add a zero for an IP that is not there. -/
def fillOsds (ipMap : List (Bytes × ℕ)) :
    List (UInt32 × Osd) → ℕ → OSDStat → Option OSDStat
  | [], _, stat => some stat
  | osdIter :: rest, index, stat => do
    let osdId ← write stat.osdId index osdIter.1
    let weight ← write stat.weight index osdIter.2.1
    let ipIndex ← write stat.ipIndex index ((ipMap.lookup osdIter.2.2).getD 0)
    fillOsds ipMap rest (add32 index 1)
      { stat with osdId := osdId, weight := weight, ipIndex := ipIndex }

/-- `proxy` is what `GetOSDMap` returns and fills, `none` for a null proxy; `none` is undefined
behaviour. -/
def cephProxyGetOSDMap (proxy : Option (ℤ × UInt32Map Osd)) (stat : OSDStat) :
    Option (ℤ × OSDStat) :=
  match proxy with
  | none => some (-EINVAL, stat)
  | some (ret, osdMap) =>
    if ret ≠ 0 then some (ret, {})
    else
      match osdMap.entries.foldl countOsd ({}, []) with
      | (stat, ipMap) =>
        if stat.num = 0 then some (0, stat)
        else do
          let ip ← copyIps ipMap (List.replicate stat.ipListLength none)
          let stat ← fillOsds ipMap osdMap.entries 0
            { stat with
              osdId := List.replicate stat.num none
              weight := List.replicate stat.num none
              ipIndex := List.replicate stat.num none
              ip := ip }
          some (0, stat)

/-! ## `CephProxyGetPGMap` -/

/-- The inner loop, with `osdIndex`. -/
def fillRow : List ℤ → ℤ → List (Option ℤ) → Option (List (Option ℤ))
  | [], _, row => some row
  | o :: rest, osdIndex, row => do
    let row ← write row osdIndex o
    let osdIndex ← incInt osdIndex
    fillRow rest osdIndex row

/-- The row of a PG. -/
def pgRow (osds : List ℤ) : Option (List (Option ℤ)) := do
  let row ← write (List.replicate (osds.length + 1) none) 0 (int32 osds.length)
  fillRow osds 1 row

/-- The outer loop, with `index`. The row is there when its place is written to. -/
def fillPgs : List (UInt32 × List ℤ) → ℤ → PGLocation → Option PGLocation
  | [], _, pgView => some pgView
  | iter :: rest, index, pgView => do
    let pg ← write pgView.pg index iter.1
    let row ← pgRow iter.2
    let osd ← write pgView.osd index row
    let index ← incInt index
    fillPgs rest index { pgView with pg := pg, osd := osd }

/-- As `cephProxyGetOSDMap`. -/
def cephProxyGetPGMap (proxy : Option (ℤ × UInt32Map (List ℤ))) (pgView : PGLocation) :
    Option (ℤ × PGLocation) :=
  match proxy with
  | none => some (-EINVAL, pgView)
  | some (ret, pgMap) =>
    -- `pgView` has been set to zeros
    if ret ≠ 0 then some (ret, {})
    else if pgMap.entries.length = 0 then some (0, {})
    else do
      let pgView ← fillPgs pgMap.entries 0
        { num := pgMap.entries.length
          pg := List.replicate pgMap.entries.length none
          osd := List.replicate pgMap.entries.length none }
      some (0, pgView)

/-! ## What the views should show -/

/-- The arrays are `osdMap`: `idx` and `ips` are what `ipIndex` and `ip` hold. -/
structure OsdFaithful (osdMap : List (UInt32 × Osd)) (stat : OSDStat) (idx : List ℕ)
    (ips : List Bytes) : Prop where
  num : stat.num = osdMap.length
  osdId : stat.osdId = osdMap.map fun p => some p.1
  weight : stat.weight = osdMap.map fun p => some p.2.1
  ipIndex : stat.ipIndex = idx.map some
  ip : stat.ip = ips.map some
  ipListLength : stat.ipListLength = ips.length
  nodup : ips.Nodup
  lt : ∀ j ∈ idx, j < stat.ipListLength
  used : ∀ j < stat.ipListLength, j ∈ idx
  /-- `ip[ipIndex[i]]` -/
  host : idx.map (fun j => ips[j]?) = osdMap.map fun p => some p.2.2

/-- A list behind its length. -/
def withLength (osds : List ℤ) : List (Option ℤ) := ((osds.length : ℤ) :: osds).map some

structure PgFaithful (pgMap : List (UInt32 × List ℤ)) (pgView : PGLocation) : Prop where
  num : pgView.num = pgMap.length
  pg : pgView.pg = pgMap.map fun p => some p.1
  osd : pgView.osd = pgMap.map fun p => some (withLength p.2)

/-! ## The PG view -/

/-- A row that was written has been counted. -/
theorem lt_of_fillRow {osds : List ℤ} {osdIndex : ℤ} {row row' : List (Option ℤ)}
    (hlt : osdIndex < 2 ^ 31) (h : fillRow osds osdIndex row = some row') :
    osdIndex + osds.length < 2 ^ 31 := by
  induction osds generalizing osdIndex row with
  | nil => simpa using hlt
  | cons o rest ih =>
    obtain ⟨row₁, -, h⟩ := Option.bind_eq_some_iff.mp h
    obtain ⟨osdIndex', hinc, h⟩ := Option.bind_eq_some_iff.mp h
    obtain ⟨rfl, hnext⟩ := incInt_eq_some hinc
    have hrest := ih hnext h
    push_cast [List.length_cons]
    omega

theorem fillRow_filled (x : ℤ) (pre osds : List ℤ) {n : ℕ}
    (hn : n = pre.length + osds.length + 1) (hlt : n < 2 ^ 31) :
    fillRow osds (pre.length + 1) (filled n (x :: pre)) = some (filled n (x :: (pre ++ osds))) := by
  induction osds generalizing pre with
  | nil => simp [fillRow]
  | cons o rest ih =>
    rw [List.length_cons] at hn
    have hwrite : write (filled n (x :: pre)) (pre.length + 1) o
        = some (filled n (x :: (pre ++ [o]))) := by
      have h := write_filled (n := n) (x :: pre) o (by rw [List.length_cons]; omega)
      rwa [List.length_cons, Nat.cast_add_one] at h
    have hinc : incInt (pre.length + 1) = some (((pre ++ [o]).length : ℤ) + 1) := by
      rw [incInt_of_lt (by omega), List.length_append, List.length_singleton, Nat.cast_add_one]
    rw [fillRow, hwrite, Option.bind_eq_bind, Option.bind_some, hinc, Option.bind_eq_bind,
      Option.bind_some, ih _ (by simp only [List.length_append, List.length_singleton]; omega)]
    simp

theorem pgRow_eq {osds : List ℤ} (h : osds.length + 1 < 2 ^ 31) :
    pgRow osds = some (withLength osds) := by
  have hfirst : write (List.replicate (osds.length + 1) none) 0 (int32 osds.length)
      = some (filled (osds.length + 1) [(osds.length : ℤ)]) := by
    rw [int32_of_mem (by omega) (by omega)]
    simpa using write_filled (n := osds.length + 1) [] (osds.length : ℤ) (by simp)
  have hrest := fillRow_filled osds.length [] osds (by simp) h
  simp only [List.length_nil, Nat.cast_zero, zero_add, List.nil_append] at hrest
  rw [pgRow, hfirst, Option.bind_eq_bind, Option.bind_some, hrest, withLength, ← filled_length,
    List.length_cons]

theorem lt_of_pgRow {osds : List ℤ} {row : List (Option ℤ)} (h : pgRow osds = some row) :
    osds.length + 1 < 2 ^ 31 := by
  obtain ⟨row₁, -, h⟩ := Option.bind_eq_some_iff.mp h
  have hlt := lt_of_fillRow (by norm_num) h
  omega

/-- PGs that were written have been counted, and so have their OSDs. -/
theorem lt_of_fillPgs {pgs : List (UInt32 × List ℤ)} {index : ℤ} {pgView pgView' : PGLocation}
    (hlt : index < 2 ^ 31) (h : fillPgs pgs index pgView = some pgView') :
    index + pgs.length < 2 ^ 31 ∧ ∀ p ∈ pgs, p.2.length + 1 < 2 ^ 31 := by
  induction pgs generalizing index pgView with
  | nil => simpa using hlt
  | cons iter rest ih =>
    obtain ⟨pg, -, h⟩ := Option.bind_eq_some_iff.mp h
    obtain ⟨row, hrow, h⟩ := Option.bind_eq_some_iff.mp h
    obtain ⟨osd, -, h⟩ := Option.bind_eq_some_iff.mp h
    obtain ⟨index', hinc, h⟩ := Option.bind_eq_some_iff.mp h
    obtain ⟨rfl, hnext⟩ := incInt_eq_some hinc
    obtain ⟨hcount, hrows⟩ := ih hnext h
    constructor
    · push_cast [List.length_cons]
      omega
    · intro p hp
      rcases List.mem_cons.mp hp with rfl | hp
      · exact lt_of_pgRow hrow
      · exact hrows p hp

/-- The view with the PGs of `pre` written. -/
def pgPrefix (n : ℕ) (pre : List (UInt32 × List ℤ)) : PGLocation where
  num := n
  pg := filled n (pre.map (·.1))
  osd := filled n (pre.map fun p => withLength p.2)

theorem fillPgs_prefix (pre : List (UInt32 × List ℤ)) {pgs : List (UInt32 × List ℤ)} {n : ℕ}
    (hn : n = pre.length + pgs.length) (hlt : n < 2 ^ 31)
    (hrows : ∀ p ∈ pgs, p.2.length + 1 < 2 ^ 31) :
    fillPgs pgs pre.length (pgPrefix n pre) = some (pgPrefix n (pre ++ pgs)) := by
  induction pgs generalizing pre with
  | nil => simp [fillPgs]
  | cons iter rest ih =>
    rw [List.length_cons] at hn
    have hpg := write_filled (n := n) (pre.map (·.1)) iter.1 (by rw [List.length_map]; omega)
    have hosd := write_filled (n := n) (pre.map fun p => withLength p.2) (withLength iter.2)
      (by rw [List.length_map]; omega)
    rw [List.length_map] at hpg hosd
    have hinc : incInt pre.length = some ((pre ++ [iter]).length : ℤ) := by
      rw [incInt_of_lt (by omega), List.length_append, List.length_singleton, Nat.cast_add_one]
    have hnext := ih (pre ++ [iter])
      (by simp only [List.length_append, List.length_singleton]; omega)
      (fun p hp => hrows p (by simp [hp]))
    rw [List.append_assoc, List.singleton_append] at hnext
    rw [← hnext]
    simp only [fillPgs, pgPrefix, hpg, hosd, hinc, pgRow_eq (hrows iter (by simp)),
      Option.bind_eq_bind, Option.bind_some, List.map_append, List.map_cons, List.map_nil]

theorem pgFaithful_prefix (pgMap : List (UInt32 × List ℤ)) :
    PgFaithful pgMap (pgPrefix pgMap.length pgMap) where
  num := rfl
  pg := by simp [pgPrefix, filled]
  osd := by simp [pgPrefix, filled]

theorem cephProxyGetPGMap_faithful_iff (pgMap : UInt32Map (List ℤ)) (pgView : PGLocation) :
    (∃ pgView', cephProxyGetPGMap (some (0, pgMap)) pgView = some (0, pgView') ∧
      PgFaithful pgMap.entries pgView') ↔
    pgMap.entries.length < 2 ^ 31 ∧ ∀ p ∈ pgMap.entries, p.2.length + 1 < 2 ^ 31 := by
  rw [cephProxyGetPGMap, if_neg (by simp)]
  constructor
  · rintro ⟨pgView', hrun, -⟩
    split_ifs at hrun with hempty
    · rw [List.length_eq_zero_iff.mp hempty]
      simp
    · obtain ⟨view, hfill, -⟩ := Option.bind_eq_some_iff.mp hrun
      simpa using lt_of_fillPgs (by norm_num) hfill
  · rintro ⟨hlt, hrows⟩
    refine ⟨pgPrefix pgMap.entries.length pgMap.entries, ?_, pgFaithful_prefix _⟩
    split_ifs with hempty
    · simp [pgPrefix, List.length_eq_zero_iff.mp hempty]
    · have hfill := fillPgs_prefix [] (n := pgMap.entries.length) (by simp) hlt hrows
      simp only [pgPrefix, List.map_nil, filled_nil, List.length_nil, Nat.cast_zero,
        List.nil_append] at hfill
      rw [hfill]
      rfl

/-! ## The OSD view -/

/-- There are no more entries than keys. -/
theorem UInt32Map.length_le {β : Type} (m : UInt32Map β) : m.entries.length ≤ 2 ^ 32 := by
  have hnd : (m.entries.map fun p => p.1.toNat).Nodup := by
    rw [List.Nodup, List.pairwise_map]
    exact m.ascending.imp fun h => (UInt32.lt_iff_toNat_lt.mp h).ne
  have hsub : (m.entries.map fun p => p.1.toNat) ⊆ List.range (2 ^ 32) := by
    intro k hk
    obtain ⟨p, -, rfl⟩ := List.mem_map.mp hk
    exact List.mem_range.mpr p.1.toNat_lt
  have hle := (List.subperm_of_subset hnd hsub).length_le
  rwa [List.length_map, List.length_range] at hle

/-- What the first pass has when it has seen `pre`: `order` lists the IPs as they came. -/
structure Interned (pre : List (UInt32 × Osd)) (order : List Bytes)
    (s : OSDStat × List (Bytes × ℕ)) : Prop where
  num : s.1.num = pre.length
  ipListLength : s.1.ipListLength = order.length
  nodup : order.Nodup
  mem : ∀ ip, ip ∈ order ↔ ip ∈ pre.map (·.2.2)
  perm : s.2.Perm order.zipIdx

section Interned

variable {pre : List (UInt32 × Osd)} {order : List Bytes} {s : OSDStat × List (Bytes × ℕ)}

theorem Interned.keys_perm (h : Interned pre order s) : (s.2.map (·.1)).Perm order := by
  have hperm := h.perm.map (·.1)
  rwa [List.zipIdx_map_fst] at hperm

theorem Interned.mem_ipMap (h : Interned pre order s) {ip : Bytes} {j : ℕ} :
    (ip, j) ∈ s.2 ↔ order[j]? = some ip := by
  rw [h.perm.mem_iff, List.mk_mem_zipIdx_iff_getElem?]

theorem Interned.lookup (h : Interned pre order s) {ip : Bytes} {j : ℕ} (hj : order[j]? = some ip) :
    s.2.lookup ip = some j :=
  lookup_of_mem (h.keys_perm.nodup_iff.mpr h.nodup) (h.mem_ipMap.mpr hj)

theorem interned_nil : Interned [] [] ({}, []) where
  num := rfl
  ipListLength := rfl
  nodup := List.nodup_nil
  mem := by simp
  perm := .refl _

theorem interned_countOsd (h : Interned pre order s) {p : UInt32 × Osd}
    (hnum : pre.length + 1 < 2 ^ 64) (hips : (order ++ [p.2.2]).Nodup → order.length + 1 < 2 ^ 32) :
    ∃ order', Interned (pre ++ [p]) order' (countOsd s p) := by
  have hcount : add64 s.1.num 1 = (pre ++ [p]).length := by
    rw [h.num, add64_of_lt hnum, List.length_append, List.length_singleton]
  rw [countOsd]
  cases hl : s.2.lookup p.2.2 with
  | some j =>
    -- the list stays as it is
    have hseen : p.2.2 ∈ order := List.mem_of_getElem? (h.mem_ipMap.mp (mem_of_lookup hl))
    refine ⟨order, hcount, h.ipListLength, h.nodup, ?_, h.perm⟩
    intro ip
    rw [List.map_append, List.mem_append, ← h.mem, List.map_singleton, List.mem_singleton]
    exact ⟨Or.inl, fun hip => hip.elim id fun heq => heq ▸ hseen⟩
  | none =>
    -- a new IP goes to the end of the list, and into the map at its place in the order of keys
    have hkey := not_mem_keys_of_lookup hl
    have hnew : p.2.2 ∉ order := fun hmem => hkey (h.keys_perm.mem_iff.mpr hmem)
    have hnd : (order ++ [p.2.2]).Nodup :=
      h.nodup.append (List.nodup_singleton _) (List.disjoint_singleton.mpr hnew)
    refine ⟨order ++ [p.2.2], hcount, ?_, hnd, ?_, ?_⟩
    · rw [List.length_append, List.length_singleton]
      show add32 s.1.ipListLength 1 = _
      rw [h.ipListLength, add32_of_lt (hips hnd)]
    · intro ip
      rw [List.mem_append, h.mem, List.map_append, List.mem_append, List.map_singleton]
    · show (mapSet p.2.2 s.1.ipListLength s.2).Perm _
      rw [List.zipIdx_append, h.ipListLength]
      refine (mapSet_perm hkey).trans ((h.perm.cons _).trans ?_)
      simpa using (List.perm_append_singleton (p.2.2, order.length) order.zipIdx).symm

/-- The whole first pass. -/
theorem interned_foldl {osdMap : List (UInt32 × Osd)} (hnum : osdMap.length < 2 ^ 64)
    (hips : (osdMap.map (·.2.2)).dedup.length < 2 ^ 32) :
    ∃ order, Interned osdMap order (osdMap.foldl countOsd ({}, [])) := by
  induction osdMap using List.reverseRecOn with
  | nil => exact ⟨[], interned_nil⟩
  | append_singleton pre p ih =>
    rw [List.length_append, List.length_singleton] at hnum
    have hsub : (pre.map (·.2.2)).dedup ⊆ ((pre ++ [p]).map (·.2.2)).dedup := by
      intro ip hip
      rw [List.mem_dedup] at hip ⊢
      rw [List.map_append]
      exact List.mem_append_left _ hip
    have hle := (List.subperm_of_subset (List.nodup_dedup _) hsub).length_le
    obtain ⟨order, h⟩ := ih (by omega) (by omega)
    rw [List.foldl_append]
    refine interned_countOsd h hnum fun hnd => ?_
    have hsub' : order ++ [p.2.2] ⊆ ((pre ++ [p]).map (·.2.2)).dedup := by
      intro ip hip
      rw [List.mem_append, h.mem] at hip
      rw [List.mem_dedup, List.map_append]
      exact List.mem_append.mpr hip
    have hle' := (List.subperm_of_subset hnd hsub').length_le
    rw [List.length_append, List.length_singleton] at hle'
    omega

/-- The second pass puts each IP at its index. -/
theorem copyIps_eq (h : Interned pre order s) (hclean : ∀ ip ∈ order, 0 ∉ ip) :
    copyIps s.2 (List.replicate order.length none) = some (order.map some) := by
  have hsnd : (s.2.map (·.2)).Nodup := by
    rw [(h.perm.map (·.2)).nodup_iff, List.zipIdx_map_snd]
    exact List.nodup_range'
  have hin : ∀ p ∈ s.2, p.2 < (List.replicate order.length (none : Option Bytes)).length := by
    intro p hp
    rw [List.length_replicate]
    exact (List.getElem?_eq_some_iff.mp (h.mem_ipMap.mp hp)).1
  obtain ⟨ip, hrun, hlen, hval, -⟩ := foldlM_write cStr hin hsnd
  rw [copyIps, hrun]
  congr 1
  -- the map is walked in the order of its keys, so the places are compared one by one
  refine List.ext_getElem? fun j => ?_
  rw [List.getElem?_map]
  cases hj : order[j]? with
  | some text =>
    rw [hval _ (h.mem_ipMap.mpr hj), Option.map_some,
      cStr_of_not_mem (hclean text (List.mem_of_getElem? hj))]
  | none =>
    rw [List.getElem?_eq_none_iff] at hj
    rw [Option.map_none, List.getElem?_eq_none_iff, hlen, List.length_replicate]
    exact hj

end Interned

/-- The view with the OSDs of `pre` written. -/
def osdPrefix (ipMap : List (Bytes × ℕ)) (stat : OSDStat) (n : ℕ) (pre : List (UInt32 × Osd)) :
    OSDStat :=
  { stat with
    osdId := filled n (pre.map (·.1))
    weight := filled n (pre.map (·.2.1))
    ipIndex := filled n (pre.map fun p => (ipMap.lookup p.2.2).getD 0) }

/-- The third pass. Its index wraps only when the last OSD has been written. -/
theorem fillOsds_prefix (ipMap : List (Bytes × ℕ)) (stat : OSDStat) {n : ℕ}
    (pre osds : List (UInt32 × Osd)) (hn : n = pre.length + osds.length) (hle : n ≤ 2 ^ 32) :
    fillOsds ipMap osds (pre.length % 2 ^ 32) (osdPrefix ipMap stat n pre)
      = some (osdPrefix ipMap stat n (pre ++ osds)) := by
  induction osds generalizing pre with
  | nil => simp [fillOsds]
  | cons osdIter rest ih =>
    rw [List.length_cons] at hn
    have hid := write_filled (n := n) (pre.map (·.1)) osdIter.1 (by rw [List.length_map]; omega)
    have hweight := write_filled (n := n) (pre.map (·.2.1)) osdIter.2.1
      (by rw [List.length_map]; omega)
    have hindex := write_filled (n := n) (pre.map fun p => (ipMap.lookup p.2.2).getD 0)
      ((ipMap.lookup osdIter.2.2).getD 0) (by rw [List.length_map]; omega)
    rw [List.length_map] at hid hweight hindex
    have hnext := ih (pre ++ [osdIter])
      (by simp only [List.length_append, List.length_singleton]; omega)
    rw [List.append_assoc, List.singleton_append, List.length_append, List.length_singleton]
      at hnext
    rw [← hnext, Nat.mod_eq_of_lt (a := pre.length) (by omega)]
    simp only [fillOsds, osdPrefix, hid, hweight, hindex, add32, Option.bind_eq_bind,
      Option.bind_some, List.map_append, List.map_cons, List.map_nil]

theorem osdFaithful_prefix {osdMap : List (UInt32 × Osd)} {order : List Bytes}
    {s : OSDStat × List (Bytes × ℕ)} (h : Interned osdMap order s) :
    OsdFaithful osdMap
      (osdPrefix s.2 { s.1 with ip := order.map some } osdMap.length osdMap)
      (osdMap.map fun p => (s.2.lookup p.2.2).getD 0) order := by
  -- each OSD's IP was given an index
  have hindex : ∀ p ∈ osdMap, ∃ j, order[j]? = some p.2.2 ∧ s.2.lookup p.2.2 = some j := by
    intro p hp
    have hmem := (h.mem p.2.2).mpr (List.mem_map_of_mem hp)
    obtain ⟨j, hj⟩ := List.mem_iff_getElem?.mp hmem
    exact ⟨j, hj, h.lookup hj⟩
  refine ⟨h.num, ?_, ?_, ?_, rfl, h.ipListLength, h.nodup, ?_, ?_, ?_⟩
  · simp [osdPrefix, filled]
  · simp [osdPrefix, filled]
  · simp [osdPrefix, filled]
  · intro j hj
    obtain ⟨p, hp, rfl⟩ := List.mem_map.mp hj
    obtain ⟨j, hget, hl⟩ := hindex p hp
    show _ < s.1.ipListLength
    rw [hl, Option.getD_some, h.ipListLength]
    exact (List.getElem?_eq_some_iff.mp hget).1
  · intro j hj
    have hlt : j < order.length := h.ipListLength ▸ hj
    have hget : order[j]? = some order[j] := List.getElem?_eq_getElem hlt
    obtain ⟨p, hp, hip⟩ := List.mem_map.mp ((h.mem _).mp (List.getElem_mem hlt))
    refine List.mem_map.mpr ⟨p, hp, ?_⟩
    rw [hip, h.lookup hget, Option.getD_some]
  · rw [List.map_map]
    refine List.map_congr_left fun p hp => ?_
    obtain ⟨j, hget, hl⟩ := hindex p hp
    rw [Function.comp_apply, hl, Option.getD_some, hget]

theorem countOsd_frame {osdMap : List (UInt32 × Osd)} {s : OSDStat × List (Bytes × ℕ)}
    (h : s.1.ipListLength < 2 ^ 32) :
    (osdMap.foldl countOsd s).1.ip = s.1.ip ∧
      (osdMap.foldl countOsd s).1.ipListLength < 2 ^ 32 := by
  induction osdMap generalizing s with
  | nil => exact ⟨rfl, h⟩
  | cons p rest ih =>
    have hlt : (countOsd s p).1.ipListLength < 2 ^ 32 := by
      rw [countOsd]
      split
      · exact h
      · exact Nat.mod_lt _ (by norm_num)
    have hip : (countOsd s p).1.ip = s.1.ip := by
      rw [countOsd]
      split <;> rfl
    exact hip ▸ ih hlt

/-- What is copied holds no NUL. -/
theorem clean_of_copyIps {ipMap : List (Bytes × ℕ)} {ip ip' : List (Option Bytes)}
    (h : ∀ text, some text ∈ ip → 0 ∉ text) (hrun : copyIps ipMap ip = some ip') :
    ∀ text, some text ∈ ip' → 0 ∉ text := by
  induction ipMap generalizing ip with
  | nil => exact Option.some.inj hrun ▸ h
  | cons ipIter rest ih =>
    rw [copyIps, List.foldlM_cons] at hrun
    obtain ⟨ip₁, hwrite, hrest⟩ := Option.bind_eq_some_iff.mp hrun
    refine ih (fun text htext => ?_) hrest
    rw [write] at hwrite
    split_ifs at hwrite
    rw [← Option.some.inj hwrite] at htext
    rcases List.mem_or_eq_of_mem_set htext with hold | hnew
    · exact h text hold
    · rw [Option.some.inj hnew, cStr]
      intro hzero
      simpa using List.mem_takeWhile_imp hzero

theorem fillOsds_frame {ipMap : List (Bytes × ℕ)} {osds : List (UInt32 × Osd)} {index : ℕ}
    {stat stat' : OSDStat} (h : fillOsds ipMap osds index stat = some stat') :
    stat'.ip = stat.ip ∧ stat'.ipListLength = stat.ipListLength := by
  induction osds generalizing index stat with
  | nil =>
    rw [fillOsds, Option.some.injEq] at h
    exact h ▸ ⟨rfl, rfl⟩
  | cons osdIter rest ih =>
    obtain ⟨osdId, -, h⟩ := Option.bind_eq_some_iff.mp h
    obtain ⟨weight, -, h⟩ := Option.bind_eq_some_iff.mp h
    obtain ⟨ipIndex, -, h⟩ := Option.bind_eq_some_iff.mp h
    have hrest := ih h
    exact hrest

/-- The passes, with what the first one leaves. -/
theorem cephProxyGetOSDMap_eq {osdMap : UInt32Map Osd} {s : OSDStat × List (Bytes × ℕ)}
    (stat : OSDStat) (hs : osdMap.entries.foldl countOsd ({}, []) = s) :
    cephProxyGetOSDMap (some (0, osdMap)) stat =
      if s.1.num = 0 then some (0, s.1)
      else (copyIps s.2 (List.replicate s.1.ipListLength none)).bind fun ip =>
        (fillOsds s.2 osdMap.entries 0 (osdPrefix s.2 { s.1 with ip := ip } s.1.num [])).bind
          fun stat => some (0, stat) := by
  rw [cephProxyGetOSDMap, if_neg (by simp), hs]
  simp only [osdPrefix, List.map_nil, filled_nil]
  rfl

/-- A view that was written has clean texts, and as many as 32 bits count. -/
theorem cephProxyGetOSDMap_clean {osdMap : UInt32Map Osd} {stat stat' : OSDStat}
    (h : cephProxyGetOSDMap (some (0, osdMap)) stat = some (0, stat')) :
    (∀ text, some text ∈ stat'.ip → 0 ∉ text) ∧ stat'.ipListLength < 2 ^ 32 := by
  obtain ⟨s, hs⟩ : ∃ s, osdMap.entries.foldl countOsd ({}, []) = s := ⟨_, rfl⟩
  obtain ⟨hip, hlt⟩ : s.1.ip = [] ∧ s.1.ipListLength < 2 ^ 32 :=
    hs ▸ countOsd_frame (s := ({}, [])) (by norm_num)
  rw [cephProxyGetOSDMap_eq stat hs] at h
  split_ifs at h with hempty
  · obtain ⟨-, rfl⟩ := Prod.mk.inj (Option.some.inj h)
    rw [hip]
    exact ⟨by simp, hlt⟩
  · obtain ⟨ip, hcopy, h⟩ := Option.bind_eq_some_iff.mp h
    obtain ⟨stat₁, hfill, h⟩ := Option.bind_eq_some_iff.mp h
    obtain ⟨-, rfl⟩ := Prod.mk.inj (Option.some.inj h)
    obtain ⟨hip', hlen⟩ := fillOsds_frame hfill
    rw [hip', hlen]
    exact ⟨clean_of_copyIps (by simp) hcopy, hlt⟩

theorem cephProxyGetOSDMap_faithful_iff (osdMap : UInt32Map Osd) (stat : OSDStat) :
    (∃ stat' idx ips, cephProxyGetOSDMap (some (0, osdMap)) stat = some (0, stat') ∧
      OsdFaithful osdMap.entries stat' idx ips) ↔
    (∀ p ∈ osdMap.entries, 0 ∉ p.2.2) ∧
      (osdMap.entries.map (·.2.2)).dedup.length < 2 ^ 32 := by
  have hle := osdMap.length_le
  constructor
  · rintro ⟨stat', idx, ips, hrun, h⟩
    obtain ⟨hclean, hlt⟩ := cephProxyGetOSDMap_clean hrun
    -- each OSD's IP is one of the texts listed
    have hlisted : ∀ p ∈ osdMap.entries, p.2.2 ∈ ips := by
      intro p hp
      have hmem : some p.2.2 ∈ idx.map fun j => ips[j]? := by
        rw [h.host]
        exact List.mem_map.mpr ⟨p, hp, rfl⟩
      obtain ⟨j, -, hj⟩ := List.mem_map.mp hmem
      exact List.mem_of_getElem? hj
    constructor
    · intro p hp
      refine hclean p.2.2 ?_
      rw [h.ip]
      exact List.mem_map_of_mem (hlisted p hp)
    · have hsub : (osdMap.entries.map (·.2.2)).dedup ⊆ ips := by
        intro ip hip
        obtain ⟨p, hp, rfl⟩ := List.mem_map.mp (List.mem_dedup.mp hip)
        exact hlisted p hp
      have hcount := (List.subperm_of_subset (List.nodup_dedup _) hsub).length_le
      rw [h.ipListLength] at hlt
      omega
  · rintro ⟨hclean, hips⟩
    obtain ⟨s, hs⟩ : ∃ s, osdMap.entries.foldl countOsd ({}, []) = s := ⟨_, rfl⟩
    obtain ⟨order, h⟩ := interned_foldl (by omega) hips
    rw [hs] at h
    have horder : ∀ ip ∈ order, 0 ∉ ip := by
      intro ip hip
      obtain ⟨p, hp, rfl⟩ := List.mem_map.mp ((h.mem ip).mp hip)
      exact hclean p hp
    refine ⟨_, _, _, ?_, osdFaithful_prefix h⟩
    rw [cephProxyGetOSDMap_eq stat hs]
    split_ifs with hempty
    · -- no OSD, no arrays
      rw [h.num, List.length_eq_zero_iff] at hempty
      have hnil : order = [] := by
        rw [List.eq_nil_iff_forall_not_mem]
        intro ip hip
        simpa [hempty] using (h.mem ip).mp hip
      rw [hempty] at hs
      simp [← hs, hempty, hnil, osdPrefix]
    · rw [h.ipListLength, copyIps_eq h horder, Option.bind_some, h.num]
      have hfill := fillOsds_prefix s.2 { s.1 with ip := order.map some } [] osdMap.entries
        (by simp) hle
      rw [List.length_nil, Nat.zero_mod, List.nil_append] at hfill
      rw [hfill, Option.bind_some]

/-- The second IP is the first one in the order of keys. -/
example : cephProxyGetOSDMap (some (0, ⟨[(1, 5, [50]), (4, 6, [49]), (7, 5, [50])], by decide⟩)) {} =
    some (0,
      { num := 3
        osdId := [some 1, some 4, some 7]
        weight := [some 5, some 6, some 5]
        ipIndex := [some 0, some 1, some 0]
        ip := [some [50], some [49]]
        ipListLength := 2 }) := rfl

/-! ## Both views -/

/-- The views are the maps exactly if no IP holds a NUL and 32 bits count the IPs, and an `int`
counts the PGs and the entries of each row. -/
theorem views_faithful_iff (osdMap : UInt32Map Osd) (stat : OSDStat) (pgMap : UInt32Map (List ℤ))
    (pgView : PGLocation) :
    ((∃ stat' idx ips, cephProxyGetOSDMap (some (0, osdMap)) stat = some (0, stat') ∧
        OsdFaithful osdMap.entries stat' idx ips) ↔
      (∀ p ∈ osdMap.entries, 0 ∉ p.2.2) ∧
        (osdMap.entries.map (·.2.2)).dedup.length < 2 ^ 32) ∧
    ((∃ pgView', cephProxyGetPGMap (some (0, pgMap)) pgView = some (0, pgView') ∧
        PgFaithful pgMap.entries pgView') ↔
      pgMap.entries.length < 2 ^ 31 ∧ ∀ p ∈ pgMap.entries, p.2.length + 1 < 2 ^ 31) :=
  ⟨cephProxyGetOSDMap_faithful_iff osdMap stat, cephProxyGetPGMap_faithful_iff pgMap pgView⟩

/-- A pool of `n` PGs that no OSD serves. -/
def unservedPool (n : ℕ) (h : n ≤ 2 ^ 32) : UInt32Map (List ℤ) where
  entries := (List.range n).map fun i => (UInt32.ofNat i, [])
  ascending := by
    rw [List.pairwise_map]
    refine List.pairwise_lt_range.imp_of_mem fun {i j} hi hj hij => ?_
    rw [List.mem_range] at hi hj
    have hsize : UInt32.size = 2 ^ 32 := rfl
    rw [UInt32.lt_iff_toNat_lt, UInt32.toNat_ofNat_of_lt' (by omega),
      UInt32.toNat_ofNat_of_lt' (by omega)]
    exact hij

theorem length_unservedPool (n : ℕ) (h : n ≤ 2 ^ 32) : (unservedPool n h).entries.length = n := by
  rw [unservedPool, List.length_map, List.length_range]

/-- The last of these PGs has no `int` for its index. -/
theorem pgView_overflows :
    ¬ ∃ pgView', cephProxyGetPGMap (some (0, unservedPool (2 ^ 31 + 1) (by decide))) {}
        = some (0, pgView') ∧
      PgFaithful (unservedPool (2 ^ 31 + 1) (by decide)).entries pgView' := by
  rw [cephProxyGetPGMap_faithful_iff]
  rintro ⟨hlt, -⟩
  rw [length_unservedPool] at hlt
  omega

end GcAdaptor.ClusterViews
