/-
The client side of the adaptor: `ClientAdaptorMsg` and the parts of `Objecter` that take its
node ids apart (`patch/ceph-global-cache.patch`).

An op on an object that `filter_msg` picks goes to a cache node instead of an osd. The node is
named by an osd number that no osd has: bit 20 marks it, bits 16 to 19 hold the cluster, bits 4
to 15 the node and bits 0 to 3 the index of one of the node's ports. `get_node_id` builds it by
additions; `check_osd_value`, `get_clusterId_from_osd`, `nodeview_change_retry_op_submit` and
`get_node_ip` read it back with masks of their own.

The fields are wide enough for every cluster and node. The port is not: `get_node_id` lets
`portNum` be 16 (or negative: it is an `int32_t`), and `ports` has 8 entries.
`getNodeId_unpacks_iff` says exactly which ids can be used.
-/
import GcAdaptor.Cxx
import GcAdaptor.InFlight

set_option autoImplicit false

namespace GcAdaptor.ClientAdaptorMsg

open GcAdaptor.Wire GcAdaptor.Cxx
open GcAdaptor.InFlight (checkOsdValue getClusterIdFromOsd)

/-! ## `filter_msg` -/

def RBD_DATA_OBJECT_NAME_FILTER_LEN : ℕ := 8
def RBD_DATA_OBJECT_NAME_LEN : ℕ := 27
def RBD_DATA_OBJECT_NAME : Bytes := ascii ['r','b','d','_','d','a','t','a']

def filterMsg (objName : Bytes) : Bool :=
  if objName.length < RBD_DATA_OBJECT_NAME_LEN then false
  else objName.take RBD_DATA_OBJECT_NAME_FILTER_LEN = RBD_DATA_OBJECT_NAME

/-! ## What CCM knows -/

def MAX_PORT_NUM : ℕ := 8

/-- `NodeInfo`; `portNum` is signed. -/
structure NodeInfo where
  publicAddrStr : Bytes
  portNum : BitVec 32
  ports : Vector (BitVec 32) MAX_PORT_NUM

/-- `PTViewPtEntry`; `nodeId` is that of `curNodeInfo`. -/
structure PtEntry where
  nodeId : BitVec 32
  indexInNode : BitVec 32

/-- What is asked of `ClientAdaptorMgr`; `none` where the call fails. -/
structure ClientAdaptorMgr where
  getPtNum : BitVec 32 → Option (BitVec 32)
  getPtEntry : BitVec 32 → BitVec 32 → Option PtEntry
  getNodeInfo : BitVec 32 → BitVec 32 → Option NodeInfo

def RET_OK : BitVec 32 := 0
def RET_CCM_PT_NUM_ERROR : BitVec 32 := 2
def RET_CCM_PT_ENTRY_ERROR : BitVec 32 := 3
def RET_CCM_NODE_INFO_ERROR : BitVec 32 := 4
def RET_CCM_PORT_NUM_ERROR : BitVec 32 := 7
def RET_CCM_IP_ERROR : BitVec 32 := 8
def RET_CCM_PARAM_ERROR : BitVec 32 := 11

/-! ## Node ids -/

def FLAG_OFFSET_BIT : ℕ := 20
def CLUSTER_ID_OFFSET : ℕ := 16
def PORT_INDEX_MASK : BitVec 32 := 0xf
def NODE_ID_OFFSET_BIT : ℕ := 4
def NODE_ID_MASK : BitVec 32 := 0xfff0
def PORT_SUPPORT_MAX : ℤ := 16

/-- `std::to_string` of a signed number. -/
def toDecimalInt (z : ℤ) : Bytes :=
  if z < 0 then ascii ['-'] ++ toDecimal z.natAbs else toDecimal z.natAbs

/-- The sum `get_node_id` builds. The remainder is taken of unsigned words. -/
def packNodeId (clusterId : BitVec 32) (entry : PtEntry) (info : NodeInfo) : BitVec 32 :=
  entry.nodeId <<< NODE_ID_OFFSET_BIT + (1 : BitVec 32) <<< FLAG_OFFSET_BIT
    + clusterId <<< CLUSTER_ID_OFFSET + entry.indexInNode % info.portNum

/-- `get_node_id`: the id or a negated error, and `pt_id` where it is assigned. `hash` is
`std::hash<string>`. -/
def getNodeId (mgr : ClientAdaptorMgr) (hash : Bytes → BitVec 64) (clusterId : BitVec 32)
    (objName : Bytes) (poolId : Int64) : BitVec 32 × Option (BitVec 32) :=
  if objName.length = 0 then (-RET_CCM_PARAM_ERROR, none)
  else
    let objId := toDecimalInt poolId.toInt ++ ascii ['_'] ++ objName
    let objHashedId := (hash objId).setWidth 32
    match mgr.getPtNum clusterId with
    | none => (-RET_CCM_PT_NUM_ERROR, none)
    | some ptNum =>
      if ptNum = 0 then (-RET_CCM_PT_NUM_ERROR, none)
      else
        let ptId := objHashedId % ptNum
        match mgr.getPtEntry clusterId ptId with
        | none => (-RET_CCM_PT_ENTRY_ERROR, some ptId)
        | some entry =>
          match mgr.getNodeInfo clusterId entry.nodeId with
          | none => (-RET_CCM_NODE_INFO_ERROR, some ptId)
          | some info =>
            -- a signed comparison: a negative number of ports passes
            if PORT_SUPPORT_MAX < info.portNum.toInt ∨ info.portNum = 0 then
              (-RET_CCM_PORT_NUM_ERROR, some ptId)
            else (packNodeId clusterId entry info, some ptId)

/-! ## `get_node_ip` -/

def GC_PORT_MIN : ℕ := 7880
def GC_PORT_MAX : ℕ := 7889

/-- One number of a dotted address: up to 255, no leading zero; the first is not 0. -/
def validOctet (first : Bool) (s : Bytes) : Bool :=
  s ≠ [] && s.all (fun c => 48 ≤ c && c ≤ 57) && ofDigits 10 (digits 10 s) ≤ 255 &&
    (s.head? ≠ some 48 || (s.length = 1 && !first))

/-- The first branch of the regular expression of `valid_ip`. -/
def dottedIp (ipAddr : Bytes) : Bool :=
  match ipAddr.splitOn 46 with
  | [a, b, c, d] =>
    validOctet true a && validOctet false b && validOctet false c && validOctet false d
  | _ => false

/-- Its second branch, `0.0.0.0`. The dots are not escaped there and match any byte but a line
end. -/
def zeroIp : Bytes → Bool
  | [48, x, 48, y, 48, z, 48] => [x, y, z].all fun c => c ≠ 10 && c ≠ 13
  | _ => false

def validIp (ipAddr : Bytes) : Bool := dottedIp ipAddr || zeroIp ipAddr

/-- `(node_index & NODE_ID_MASK) >> NODE_ID_OFFSET_BIT` -/
def nodeOfIndex (nodeIndex : BitVec 32) : BitVec 32 :=
  (nodeIndex &&& NODE_ID_MASK) >>> NODE_ID_OFFSET_BIT

/-- `node_index & PORT_INDEX_MASK` -/
def portOfIndex (nodeIndex : BitVec 32) : BitVec 32 := nodeIndex &&& PORT_INDEX_MASK

/-- The port lookup of `get_node_ip` and `get_node_raw_ip`: the node and its port, or an error.
`none` where `ports` is read past its end. -/
def lookupPort (mgr : ClientAdaptorMgr) (clusterId nodeIndex : BitVec 32) :
    Option (Except (BitVec 32) (NodeInfo × BitVec 32)) :=
  match mgr.getNodeInfo clusterId (nodeOfIndex nodeIndex) with
  | none => some (.error RET_CCM_NODE_INFO_ERROR)
  | some info =>
    info.ports[(portOfIndex nodeIndex).toNat]?.map fun port =>
      if port.toNat < GC_PORT_MIN ∨ GC_PORT_MAX < port.toNat then .error RET_CCM_PORT_NUM_ERROR
      else .ok (info, port)

/-- `get_node_ip`: the result, and `node_ip` where it is assigned. -/
def getNodeIp (mgr : ClientAdaptorMgr) (clusterId nodeIndex : BitVec 32) :
    Option (BitVec 32 × Option Bytes) :=
  (lookupPort mgr clusterId nodeIndex).map fun
    | .error e => (e, none)
    | .ok (info, port) =>
      if validIp info.publicAddrStr then
        (RET_OK, some (ascii ['t','c','p',':','/','/'] ++ info.publicAddrStr ++ ascii [':'] ++
          toDecimal port.toNat))
      else (RET_CCM_IP_ERROR, none)

/-- `get_node_raw_ip` assigns the address before it looks at it. -/
def getNodeRawIp (mgr : ClientAdaptorMgr) (clusterId nodeIndex : BitVec 32) :
    Option (BitVec 32 × Option Bytes) :=
  (lookupPort mgr clusterId nodeIndex).map fun
    | .error e => (e, none)
    | .ok (info, _) =>
      (if validIp info.publicAddrStr then RET_OK else RET_CCM_IP_ERROR, some info.publicAddrStr)

/-! ## The fields of an id

Every reader is division and remainder of the id as a number, as long as its sign bit is
clear. -/

section Fields

variable {id : BitVec 32}

theorem sshiftRight_toNat {x : BitVec 32} (h : x.toNat < 2 ^ 31) (n : ℕ) :
    (x.sshiftRight n).toNat = x.toNat / 2 ^ n := by
  have hmsb : x.msb = false := by
    rw [BitVec.msb_eq_false_iff_two_mul_lt]
    omega
  rw [BitVec.sshiftRight_eq_of_msb_false hmsb, BitVec.toNat_ushiftRight,
    Nat.shiftRight_eq_div_pow]

theorem checkOsdValue_iff (h : id.toNat < 2 ^ 31) :
    checkOsdValue id = true ↔ 2 ^ 20 ≤ id.toNat := by
  have hne : id ≠ -1 := by
    rintro rfl
    exact absurd h (by decide)
  have hshift := sshiftRight_toNat h 20
  have hzero : id.sshiftRight 20 ≠ 0 ↔ id.toNat / 2 ^ 20 ≠ 0 := by
    rw [← hshift, ne_eq, ne_eq, ← BitVec.toNat_inj]
    rfl
  simp only [checkOsdValue, ne_eq, hne, not_false_eq_true, decide_true, Bool.true_and,
    decide_eq_true_eq]
  rw [← ne_eq, hzero]
  omega

theorem and_low (x : BitVec 32) {m : BitVec 32} (n : ℕ) (hm : m.toNat = 2 ^ n - 1) :
    (x &&& m).toNat = x.toNat % 2 ^ n := by
  rw [BitVec.toNat_and, hm, Nat.and_two_pow_sub_one_eq_mod]

/-- A field between two bits: masked in place and shifted down, or shifted and cut. -/
theorem and_shift (x : BitVec 32) {m : BitVec 32} (k n : ℕ)
    (hm : m.toNat >>> k = 2 ^ n - 1) : (x &&& m).toNat / 2 ^ k = x.toNat / 2 ^ k % 2 ^ n := by
  rw [BitVec.toNat_and, ← Nat.shiftRight_eq_div_pow, Nat.shiftRight_and_distrib, hm,
    Nat.and_two_pow_sub_one_eq_mod, Nat.shiftRight_eq_div_pow]

theorem getClusterIdFromOsd_toNat (id : BitVec 32) :
    (getClusterIdFromOsd id).toNat = id.toNat / 2 ^ 16 % 2 ^ 4 := by
  have hlt : (id &&& 0xF0000).toNat < 2 ^ 31 := by
    refine lt_of_le_of_lt ?_ (show (0xF0000 : ℕ) < 2 ^ 31 by norm_num)
    rw [BitVec.toNat_and]
    exact Nat.and_le_right
  rw [getClusterIdFromOsd, sshiftRight_toNat hlt, and_shift id 16 4 (by decide)]

theorem nodeOfSession_toNat (id : BitVec 32) :
    ((id &&& 0xFFFF).sshiftRight 4).toNat = id.toNat % 2 ^ 16 / 2 ^ 4 := by
  have hand := and_low id (m := 0xFFFF) 16 (by decide)
  rw [sshiftRight_toNat (by omega), hand]

theorem nodeOfIndex_toNat (id : BitVec 32) :
    (nodeOfIndex id).toNat = id.toNat / 2 ^ 4 % 2 ^ 12 := by
  rw [nodeOfIndex, BitVec.toNat_ushiftRight, Nat.shiftRight_eq_div_pow]
  exact and_shift id 4 12 (by decide)

theorem portOfIndex_toNat (id : BitVec 32) : (portOfIndex id).toNat = id.toNat % 2 ^ 4 :=
  and_low id 4 (by decide)

end Fields

/-! ## Packing and unpacking -/

/-- A call of `get_node_id` that gets as far as the id: CCM answers every question, and the
number of ports is accepted. -/
structure NodeCall where
  mgr : ClientAdaptorMgr
  hash : Bytes → BitVec 64
  clusterId : BitVec 32
  objName : Bytes
  poolId : Int64
  ptNum : BitVec 32
  entry : PtEntry
  info : NodeInfo
  named : objName.length ≠ 0
  cluster_pos : 1 ≤ clusterId.toNat
  cluster_le : clusterId.toNat ≤ 4
  ptNum_eq : mgr.getPtNum clusterId = some ptNum
  ptNum_ne : ptNum ≠ 0
  entry_eq : mgr.getPtEntry clusterId
    ((hash (toDecimalInt poolId.toInt ++ ascii ['_'] ++ objName)).setWidth 32 % ptNum) = some entry
  node_lt : entry.nodeId.toNat < 128
  info_eq : mgr.getNodeInfo clusterId entry.nodeId = some info
  accepted : ¬ (PORT_SUPPORT_MAX < info.portNum.toInt ∨ info.portNum = 0)

namespace NodeCall

variable (call call' : NodeCall)

/-- The id the call returns. -/
def id : BitVec 32 :=
  (getNodeId call.mgr call.hash call.clusterId call.objName call.poolId).1

/-- `pt_index % info.portNum` -/
def portIndex : BitVec 32 := call.entry.indexInNode % call.info.portNum

theorem id_eq : call.id = packNodeId call.clusterId call.entry call.info := by
  simp only [id, getNodeId, if_neg call.named, call.ptNum_eq, if_neg call.ptNum_ne,
    call.entry_eq, call.info_eq, if_neg call.accepted]

/-- The fields do not overlap while the port stays below 16. -/
theorem id_toNat (h : call.portIndex.toNat < 16) :
    call.id.toNat = 2 ^ 20 + call.clusterId.toNat * 2 ^ 16 + call.entry.nodeId.toNat * 2 ^ 4
      + call.portIndex.toNat := by
  have hcluster := call.cluster_le
  have hnode := call.node_lt
  have hone : ((1 : BitVec 32) <<< FLAG_OFFSET_BIT).toNat = 2 ^ 20 := by decide
  have hshiftNode : (call.entry.nodeId <<< NODE_ID_OFFSET_BIT).toNat =
      call.entry.nodeId.toNat * 2 ^ 4 := by
    rw [BitVec.toNat_shiftLeft, Nat.shiftLeft_eq, NODE_ID_OFFSET_BIT, Nat.mod_eq_of_lt (by omega)]
  have hshiftCluster : (call.clusterId <<< CLUSTER_ID_OFFSET).toNat =
      call.clusterId.toNat * 2 ^ 16 := by
    rw [BitVec.toNat_shiftLeft, Nat.shiftLeft_eq, CLUSTER_ID_OFFSET, Nat.mod_eq_of_lt (by omega)]
  rw [id_eq, packNodeId, ← portIndex, BitVec.toNat_add, BitVec.toNat_add, BitVec.toNat_add,
    hone, hshiftNode, hshiftCluster]
  omega

/-- What was packed comes out again, in each of the places that take an id apart, and the port
index is one of `ports`. -/
structure Unpacks : Prop where
  pos : 0 < call.id.toInt
  isNode : checkOsdValue call.id = true
  cluster : getClusterIdFromOsd call.id = call.clusterId
  session : (call.id &&& 0xFFFF).sshiftRight 4 = call.entry.nodeId
  node : nodeOfIndex call.id = call.entry.nodeId
  port : portOfIndex call.id = call.portIndex
  inPorts : (portOfIndex call.id).toNat < MAX_PORT_NUM

theorem unpacks_of_lt (h : call.portIndex.toNat < MAX_PORT_NUM) : call.Unpacks := by
  rw [MAX_PORT_NUM] at h
  have hcluster := call.cluster_le
  have hnode := call.node_lt
  have hid := call.id_toNat (by omega)
  have hport : (portOfIndex call.id).toNat = call.portIndex.toNat := by
    rw [portOfIndex_toNat]
    omega
  constructor
  · rw [BitVec.toInt_eq_toNat_of_lt (by omega)]
    omega
  · rw [checkOsdValue_iff (by omega)]
    omega
  · apply BitVec.eq_of_toNat_eq
    rw [getClusterIdFromOsd_toNat]
    omega
  · apply BitVec.eq_of_toNat_eq
    rw [nodeOfSession_toNat]
    omega
  · apply BitVec.eq_of_toNat_eq
    rw [nodeOfIndex_toNat]
    omega
  · exact BitVec.eq_of_toNat_eq hport
  · rw [hport, MAX_PORT_NUM]
    exact h

/-- **When an id can be used.** What `get_node_id` packed comes out again in every place
exactly when the remainder it adds is one of the 8 ports; and then the id determines the
cluster, the node and the port. -/
theorem getNodeId_unpacks_iff (call : NodeCall) :
    (call.Unpacks ↔ call.portIndex.toNat < MAX_PORT_NUM) ∧
      ∀ call' : NodeCall, call.Unpacks → call'.Unpacks → call.id = call'.id →
        (call.clusterId, call.entry.nodeId, call.portIndex) =
          (call'.clusterId, call'.entry.nodeId, call'.portIndex) := by
  refine ⟨⟨?_, call.unpacks_of_lt⟩, ?_⟩
  · intro h
    rw [← h.port]
    exact h.inPorts
  · intro call' h h' heq
    rw [← h.cluster, ← h.node, ← h.port, ← h'.cluster, ← h'.node, ← h'.port, heq]

/-- Up to 8 ports every partition of the node has a port. -/
theorem portIndex_lt (hpos : 0 < call.info.portNum.toInt)
    (hle : call.info.portNum.toInt ≤ MAX_PORT_NUM) : call.portIndex.toNat < MAX_PORT_NUM := by
  have hnat : (call.info.portNum.toNat : ℤ) = call.info.portNum.toInt := by
    rw [BitVec.toInt_eq_toNat_cond] at hpos ⊢
    split_ifs at hpos ⊢ with hlt
    · rfl
    · have := call.info.portNum.isLt
      omega
  have hne : 0 < call.info.portNum.toNat := by omega
  have hmod := Nat.mod_lt call.entry.indexInNode.toNat hne
  rw [portIndex, BitVec.toNat_umod]
  omega

/-- An id that unpacks is looked up inside `ports`. -/
theorem lookupPort_isSome (h : call.Unpacks) :
    (lookupPort call.mgr call.clusterId call.id).isSome = true := by
  have hport : call.info.ports[(portOfIndex call.id).toNat]? =
      some (call.info.ports.get ⟨_, h.inPorts⟩) := Vector.getElem?_eq_getElem h.inPorts
  simp only [lookupPort, h.node, call.info_eq, hport, Option.map_some, Option.isSome_some]

end NodeCall

/-- Node 5 of cluster 1 with the given number of ports, and a partition of it. -/
def callWith (portNum indexInNode : BitVec 32)
    (accepted : ¬ (PORT_SUPPORT_MAX < portNum.toInt ∨ portNum = 0)) : NodeCall where
  mgr :=
    { getPtNum := fun _ => some 1
      getPtEntry := fun _ _ => some ⟨5, indexInNode⟩
      getNodeInfo := fun _ _ => some ⟨[], portNum, Vector.replicate _ 7880⟩ }
  hash _ := 0
  clusterId := 1
  objName := ascii ['o']
  poolId := 3
  ptNum := 1
  entry := ⟨5, indexInNode⟩
  info := ⟨[], portNum, Vector.replicate _ 7880⟩
  named := by decide
  cluster_pos := by decide
  cluster_le := by decide
  ptNum_eq := rfl
  ptNum_ne := by decide
  entry_eq := rfl
  node_lt := show (5 : BitVec 32).toNat < 128 by decide
  info_eq := rfl
  accepted := accepted

/-- Partition 15 of a node with 8 ports: port 7. -/
theorem getNodeId_unpacks_port_seven :
    (callWith 8 15 (by decide)).Unpacks ∧ (callWith 8 15 (by decide)).id = 0x110057 :=
  ⟨(NodeCall.getNodeId_unpacks_iff (callWith 8 15 (by decide))).1.mpr (by decide), by decide⟩

/-- Partition 8 of a node with 9 ports: the id names port 8, and `get_node_ip` reads `ports[8]`.
With `portNum = -1` partition 16 is taken for a port of node 6. -/
theorem getNodeId_port_outside :
    ¬ (callWith 9 8 (by decide)).Unpacks ∧
      getNodeIp (callWith 9 8 (by decide)).mgr 1 (callWith 9 8 (by decide)).id = none ∧
      ¬ (callWith (-1) 16 (by decide)).Unpacks ∧
      nodeOfIndex (callWith (-1) 16 (by decide)).id = 6 := by
  refine ⟨?_, by decide, ?_, by decide⟩
  · intro h
    exact absurd h.inPorts (by decide)
  · intro h
    exact absurd h.node (by decide)

end GcAdaptor.ClientAdaptorMsg
