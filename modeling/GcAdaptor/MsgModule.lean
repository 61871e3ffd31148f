/-
`server_adaptor/msg_module.cpp`: the conversion of one client sub-op into the
request form of the cache core.

The converters read a sub-op's `indata` through a buffer iterator, and a read
past its end throws. They fill `oneOp` through a reference, so a throw leaves
whatever was pushed before it behind: a converter here is an
`Except OpRequestOps OpRequestOps`, `.ok` with the filled sub-op or `.error`
with what the throw leaves.

`Decodable` says, without running a converter, which payloads are complete for
their op code, and `convertClientopToOpreq_isOk_iff` is the agreement: the
conversion throws exactly on the sub-ops that are not. `CEPH_OSD_OP_CALL` is the
one decoding op that catches the throw; its names may come out truncated.

Logging and the performance counters are left out.
-/
import GcAdaptor.Cxx

set_option autoImplicit false

namespace GcAdaptor.MsgModule

open GcAdaptor.Wire GcAdaptor.Cxx
open GcAdaptor.Wire.Codec (le str pair many copy)

/-! ## The data model -/

/-- The values of `ceph_osd_op::op` the converters tell apart. -/
inductive OpCode
  | cmpext | sparseRead | syncRead | read
  | zero | truncate | writefull | write
  | getxattr | rmxattr | cmpxattr | setxattr
  | omapgetvals | omapsetvals | omapgetkeys | omaprmkeys | omapclear | omapgetvalsbykeys
  | omapCmp | omapsetheader | omapgetheader
  | getxattrs | stat | call | listSnaps | create | rollback | writesame
  | other (code : UInt16)
  deriving DecidableEq, Repr

/-- `ceph_osd_op::xattr.cmp_mode`. -/
inductive CmpMode
  | string | u64
  | other (mode : UInt8)
  deriving DecidableEq, Repr

/-- `ceph_osd_op`. The members of its union are kept apart: each op code reads
one of them only. -/
structure CephOsdOp where
  op : OpCode
  flags : UInt32 := 0
  extentOffset : UInt64 := 0
  extentLength : UInt64 := 0
  classLen : UInt8 := 0
  methodLen : UInt8 := 0
  /-- `cls.indata_len` -/
  indataLen : UInt32 := 0
  nameLen : UInt32 := 0
  valueLen : UInt32 := 0
  cmpOp : UInt8 := 0
  cmpMode : CmpMode := .string
  snapid : UInt64 := 0
  writesameOffset : UInt64 := 0
  writesameLength : UInt64 := 0

/-- `OSDOp`: one sub-op of a client request with its input and output bytes. -/
structure OSDOp where
  op : CephOsdOp
  indata : BufferList := default
  outdata : Bytes := []

/-- `RbdObjid`. `seq` is a bit field of 40 bits. -/
structure RbdObjid where
  poolId : UInt32 := 0
  head : UInt64 := 0
  seq : BitVec 40 := 0
  format : UInt8 := 0
  version : UInt8 := 0
  reserve : UInt8 := 0

/-- `OpRequestOps`: a sub-op in the form the cache core takes. -/
structure OpRequestOps where
  opSubType : OpCode := .other 0
  objName : Bytes := []
  isRbd : Bool := false
  rbdObjId : RbdObjid := {}
  inData : Bytes := []
  inDataLen : UInt32 := 0
  outDataLen : UInt32 := 0
  objOffset : UInt32 := 0
  objLength : UInt32 := 0
  opFlags : UInt32 := 0
  keys : List Bytes := []
  values : List Bytes := []
  subops : List ℤ := []
  u64vals : List ℕ := []
  cmpModes : List CmpMode := []

/-- `OptionsType`: how many sub-ops write and read. -/
structure OptionsType where
  write : UInt32 := 0
  read : UInt32 := 0

/-- `OptionsLength`: how many KiB they write and read. -/
structure OptionsLength where
  write : UInt64 := 0
  read : UInt64 := 0

def READ_STAT_FLAG : UInt32 := 0x0400

/-! ## The converters -/

/-- A buffer read that throws past the end and leaves `oneOp` as it is there. -/
def orThrow {α : Type} (oneOp : OpRequestOps) : Option α → Except OpRequestOps α
  | some a => .ok a
  | none => .error oneOp

def OpRequestOps.push (oneOp : OpRequestOps) (key value : Bytes) : OpRequestOps :=
  { oneOp with keys := oneOp.keys ++ [key], values := oneOp.values ++ [value] }

def convertObjRw (clientop : OSDOp) (oneOp : OpRequestOps) : OpRequestOps :=
  match clientop.op.op with
  | .read | .sparseRead | .syncRead =>
    { oneOp with outDataLen := clientop.op.extentLength.toUInt32 }
  | .write | .writefull | .writesame =>
    { oneOp with
      inData := clientop.indata.data
      inDataLen := UInt32.ofNat clientop.indata.data.length }
  | .cmpext =>
    { oneOp with
      outDataLen := clientop.op.extentLength.toUInt32
      inData := clientop.indata.data
      inDataLen := UInt32.ofNat clientop.indata.data.length }
  | _ => oneOp

/-- The walk of `decode_str_str_map_to_bl` over `n` entries: the length of the
encoded map so far, as the 32-bit `len` counts it. -/
def walkStrStrMap : ℕ → Bytes → ℕ → Option ℕ
  | 0, _, len => some len
  | n + 1, p, len => do
    let (l, p) ← (le 4).dec p
    let (_, p) ← copy l p
    let len := (len + 4 + l) % 2 ^ 32
    let (l, p) ← (le 4).dec p
    let (_, p) ← copy l p
    walkStrStrMap n p ((len + 4 + l) % 2 ^ 32)

/-- `decode_str_str_map_to_bl`: the bytes of the encoded map at the front of `p`. -/
def decodeStrStrMapToBl (p : Bytes) : Option Bytes := do
  let (n, q) ← (le 4).dec p
  let len ← walkStrStrMap n q 4
  let (out, _) ← copy len p
  some out

/-- An encoded `map<string, bufferlist>`. -/
def kvCodec : Codec (List (Bytes × Bytes)) := many (pair str str)

/-- An encoded `map<string, pair<bufferlist, int>>`. -/
def cmpCodec : Codec (List (Bytes × Bytes × ℕ)) := many (pair str (pair str (le 4)))

def convertOmapOp (clientop : OSDOp) (oneOp : OpRequestOps) : Except OpRequestOps OpRequestOps :=
  let bp := clientop.indata.data
  match clientop.op.op with
  | .omapgetvals => do
    let (startAfter, bp) ← orThrow oneOp (str.dec bp)
    let oneOp := oneOp.push (ascii ['s','t','a','r','t','_','a','f','t','e','r']) startAfter
    let (maxReturn, bp) ← orThrow oneOp ((le 8).dec bp)
    let oneOp := oneOp.push (ascii ['m','a','x','_','r','e','t','u','r','n']) (toDecimal maxReturn)
    let (filterPrefix, _) ← orThrow oneOp (str.dec bp)
    return oneOp.push (ascii ['f','i','l','t','e','r','_','p','r','e','f','i','x']) filterPrefix
  | .omapsetvals => do
    -- measured and copied first, then decoded from the copy
    let toSetBl ← orThrow oneOp (decodeStrStrMapToBl bp)
    let (kvs, _) ← orThrow oneOp (kvCodec.dec toSetBl)
    let toSet := mapOf kvs
    return { oneOp with
      keys := oneOp.keys ++ toSet.map (·.1)
      values := oneOp.values ++ toSet.map (·.2) }
  | .omapgetkeys => do
    let (startAfter, bp) ← orThrow oneOp (str.dec bp)
    let oneOp := oneOp.push (ascii ['s','t','a','r','t','_','a','f','t','e','r']) startAfter
    let (maxReturn, _) ← orThrow oneOp ((le 8).dec bp)
    return oneOp.push (ascii ['m','a','x','_','r','e','t','u','r','n']) (toDecimal maxReturn)
  | .omaprmkeys | .omapgetvalsbykeys => do
    let (ks, _) ← orThrow oneOp ((many str).dec bp)
    return { oneOp with keys := oneOp.keys ++ setOf ks }
  | .omapsetheader =>
    -- the length is the extent's, not that of `indata`
    .ok { oneOp with
      inDataLen := clientop.op.extentLength.toUInt32
      inData := clientop.indata.data }
  | .omapCmp => do
    let (kvs, _) ← orThrow oneOp (cmpCodec.dec bp)
    let assertions := mapOf kvs
    return { oneOp with
      keys := oneOp.keys ++ assertions.map (·.1)
      values := oneOp.values ++ assertions.map (·.2.1)
      subops := oneOp.subops ++ assertions.map fun a => int32 a.2.2 }
  | _ => .ok oneOp

def convertAttrOp (clientop : OSDOp) (oneOp : OpRequestOps) :
    Except OpRequestOps OpRequestOps := do
  let op := clientop.op
  let (xattrName, bp) ← orThrow oneOp (copy op.nameLen.toNat clientop.indata.data)
  let oneOp := { oneOp with keys := oneOp.keys ++ [xattrName] }
  match op.op with
  | .setxattr => do
    let (val, _) ← orThrow oneOp (copy op.valueLen.toNat bp)
    return { oneOp with values := oneOp.values ++ [val] }
  | .cmpxattr => do
    let oneOp := { oneOp with
      subops := oneOp.subops ++ [(op.cmpOp.toNat : ℤ)]
      cmpModes := oneOp.cmpModes ++ [op.cmpMode] }
    match op.cmpMode with
    | .string => do
      -- `val[value_len] = 0` rewrites the terminator of a string of that length
      let (val, _) ← orThrow oneOp (copy op.valueLen.toNat bp)
      return { oneOp with values := oneOp.values ++ [val] }
    | .u64 => do
      let (u64val, _) ← orThrow oneOp ((le 8).dec bp)
      return { oneOp with u64vals := oneOp.u64vals ++ [u64val] }
    | .other _ => return oneOp
  | _ => return oneOp

def convertRollBackOp (clientop : OSDOp) (oneOp : OpRequestOps) : OpRequestOps :=
  oneOp.push (ascii ['s','n','a','p','i','d']) (toDecimal clientop.op.snapid.toNat)

/-- The class and method names `CEPH_OSD_OP_CALL` reads. The iterator copies what
there is before it throws, so a short payload truncates the name it ends in. -/
def callNames (clientop : OSDOp) : Bytes × Bytes :=
  let data := clientop.indata.data
  let classLen := clientop.op.classLen.toNat
  (data.take classLen,
    if classLen ≤ data.length then (data.drop classLen).take clientop.op.methodLen.toNat else [])

/-- The names of a copyup call. -/
def isCopyup (clientop : OSDOp) : Bool :=
  callNames clientop = (ascii ['r','b','d'], ascii ['c','o','p','y','u','p'])

/-- What a conversion hands back besides the sub-op. -/
structure Converted where
  existsCopyUp : Bool
  oneOp : OpRequestOps
  optionType : OptionsType
  optionLength : OptionsLength

def convertClientopToOpreq (readStatFlag : Bool) (clientop : OSDOp) (oneOp : OpRequestOps)
    (optionType : OptionsType) (optionLength : OptionsLength) :
    Except OpRequestOps Converted :=
  let op := clientop.op
  let oneOp := { oneOp with opSubType := op.op }
  match op.op with
  | .cmpext | .sparseRead | .syncRead | .read =>
    let oneOp := convertObjRw clientop { oneOp with
      objOffset := op.extentOffset.toUInt32
      objLength := op.extentLength.toUInt32 }
    .ok { existsCopyUp := false
          oneOp := if readStatFlag then { oneOp with opFlags := oneOp.opFlags ||| READ_STAT_FLAG }
            else oneOp
          optionType := { optionType with read := optionType.read + 1 }
          optionLength := { optionLength with
            read := optionLength.read + op.extentLength / 1024 } }
  | .zero | .truncate | .writefull | .write =>
    .ok { existsCopyUp := false
          oneOp := convertObjRw clientop { oneOp with
            objOffset := op.extentOffset.toUInt32
            objLength := op.extentLength.toUInt32 }
          optionType := { optionType with write := optionType.write + 1 }
          optionLength := { optionLength with
            write := optionLength.write + op.extentLength / 1024 } }
  | .getxattr | .rmxattr | .cmpxattr | .setxattr => do
    let oneOp ← convertAttrOp clientop oneOp
    return ⟨false, oneOp, optionType, optionLength⟩
  | .omapgetvals | .omapsetvals | .omapgetkeys | .omaprmkeys | .omapclear | .omapgetvalsbykeys
  | .omapCmp | .omapsetheader | .omapgetheader => do
    let oneOp ← convertOmapOp clientop oneOp
    return ⟨false, oneOp, optionType, optionLength⟩
  | .getxattrs | .stat | .create =>
    .ok ⟨false, { oneOp with opFlags := op.flags }, optionType, optionLength⟩
  -- the one case that catches the throw of its reads
  | .call => .ok ⟨isCopyup clientop, oneOp, optionType, optionLength⟩
  | .rollback => .ok ⟨false, convertRollBackOp clientop oneOp, optionType, optionLength⟩
  | .writesame =>
    .ok { existsCopyUp := false
          oneOp := convertObjRw clientop { oneOp with
            objOffset := op.writesameOffset.toUInt32
            objLength := op.writesameLength.toUInt32 }
          optionType := { optionType with write := optionType.write + 1 }
          optionLength := { optionLength with
            write := optionLength.write + op.writesameLength / 1024 } }
  -- an unknown op code is logged and passed on
  | .listSnaps | .other _ => .ok ⟨false, oneOp, optionType, optionLength⟩

/-! ## The map walk agrees with the decoder

`decode_str_str_map_to_bl` measures the encoded map before it is decoded. The
measured prefix is exactly what the decoder reads, so the second decode cannot
fail, and the 32-bit `len` cannot wrap inside a buffer list. -/

private theorem walk_entry {p q : Bytes} {l : ℕ} {s : Bytes} (h₁ : (le 4).dec p = some (l, q))
    {r : Bytes} (h₂ : copy l q = some (s, r)) :
    str.dec p = some (s, r) ∧ p.length = 4 + l + r.length ∧ (str.enc s).length = 4 + l := by
  obtain ⟨rfl, rfl⟩ := (Codec.copy_iff _ _ _ _).mp h₂
  obtain ⟨hlt, rfl⟩ := ((le 4).dec_iff _ _ _).mp h₁
  refine ⟨(str.dec_iff _ _ _).mpr ⟨hlt, ?_⟩, ?_, ?_⟩
  · simp [le, str]
  · simp only [le, List.length_append, Codec.leEnc_length]
    omega
  · simp [str]

private theorem str_dec_none {p : Bytes} (h : (le 4).dec p = none) : str.dec p = none := by
  have h' : Codec.leDec 4 p = none := h
  simp [str, h']

private theorem str_dec_none_copy {p q : Bytes} {l : ℕ} (h₁ : (le 4).dec p = some (l, q))
    (h₂ : copy l q = none) : str.dec p = none := by
  have h' : Codec.leDec 4 p = some (l, q) := h₁
  simp [str, h', h₂]

theorem walkStrStrMap_eq (n : ℕ) (p : Bytes) (len : ℕ) (hfit : len + p.length < 2 ^ 32) :
    walkStrStrMap n p len
      = ((pair str str).decMany n p).map fun x =>
          len + (x.1.flatMap (pair str str).enc).length := by
  induction n generalizing p len with
  | zero => simp [walkStrStrMap, Codec.decMany]
  | succ n ih =>
    rw [walkStrStrMap, Codec.decMany]
    -- the key: a length word, then that many bytes
    cases h₁ : (le 4).dec p with
    | none => simp [pair, str_dec_none h₁]
    | some a =>
      cases h₂ : copy a.1 a.2 with
      | none => simp [pair, str_dec_none_copy h₁ h₂, h₂]
      | some b =>
        obtain ⟨hk, hklen, hkenc⟩ := walk_entry h₁ h₂
        -- the value, read the same way from what the key left
        cases h₃ : (le 4).dec b.2 with
        | none => simp [pair, hk, h₂, h₃, str_dec_none h₃]
        | some c =>
          cases h₄ : copy c.1 c.2 with
          | none => simp [pair, hk, h₂, h₃, h₄, str_dec_none_copy h₃ h₄]
          | some d =>
            obtain ⟨hv, hvlen, hvenc⟩ := walk_entry h₃ h₄
            -- both entries lie inside the buffer, so `len` stays below its length
            have hlen : ((len + 4 + a.1) % 2 ^ 32 + 4 + c.1) % 2 ^ 32
                = len + 4 + a.1 + 4 + c.1 := by
              omega
            have hrest := ih d.2 (len + 4 + a.1 + 4 + c.1) (by omega)
            simp only [Option.bind_eq_bind, Option.bind_some, h₂, h₃, h₄, hlen, hrest]
            simp only [pair, hk, hv, Option.bind_some, Option.map_some, Option.map_map]
            congr 1
            funext x
            simp only [Function.comp_apply, List.flatMap_cons, List.length_append, hkenc, hvenc]
            omega

/-- The bytes `decode_str_str_map_to_bl` copies are those of the encoded map. -/
theorem decodeStrStrMapToBl_eq (bl : BufferList) :
    decodeStrStrMapToBl bl.data = (kvCodec.dec bl.data).map fun x => kvCodec.enc x.1 := by
  have hfit := bl.fits
  rw [decodeStrStrMapToBl]
  cases h : (le 4).dec bl.data with
  | none =>
    have h' : Codec.leDec 4 bl.data = none := h
    simp [kvCodec, many, h']
  | some a =>
    have h' : Codec.leDec 4 bl.data = some a := h
    obtain ⟨-, hdata⟩ := ((le 4).dec_iff _ _ _).mp h
    have hlen : bl.data.length = 4 + a.2.length := by rw [hdata]; simp [le]
    simp only [Option.bind_eq_bind, Option.bind_some]
    rw [walkStrStrMap_eq _ _ _ (by omega)]
    simp only [kvCodec, many, h', Option.bind_some]
    cases hm : (pair str str).decMany a.1 a.2 with
    | none => simp
    | some x =>
      -- the walk ends where the decoder does, so the copy is the encoded map
      obtain ⟨hcount, -, hbytes⟩ := (Codec.decMany_iff _ _ _ _ _).mp hm
      have hcopy : copy (4 + (x.1.flatMap (pair str str).enc).length) bl.data
          = some (Codec.leEnc 4 x.1.length ++ x.1.flatMap (pair str str).enc, x.2) := by
        refine (Codec.copy_iff _ _ _ _).mpr ⟨by simp, ?_⟩
        rw [hdata, hbytes, hcount, List.append_assoc]
        rfl
      simp only [Option.map_some, Option.bind_some, hcopy]

/-! ## Which payloads are complete -/

/-- The payload of a sub-op is long enough for its op code. -/
def Decodable (clientop : OSDOp) : Prop :=
  let data := clientop.indata.data
  let nameLen := clientop.op.nameLen.toNat
  let valueLen := clientop.op.valueLen.toNat
  match clientop.op.op with
  | .getxattr | .rmxattr => nameLen ≤ data.length
  | .setxattr => nameLen + valueLen ≤ data.length
  | .cmpxattr =>
    match clientop.op.cmpMode with
    | .string => nameLen + valueLen ≤ data.length
    | .u64 => nameLen + 8 ≤ data.length
    | .other _ => nameLen ≤ data.length
  | .omapgetvals => (pair str (pair (le 8) str)).Starts data
  | .omapgetkeys => (pair str (le 8)).Starts data
  | .omapsetvals => kvCodec.Starts data
  | .omaprmkeys | .omapgetvalsbykeys => (many str).Starts data
  | .omapCmp => cmpCodec.Starts data
  | _ => True

private theorem isOk_orThrow_bind {α β : Type} (e : OpRequestOps) (o : Option α)
    (f : α → Except OpRequestOps β) :
    (orThrow e o >>= f).isOk = true ↔ ∃ a, o = some a ∧ (f a).isOk = true := by
  cases o with
  | none => simp [orThrow, bind, Except.bind, Except.isOk, Except.toBool]
  | some a => simp [orThrow, bind, Except.bind]

private theorem isOk_return {α : Type} (a : α) :
    (pure a : Except OpRequestOps α).isOk = true ↔ True := by
  simp [pure, Except.pure, Except.isOk, Except.toBool]

private theorem exists_copy (n : ℕ) (bs : Bytes) :
    (∃ a, copy n bs = some a) ↔ n ≤ bs.length := by
  rw [← Codec.copy_isSome, Option.isSome_iff_exists]

private theorem exists_copy_then (n : ℕ) (bs : Bytes) (P : Bytes → Prop) :
    (∃ a, copy n bs = some a ∧ P a.2) ↔ n ≤ bs.length ∧ P (bs.drop n) := by
  unfold Codec.copy
  split <;> simp_all

private theorem le_dec_isSome (k : ℕ) (bs : Bytes) :
    (∃ a, (le k).dec bs = some a) ↔ k ≤ bs.length := by
  constructor
  · rintro ⟨⟨n, r⟩, h⟩
    obtain ⟨-, rfl⟩ := ((le k).dec_iff _ _ _).mp h
    simp [le]
  · intro h
    induction k generalizing bs with
    | zero => exact ⟨(0, bs), rfl⟩
    | succ k ih =>
      cases bs with
      | nil => simp at h
      | cons b bs =>
        obtain ⟨a, ha⟩ := ih bs (by simpa using h)
        have ha' : Codec.leDec k bs = some a := ha
        exact ⟨(b.toNat + 256 * a.1, a.2), by simp [le, Codec.leDec, ha']⟩

private theorem exists_dec_iff {α : Type} (c : Codec α) (bs : Bytes) :
    (∃ a, c.dec bs = some a) ↔ c.Starts bs := by
  rw [← c.dec_isSome_iff, Option.isSome_iff_exists]

theorem convertAttrOp_isOk_iff (clientop : OSDOp) (oneOp : OpRequestOps)
    (h : clientop.op.op ∈ [.getxattr, .rmxattr, .cmpxattr, .setxattr]) :
    (convertAttrOp clientop oneOp).isOk = true ↔ Decodable clientop := by
  -- the name, and then `m` bytes of what it left
  have hthen : ∀ m : ℕ, (∃ a, copy clientop.op.nameLen.toNat clientop.indata.data = some a
      ∧ m ≤ a.2.length) ↔ clientop.op.nameLen.toNat + m ≤ clientop.indata.data.length := by
    intro m
    rw [exists_copy_then _ _ fun r => m ≤ r.length, List.length_drop]
    omega
  rw [convertAttrOp, isOk_orThrow_bind]
  simp only [List.mem_cons, List.not_mem_nil, or_false] at h
  rcases h with h | h | h | h
  · simp only [h, Decodable, isOk_return, and_true, exists_copy]
  · simp only [h, Decodable, isOk_return, and_true, exists_copy]
  · cases hm : clientop.op.cmpMode with
    | string =>
      simp only [h, hm, Decodable, isOk_orThrow_bind, isOk_return, and_true, exists_copy, hthen]
    | u64 =>
      simp only [h, hm, Decodable, isOk_orThrow_bind, isOk_return, and_true, le_dec_isSome, hthen]
    | other m => simp only [h, hm, Decodable, isOk_return, and_true, exists_copy]
  · simp only [h, Decodable, isOk_orThrow_bind, isOk_return, and_true, exists_copy, hthen]

theorem convertOmapOp_isOk_iff (clientop : OSDOp) (oneOp : OpRequestOps)
    (h : clientop.op.op ∈ [.omapgetvals, .omapsetvals, .omapgetkeys, .omaprmkeys, .omapclear,
      .omapgetvalsbykeys, .omapCmp, .omapsetheader, .omapgetheader]) :
    (convertOmapOp clientop oneOp).isOk = true ↔ Decodable clientop := by
  simp only [List.mem_cons, List.not_mem_nil, or_false] at h
  rcases h with h | h | h | h | h | h | h | h | h <;>
    simp only [convertOmapOp, Decodable, h]
  · -- string, word, string: the reads of a pair codec one after the other
    simp only [isOk_orThrow_bind, isOk_return, and_true, ← exists_dec_iff]
    simp only [pair, Option.bind_eq_some_iff, Option.map_eq_some_iff]
    constructor
    · rintro ⟨a, ha, b, hb, c, hc⟩
      exact ⟨_, a, ha, _, ⟨b, hb, c, hc, rfl⟩, rfl⟩
    · rintro ⟨-, a, ha, -, ⟨b, hb, c, hc, -⟩, -⟩
      exact ⟨a, ha, b, hb, c, hc⟩
  · -- what the walk measured decodes again
    simp only [isOk_orThrow_bind, isOk_return, and_true, decodeStrStrMapToBl_eq,
      Option.map_eq_some_iff, ← exists_dec_iff]
    constructor
    · rintro ⟨-, ⟨x, hx, -⟩, -⟩
      exact ⟨x, hx⟩
    · rintro ⟨x, hx⟩
      have hok := ((kvCodec.dec_iff _ _ _).mp hx).1
      exact ⟨_, ⟨x, hx, rfl⟩, (x.1, []), by simpa using kvCodec.dec_enc hok []⟩
  · simp only [isOk_orThrow_bind, isOk_return, and_true, ← exists_dec_iff]
    simp only [pair, Option.bind_eq_some_iff, Option.map_eq_some_iff]
    constructor
    · rintro ⟨a, ha, b, hb⟩
      exact ⟨_, a, ha, b, hb, rfl⟩
    · rintro ⟨-, a, ha, b, hb, -⟩
      exact ⟨a, ha, b, hb⟩
  · simp only [isOk_orThrow_bind, isOk_return, and_true, exists_dec_iff]
  · simp [Except.isOk, Except.toBool]
  · simp only [isOk_orThrow_bind, isOk_return, and_true, exists_dec_iff]
  · simp only [isOk_orThrow_bind, isOk_return, and_true, exists_dec_iff]
  · simp [Except.isOk, Except.toBool]
  · simp [Except.isOk, Except.toBool]

private theorem isOk_bind_return {α β : Type} (x : Except OpRequestOps α) (f : α → β) :
    (x >>= fun a => pure (f a)).isOk = x.isOk := by
  cases x <;> rfl

/-- **The conversion throws exactly on an incomplete payload.** Of the decoding
op codes only `CEPH_OSD_OP_CALL` catches, so it is complete whatever it holds. -/
theorem convertClientopToOpreq_isOk_iff (readStatFlag : Bool) (clientop : OSDOp)
    (oneOp : OpRequestOps) (optionType : OptionsType) (optionLength : OptionsLength) :
    (convertClientopToOpreq readStatFlag clientop oneOp optionType optionLength).isOk = true
      ↔ Decodable clientop := by
  have hattr := convertAttrOp_isOk_iff clientop { oneOp with opSubType := clientop.op.op }
  have homap := convertOmapOp_isOk_iff clientop { oneOp with opSubType := clientop.op.op }
  unfold convertClientopToOpreq
  cases h : clientop.op.op with
  | getxattr | rmxattr | cmpxattr | setxattr =>
    rw [h] at hattr
    simpa only [h, isOk_bind_return] using hattr (by simp)
  | omapgetvals | omapsetvals | omapgetkeys | omaprmkeys | omapclear | omapgetvalsbykeys
  | omapCmp | omapsetheader | omapgetheader =>
    rw [h] at homap
    simpa only [h, isOk_bind_return] using homap (by simp)
  | _ => simp [Decodable, h, Except.isOk, Except.toBool]

end GcAdaptor.MsgModule
